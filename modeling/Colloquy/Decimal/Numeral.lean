import Colloquy.Decimal.Double

/-!
# Reading numerals

A numeral is an optional sign followed by digits with at most one point among or around them and an
optional exponent, or by one of the words `inf`, `infinity` and `nan` in any case. It is read as the
nearest double.
-/

namespace Colloquy.Decimal

/-- The value of a row of decimal digits. -/
def valueOf (digits : List Char) : Nat :=
  digits.foldl (fun n c => 10 * n + (c.toNat - '0'.toNat)) 0

/-- The double nearest to `n * 10 ^ exponent`. Exponents beyond the range of doubles are settled
without computing the power. -/
def ofDecimal (n : Nat) (exponent : Int) : Float :=
  let leading : Int := (n.log2 : Int) + 3 * exponent
  if n = 0 ∨ leading < -2000 then nearest 0 1
  else if 0 ≤ exponent ∧ 2000 < leading then infinity
  else nearest (n * Nat.pow 10 exponent.toNat) (Nat.pow 10 (-exponent).toNat)

/-- The signed integer after the mark of an exponent; there has to be a digit. -/
def exponent? : List Char → Option Int
  | '-' :: digits =>
    if !digits.isEmpty && digits.all Char.isDigit then some (-(valueOf digits : Int)) else none
  | '+' :: digits =>
    if !digits.isEmpty && digits.all Char.isDigit then some (valueOf digits) else none
  | digits => if !digits.isEmpty && digits.all Char.isDigit then some (valueOf digits) else none

/-- A numeral without sign that is written with digits. -/
def digitNumeral? (text : List Char) : Option Float :=
  let whole := text.takeWhile Char.isDigit
  let afterWhole := text.dropWhile Char.isDigit
  let (fraction, afterFraction) :=
    match afterWhole with
    | '.' :: rest => (rest.takeWhile Char.isDigit, rest.dropWhile Char.isDigit)
    | rest => ([], rest)
  if whole.isEmpty && fraction.isEmpty then none
  else
    let exponent :=
      match afterFraction with
      | [] => some 0
      | mark :: rest => if mark == 'e' || mark == 'E' then exponent? rest else none
    exponent.map fun e => ofDecimal (valueOf (whole ++ fraction)) (e - fraction.length)

/-- A numeral without sign. -/
def unsigned? (text : List Char) : Option Float :=
  let folded := String.ofList (text.map Char.toLower)
  if folded = "inf" ∨ folded = "infinity" then some infinity
  else if folded = "nan" then some notANumber
  else digitNumeral? text

/-- The number that a text denotes. -/
def read? : List Char → Option Float
  | '-' :: rest => (unsigned? rest).map fun x => -x
  | '+' :: rest => unsigned? rest
  | text => unsigned? text

end Colloquy.Decimal
