import Colloquy.Decimal.Shortest

/-!
# Writing doubles

A number is written with its shortest digits, either positionally or in scientific notation. Where
the one ends and the other begins, and how the special values are spelled, is a `Layout`.
-/

namespace Colloquy.Decimal

/-- The decisions of one way to write numbers. -/
structure Layout where
  /-- The leading exponents for which positional notation is used. -/
  positional : Int → Bool
  /-- Whether an integer written positionally ends in a point and a zero. -/
  pointZero : Bool
  /-- Whether negative zero shows its sign. -/
  signedZero : Bool
  /-- Which of two equally close decimals is taken. -/
  tie : Tie
  infinite : String
  undefined : String

/-- The decimal digits of a natural number. -/
def digitChars (n : Nat) : List Char := Nat.toDigits 10 n

/-- Digits with the point where it belongs and no exponent. -/
def Digits.positional (d : Digits) (pointZero : Bool) : List Char :=
  let chars := digitChars d.digits
  let whole := (chars.length : Int) + d.exponent
  if 0 ≤ d.exponent then
    chars ++ List.replicate d.exponent.toNat '0' ++ (if pointZero then ['.', '0'] else [])
  else if 0 < whole then
    chars.take whole.toNat ++ '.' :: chars.drop whole.toNat
  else
    '0' :: '.' :: List.replicate (-whole).toNat '0' ++ chars

/-- One digit, the other digits after a point, and a signed exponent. -/
def Digits.scientific (d : Digits) : List Char :=
  let fraction := (digitChars d.digits).drop 1
  (digitChars d.digits).take 1 ++ (if fraction.isEmpty then [] else '.' :: fraction) ++
    'e' :: (if 0 ≤ d.leading then '+' else '-') :: digitChars d.leading.natAbs

/-- The characters of a finite magnitude. -/
def Layout.magnitude (layout : Layout) (x : Scaled) : List Char :=
  if x.significand = 0 then if layout.pointZero then ['0', '.', '0'] else ['0']
  else
    let d := shortest layout.tie x
    if layout.positional d.leading then d.positional layout.pointZero else d.scientific

/-- The characters of a number. -/
def Layout.chars (layout : Layout) (x : Float) : List Char :=
  if x.isNaN then layout.undefined.toList
  else
    let showSign := isNegative x && (layout.signedZero || x != 0)
    let sign := if showSign then ['-'] else []
    match magnitude? x with
    | some scaled => sign ++ layout.magnitude scaled
    | none => sign ++ layout.infinite.toList

/-- The text of a number. -/
def Layout.write (layout : Layout) (x : Float) : String :=
  String.ofList (layout.chars x)

end Colloquy.Decimal
