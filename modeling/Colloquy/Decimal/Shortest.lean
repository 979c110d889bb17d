import Colloquy.Decimal.Double

/-!
# The shortest decimal of a double

Of all decimals that round to a given double, `shortest` returns one with the fewest digits, and of
those the one closest to the double; where two are equally close, a `Tie` decides. For each number
of digits it looks at the two neighbours of the double on that decimal grid. Comparisons are made on
natural numbers, so no rounding happens on the way.
-/

namespace Colloquy.Decimal

/-- The number `digits * 10 ^ exponent`. -/
structure Digits where
  digits : Nat
  exponent : Int
deriving DecidableEq

/-- Which of two neighbours that are equally close is taken. -/
inductive Tie where
  | up
  | toEven
deriving DecidableEq

/-- The number of decimal digits of a positive integer. -/
def digitCount (n : Nat) : Nat := (Nat.toDigits 10 n).length

/-- The position of the leading digit: the exponent of scientific notation. -/
def Digits.leading (d : Digits) : Int := (digitCount d.digits : Int) - 1 + d.exponent

/-- The integer `e` with `10 ^ e ≤ num / den < 10 ^ (e + 1)`. -/
def decade (num den : Nat) : Int :=
  if den ≤ num then (digitCount (num / den) : Int) - 1
  else -(digitCount ((den - 1) / num) : Int)

/-- The numbers that round to a double: `low`, `centre` and `high` over the common denominator
`unit`. The two ends belong to the interval when `closed` holds. -/
structure Interval where
  low : Nat
  centre : Nat
  high : Nat
  unit : Nat
  closed : Bool
deriving DecidableEq

/-- The interval of a positive magnitude. Below a power of two the next double is half as far. -/
def Scaled.interval (x : Scaled) : Interval :=
  let narrow := x.significand = hiddenBit ∧ -1074 < x.exponent
  let up := Nat.pow 2 (x.exponent - 2).toNat
  { low := (4 * x.significand - if narrow then 1 else 2) * up
    centre := 4 * x.significand * up
    high := (4 * x.significand + 2) * up
    unit := Nat.pow 2 (2 - x.exponent).toNat
    closed := x.significand % 2 = 0 }

/-- The multiple of `10 ^ grid` in the interval that is closest to its centre. -/
def Interval.onGrid (i : Interval) (tie : Tie) (grid : Int) : Option Nat :=
  let scale := Nat.pow 10 (-grid).toNat
  let unit := i.unit * Nat.pow 10 grid.toNat
  let below := i.centre * scale / unit
  let fitsBelow := if i.closed then i.low * scale ≤ below * unit else i.low * scale < below * unit
  let fitsAbove :=
    if i.closed then (below + 1) * unit ≤ i.high * scale else (below + 1) * unit < i.high * scale
  let twice := 2 * (i.centre * scale - below * unit)
  let nearAbove := unit < twice ∨ (unit = twice ∧ (tie = .up ∨ below % 2 = 1))
  if fitsAbove ∧ (nearAbove ∨ ¬ fitsBelow) then some (below + 1)
  else if fitsBelow then some below
  else none

/-- The number without its trailing zeros, which move into the exponent. -/
def trimZeros : Nat → Digits → Digits
  | 0, d => d
  | fuel + 1, d =>
    if d.digits % 10 = 0 then trimZeros fuel ⟨d.digits / 10, d.exponent + 1⟩ else d

/-- The first grid, from `grid` downwards, that has a point in the interval. -/
def Interval.search (i : Interval) (tie : Tie) : Nat → Int → Digits
  | 0, grid => ⟨i.centre / i.unit, grid⟩
  | fuel + 1, grid =>
    match i.onGrid tie grid with
    | some digits => ⟨digits, grid⟩
    | none => i.search tie fuel (grid - 1)

/-- The shortest decimal that rounds to a positive magnitude. Seventeen digits always suffice. -/
def shortest (tie : Tie) (x : Scaled) : Digits :=
  let found := x.interval.search tie 17 (decade x.interval.centre x.interval.unit)
  trimZeros (digitCount found.digits) found

end Colloquy.Decimal
