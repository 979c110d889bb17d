import Colloquy.Decimal.Double

/-!
# Rounding down

The largest integer that is not above a double, as a double.
-/

namespace Colloquy.Decimal

/-- The largest integer that is not above a double. Integers, among them negative zero, and what is
not finite stay as they are. -/
def floor (x : Float) : Float :=
  match magnitude? x with
  | none => x
  | some m =>
    let (num, den) := m.ratio
    if num % den = 0 then x
    else if isNegative x then -(nearest (num / den + 1) 1)
    else nearest (num / den) 1

end Colloquy.Decimal
