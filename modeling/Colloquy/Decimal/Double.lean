/-!
# Doubles as scaled integers

The magnitude of a finite double is an integer times a power of two. `magnitude?` reads the two off
the 64-bit word, and `nearest` goes the other way: it rounds a ratio of natural numbers to the
closest double, an exact tie going to the even significand. Both work on natural numbers only.
-/

namespace Colloquy.Decimal

/-- The number `significand * 2 ^ exponent`. -/
structure Scaled where
  significand : Nat
  exponent : Int
deriving DecidableEq

/-- A scaled number as a numerator and a denominator. -/
def Scaled.ratio (x : Scaled) : Nat × Nat :=
  (x.significand * Nat.pow 2 x.exponent.toNat, Nat.pow 2 (-x.exponent).toNat)

/-- The leading bit of the significand of a normal number, 2 ^ 52. -/
def hiddenBit : Nat := 4503599627370496

/-- The sign bit of a word, 2 ^ 63. -/
def signBit : Nat := 9223372036854775808

/-- The word of positive infinity, the first word past the finite magnitudes. -/
def infinityWord : Nat := 2047 * hiddenBit

/-- Positive infinity. -/
def infinity : Float := Float.ofBits (UInt64.ofNat infinityWord)

/-- The one value that is not a number. -/
def notANumber : Float := Float.ofBits (UInt64.ofNat (infinityWord + hiddenBit / 2))

/-- The word of a double without its sign bit. -/
def magnitudeWord (x : Float) : Nat := x.toBits.toNat % signBit

/-- Whether the sign bit is set; negative zero has it too. -/
def isNegative (x : Float) : Bool := x.toBits.toNat / signBit == 1

/-- The magnitude of a word below `infinityWord`. -/
def scaledOfWord (word : Nat) : Scaled :=
  let field : Nat := word / hiddenBit
  let fraction := word % hiddenBit
  if field = 0 then ⟨fraction, -1074⟩ else ⟨hiddenBit + fraction, (field : Int) - 1075⟩

/-- The magnitude of a finite double. -/
def magnitude? (x : Float) : Option Scaled :=
  if magnitudeWord x < infinityWord then some (scaledOfWord (magnitudeWord x)) else none

/-- `num / den` to the nearest integer, a half going to the even one. -/
def roundQuotient (num den : Nat) : Nat :=
  let quotient := num / den
  let twice := 2 * (num % den)
  if twice < den ∨ (twice = den ∧ quotient % 2 = 0) then quotient else quotient + 1

/-- The numerator and the denominator of `num / den / 2 ^ exponent`. -/
def scaleDown (num den : Nat) (exponent : Int) : Nat × Nat :=
  (num * Nat.pow 2 (-exponent).toNat, den * Nat.pow 2 exponent.toNat)

/-- The exponent at which `num / den` has a significand of 53 bits, but never one below that of the
subnormal numbers. -/
def exponentOf (num den : Nat) : Int :=
  let guess : Int := (num.log2 : Int) - den.log2 - 52
  let (scaledNum, scaledDen) := scaleDown num den guess
  max (-1074) (if scaledNum < hiddenBit * scaledDen then guess - 1 else guess)

/-- The word of the double nearest to `num / den`. A significand that rounds up to the next power of
two carries into the exponent field by itself, and what is too large becomes infinity. -/
def nearestWord (num den : Nat) : Nat :=
  let exponent := exponentOf num den
  let (scaledNum, scaledDen) := scaleDown num den exponent
  min infinityWord ((exponent + 1074).toNat * hiddenBit + roundQuotient scaledNum scaledDen)

/-- The double nearest to `num / den`. -/
def nearest (num den : Nat) : Float :=
  if num = 0 then Float.ofBits 0 else Float.ofBits (UInt64.ofNat (nearestWord num den))

end Colloquy.Decimal
