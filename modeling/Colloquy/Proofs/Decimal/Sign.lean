import Colloquy.Token.Scan
import Mathlib.Tactic.Lemma

/-!
# The sign of a numeral

Digits denote a number: the word of the nearest double is at most that of infinity. So a numeral is
at most zero or above it, which cannot be said of every double.
-/

namespace Colloquy

namespace Decimal

open Float.Model

variable {x : Float} {w : Nat}

/-- The double is a number, finite or not. -/
def IsNumber (x : Float) : Prop := x.toModel.unpack ≠ .notANumber

lemma unpack_zero : (0 : Float).toModel.unpack = .zero .positive := by rfl

lemma isNumber_zero : IsNumber 0 := by
  rw [IsNumber, unpack_zero]
  rintro ⟨⟩

/-- A number is at most zero or above it. -/
lemma IsNumber.le_or_lt (h : IsNumber x) : x ≤ 0 ∨ 0 < x := by
  have hle : x ≤ 0 ↔ x.toModel.unpack.le (.zero .positive) = true := by
    rw [← unpack_zero]
    exact decide_eq_true_iff
  have hlt : 0 < x ↔ UnpackedFloat.lt (.zero .positive) x.toModel.unpack = true := by
    rw [← unpack_zero]
    exact decide_eq_true_iff
  rw [hle, hlt]
  cases hx : x.toModel.unpack with
  | notANumber => exact absurd hx h
  | zero sign => exact .inl rfl
  | infinity sign | finite sign mantissa exponent hpos =>
    cases sign with
    | positive => exact .inr rfl
    | negative => exact .inl rfl

/-- A word without a payload is a number. -/
lemma unpack_ne_notANumber {b : BitVec Format.binary64.numBits}
    (h : UnpackedFloat.unpackExponent b = -1#11 → UnpackedFloat.unpackMantissa b = 0#52) :
    UnpackedFloat.unpack .binary64 b ≠ .notANumber := by
  unfold UnpackedFloat.unpack
  dsimp only
  by_cases hexponent : UnpackedFloat.unpackExponent b = -1#11
  · rw [if_pos hexponent, if_pos (h hexponent)]
    rintro ⟨⟩
  · rw [if_neg hexponent]
    by_cases hzero : UnpackedFloat.unpackExponent b = 0#11
    · rw [if_pos hzero]
      by_cases hmantissa : UnpackedFloat.unpackMantissa b = 0#52
      · rw [dif_pos hmantissa]
        rintro ⟨⟩
      · rw [dif_neg hmantissa]
        rintro ⟨⟩
    · rw [if_neg hzero]
      rintro ⟨⟩

/-- A number is unpacked to a number. -/
lemma unpack_pack_ne_notANumber {u : UnpackedFloat} (h : u ≠ .notANumber) :
    UnpackedFloat.unpack .binary64 (UnpackedFloat.pack .binary64 u) ≠ .notANumber := by
  apply unpack_ne_notANumber
  intro hexponent
  cases u with
  | notANumber => exact absurd rfl h
  | infinity sign | zero sign => exact UnpackedFloat.unpackMantissa_packComponents
  | finite sign mantissa exponent hpos =>
    unfold UnpackedFloat.pack at hexponent ⊢
    dsimp only at hexponent ⊢
    split at hexponent
    · rename_i hlarge
      rw [if_pos hlarge]
      exact UnpackedFloat.unpackMantissa_packComponents
    · rename_i hlarge
      split at hexponent
      · rw [UnpackedFloat.unpackExponent_packComponents] at hexponent
        have hbiased := congrArg BitVec.toNat hexponent
        rw [BitVec.toNat_ofNat] at hbiased
        change _ % 2048 = 2047 at hbiased
        change ¬2048 ≤ _ at hlarge
        omega
      · rw [UnpackedFloat.unpackExponent_packComponents] at hexponent
        exact absurd hexponent (by decide)

/-- So is every word up to infinity. -/
lemma isNumber_ofBits (h : w ≤ infinityWord) : IsNumber (Float.ofBits (UInt64.ofNat w)) := by
  apply unpack_pack_ne_notANumber
  apply unpack_ne_notANumber
  intro hexponent
  have hlt : w < 2 ^ 64 := Nat.lt_of_le_of_lt h (by decide)
  have hword : (UInt64.ofNat w).toNat = w := UInt64.toNat_ofNat_of_lt' hlt
  have hfield : ((UInt64.ofNat w).toNat >>> 52) % 2 ^ 11 = 2047 := congrArg BitVec.toNat hexponent
  rw [hword, Nat.shiftRight_eq_div_pow] at hfield
  apply BitVec.eq_of_toNat_eq
  change ((UInt64.ofNat w).toNat >>> 0) % 2 ^ 52 = 0
  rw [hword, Nat.shiftRight_zero]
  rw [infinityWord, hiddenBit] at h
  omega

lemma isNumber_nearest {num den : Nat} : IsNumber (nearest num den) := by
  unfold nearest
  split
  · exact isNumber_ofBits (Nat.zero_le _)
  · exact isNumber_ofBits (Nat.min_le_left _ _)

lemma isNumber_ofDecimal {n : Nat} {exponent : Int} : IsNumber (ofDecimal n exponent) := by
  unfold ofDecimal
  dsimp only
  split
  · exact isNumber_nearest
  · split
    · exact isNumber_ofBits (Nat.le_refl _)
    · exact isNumber_nearest

lemma isNumber_digitNumeral {text : List Char} (h : digitNumeral? text = some x) : IsNumber x := by
  unfold digitNumeral? at h
  dsimp only at h
  -- The cases are whether there is a fraction.
  split at h <;>
  · split at h
    · cases h
    · obtain ⟨exponent, _, rfl⟩ := Option.map_eq_some_iff.mp h
      exact isNumber_ofDecimal

end Decimal

lemma Scanner.numberOf_le_or_lt {text : List Char} : numberOf text ≤ 0 ∨ 0 < numberOf text := by
  apply Decimal.IsNumber.le_or_lt
  unfold numberOf
  cases hx : Decimal.digitNumeral? text with
  | none => exact Decimal.isNumber_zero
  | some x => exact Decimal.isNumber_digitNumeral hx

end Colloquy
