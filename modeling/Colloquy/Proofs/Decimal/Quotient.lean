import Colloquy.Engine.Task
import Colloquy.Proofs.Decimal.Sign
import Mathlib.Logic.Basic

/-!
# The period of a schedule

The period of a timer is worked out in doubles: milliseconds between one and 2 ^ 32 - 1 are divided
by a thousand and rounded. The quotient is off by at most one unit of its last place
(`magnitude?_div_thousand`), not enough to leave the bounds (`Schedule.period_bounds`).
-/

namespace Colloquy

namespace Decimal

open Float.Model UnpackedFloat

section Rounding

variable {q r : Nat} {e : Int} {acc : Accuracy}

lemma log2_eq_52 (h : hiddenBit ≤ q) (h' : q < 2 * hiddenBit) : q.log2 = 52 := by
  unfold hiddenBit at h h'
  exact (Nat.log2_eq_iff (by omega)).mpr ⟨h, h'⟩

lemma log2_eq_53 (h : 2 * hiddenBit ≤ q) (h' : q < 4 * hiddenBit) : q.log2 = 53 := by
  unfold hiddenBit at h h'
  exact (Nat.log2_eq_iff (by omega)).mpr ⟨h, h'⟩

lemma shift_of_lt (h : hiddenBit ≤ q) (h' : q < 2 * hiddenBit) (he : -1074 ≤ e) :
    shiftToTargetExponent .binary64 q e acc = (.ofMantissaAndAccuracy q acc, e) := by
  have htarget : Format.binary64.targetExponent (totalExponent q e) = e := by
    change max ((q.log2 : Int) + 1 + e - 53) (-1074) = e
    rw [log2_eq_52 h h']
    omega
  unfold shiftToTargetExponent shiftToExponent
  simp only [htarget, Int.sub_self]
  exact Prod.ext rfl (Int.add_zero e)

lemma shift_of_le (h : 2 * hiddenBit ≤ q) (h' : q < 4 * hiddenBit) (he : -1074 ≤ e) :
    shiftToTargetExponent .binary64 q e acc =
      ((ExtendedMantissa.ofMantissaAndAccuracy q acc).shiftRightOne, e + 1) := by
  have htarget : Format.binary64.targetExponent (totalExponent q e) = e + 1 := by
    change max ((q.log2 : Int) + 1 + e - 53) (-1074) = e + 1
    rw [log2_eq_53 h h']
    omega
  have hshift : (e + 1 - e).toNat = 1 := by omega
  unfold shiftToTargetExponent shiftToExponent
  simp only [htarget, hshift]
  rfl

/-- A rounded significand carries at most one bit. -/
lemma exists_carry (h : hiddenBit ≤ r) (h' : r ≤ 2 * hiddenBit) (he : -1074 ≤ e) :
    ∃ m k, k ≤ 1 ∧ (shiftToTargetExponent .binary64 r e .exact).1.mantissa = m ∧
      (shiftToTargetExponent .binary64 r e .exact).2 = e + (k : Nat) ∧
      m * Nat.pow 2 k = r ∧ hiddenBit ≤ m ∧ m < 2 * hiddenBit := by
  rcases Nat.lt_or_eq_of_le h' with hlt | rfl
  · refine ⟨r, 0, Nat.zero_le _, ?_, ?_, Nat.mul_one r, h, hlt⟩
    · rw [shift_of_lt h hlt he]
      rfl
    · rw [shift_of_lt h hlt he]
      exact (Int.add_zero e).symm
  · have hshift : shiftToTargetExponent .binary64 (2 * hiddenBit) e .exact = _ :=
      shift_of_le (Nat.le_refl _) (by decide) he
    refine ⟨hiddenBit, 1, Nat.le_refl _, ?_, ?_, rfl, Nat.le_refl _, by decide⟩
    · rw [hshift]
      rfl
    · rw [hshift]
      rfl

/-- What rounding gives, in its own last place: off by at most one, and by one downwards only if
nothing is left over. -/
structure Near (q : Nat) (acc : Accuracy) (value : Nat) : Prop where
  le : value ≤ q + 1
  ge : q ≤ value + 1
  exact : q = value + 1 → acc = .exact

/-- Rounding adds at most one. -/
lemma round_bounds (q : Nat) (acc : Accuracy) :
    q ≤ (ExtendedMantissa.ofMantissaAndAccuracy q acc).roundedMantissa ∧
      (ExtendedMantissa.ofMantissaAndAccuracy q acc).roundedMantissa ≤ q + 1 := by
  cases acc with
  | exact => exact ⟨Nat.le_refl q, Nat.le_succ q⟩
  | inexact order =>
    cases order with
    | lt => exact ⟨Nat.le_refl q, Nat.le_succ q⟩
    | eq =>
      change q ≤ q + q % 2 ∧ q + q % 2 ≤ q + 1
      omega
    | gt => exact ⟨Nat.le_succ q, Nat.le_refl _⟩

/-- Rounding after a shift is near. -/
lemma near_round_shift :
    Near q acc
      ((ExtendedMantissa.ofMantissaAndAccuracy q acc).shiftRightOne.roundedMantissa * 2) := by
  -- the bit that is shifted out decides, and with it whether anything was left over before
  rcases Nat.mod_two_eq_zero_or_one q with hbit | hbit
  · have hround :
        (ExtendedMantissa.ofMantissaAndAccuracy q acc).shiftRightOne.roundedMantissa = q / 2 := by
      cases acc with
      | exact => simp [ExtendedMantissa.ofMantissaAndAccuracy, ExtendedMantissa.shiftRightOne,
          ExtendedMantissa.roundedMantissa, ExtendedMantissa.accuracy,
          Accuracy.roundToNearestEven, hbit]
      | inexact order =>
        cases order <;> simp [ExtendedMantissa.ofMantissaAndAccuracy,
          ExtendedMantissa.shiftRightOne,
          ExtendedMantissa.roundedMantissa, ExtendedMantissa.accuracy,
          Accuracy.roundToNearestEven, hbit]
    rw [hround]
    exact ⟨by omega, by omega, by omega⟩
  · cases acc with
    | exact =>
      have hround :
          (ExtendedMantissa.ofMantissaAndAccuracy q .exact).shiftRightOne.roundedMantissa =
            q / 2 + q / 2 % 2 := by
        simp [ExtendedMantissa.ofMantissaAndAccuracy, ExtendedMantissa.shiftRightOne,
          ExtendedMantissa.roundedMantissa, ExtendedMantissa.accuracy,
          Accuracy.roundToNearestEven, hbit]
      rw [hround]
      exact ⟨by omega, by omega, fun _ => rfl⟩
    | inexact order =>
      have hround :
          (ExtendedMantissa.ofMantissaAndAccuracy q
            (.inexact order)).shiftRightOne.roundedMantissa = q / 2 + 1 := by
        cases order <;> simp [ExtendedMantissa.ofMantissaAndAccuracy,
          ExtendedMantissa.shiftRightOne,
          ExtendedMantissa.roundedMantissa, ExtendedMantissa.accuracy,
          Accuracy.roundToNearestEven, hbit]
      rw [hround]
      exact ⟨by omega, by omega, by omega⟩

/-- A significand is shifted by at most one bit. -/
lemma exists_shift (h : hiddenBit ≤ q) (h' : q < 4 * hiddenBit) (he : -1074 ≤ e) :
    ∃ em k, shiftToTargetExponent .binary64 q e acc = (em, e + (k : Nat)) ∧
    k ≤ 1 ∧ hiddenBit ≤ em.roundedMantissa ∧
      em.roundedMantissa ≤ 2 * hiddenBit ∧ Near q acc (em.roundedMantissa * Nat.pow 2 k) := by
  rcases Nat.lt_or_ge q (2 * hiddenBit) with hlt | hge
  · obtain ⟨hlow, hhigh⟩ := round_bounds q acc
    refine ⟨_, 0, ?_, Nat.zero_le _, Nat.le_trans h hlow, by omega, ?_⟩
    · rw [shift_of_lt h hlt he]
      exact Prod.ext rfl (Int.add_zero e).symm
    · rw [show Nat.pow 2 0 = 1 from rfl, Nat.mul_one]
      exact ⟨hhigh, by omega, by omega⟩
  · have hnear :
        Near q acc
          ((ExtendedMantissa.ofMantissaAndAccuracy q acc).shiftRightOne.roundedMantissa * 2) :=
      near_round_shift
    have hle := hnear.le
    have hgt := hnear.ge
    exact ⟨_, 1, shift_of_le hge h' he, Nat.le_refl _, by omega, by omega, hnear⟩

/-- Rounding gives a finite number nearby. -/
lemma exists_roundWithAccuracy (sign : Sign) (acc : Accuracy) (h : hiddenBit ≤ q)
    (h' : q < 4 * hiddenBit) (he : -1074 ≤ e) :
    ∃ m k hm, roundWithAccuracy .binary64 sign q e acc = .finite sign m (e + (k : Nat)) hm ∧
    k ≤ 2 ∧ hiddenBit ≤ m ∧ m < 2 * hiddenBit ∧ Near q acc (m * Nat.pow 2 k) := by
  obtain ⟨em, k, hshift, hk, hlow, hhigh, hnear⟩ := exists_shift h h' he
  obtain ⟨m, k', hk', hmantissa, hexponent, hm, hlow', hhigh'⟩ :=
    exists_carry hlow hhigh (e := e + (k : Nat)) (by omega)
  have hpos : 0 < m := Nat.lt_of_lt_of_le (by decide) hlow'
  refine ⟨m, k + k', hpos, ?_, by omega, hlow', hhigh', ?_⟩
  · unfold roundWithAccuracy
    rw [hshift]
    dsimp only
    subst hmantissa
    rw [dif_neg (Nat.ne_of_gt hpos)]
    rw [hexponent, Int.add_assoc, Int.natCast_add]
  · rw [← hm, Nat.mul_assoc] at hnear
    rw [show Nat.pow 2 (k + k') = Nat.pow 2 k' *
      Nat.pow 2 k from (Nat.pow_add 2 k k').trans (Nat.mul_comm _ _)]
    exact hnear

lemma roundWithAccuracy_ne_notANumber {sign : Sign} :
    roundWithAccuracy .binary64 sign q e acc ≠ .notANumber := by
  intro hround
  unfold roundWithAccuracy at hround
  obtain ⟨hzero, hfinite⟩ := dite_eq_iff'.mp hround
  rcases Classical.em _ with h | h
  · cases hzero h
  · cases hfinite h

end Rounding

section Words

variable {x : Float} {m m' den : Nat} {e e' : Int} {h : 0 < m} {h' : 0 < m'}

/-- The word is made of its fields. -/
lemma toNat_packComponents {exponent : BitVec 11} {mantissa : BitVec 52} :
    (packComponents .binary64 .positive exponent mantissa).toNat =
      exponent.toNat * hiddenBit + mantissa.toNat := by
  have hsign : (Sign.positive.toBitVec ++ exponent).toNat = exponent.toNat := by
    rw [BitVec.toNat_append]
    change 0 <<< 11 ||| exponent.toNat = exponent.toNat
    rw [Nat.zero_shiftLeft, Nat.zero_or]
  unfold packComponents
  rw [BitVec.toNat_append]
  change (Sign.positive.toBitVec ++ exponent).toNat <<< 52 ||| mantissa.toNat = _
  rw [hsign, ← Nat.shiftLeft_add_eq_or_of_lt mantissa.isLt, Nat.shiftLeft_eq]
  rfl

/-- A significand of 53 bits is read back from its word. -/
lemma magnitude?_pack (hlow : hiddenBit ≤ m) (hhigh : m < 2 * hiddenBit)
    (he : -1074 ≤ e) (he' : e ≤ 971) (hx : x.toModel = Float.Model.pack (.finite .positive m e h)) :
    magnitude? x = some ⟨m, e⟩ := by
  have hpack : UnpackedFloat.pack .binary64 (.finite .positive m e h) =
      packComponents .binary64 .positive (BitVec.ofNat 11 (e + 1075).toNat)
      (BitVec.ofNat 52 m) := by
    have hbias :
      (e + (Format.exponentBias .binary64 : Nat) +
        (Format.binary64.mantissaBitsWithoutImplicit : Nat)).toNat =
        (e + 1075).toNat := congrArg Int.toNat (Int.add_assoc e 1023 52)
    unfold UnpackedFloat.pack
    dsimp only
    rw [hbias, if_neg, if_pos]
    · rw [log2_eq_52 hlow hhigh]
      rfl
    · change ¬ 2048 ≤ _
      omega
  have hword : magnitudeWord x = (e + 1075).toNat * hiddenBit + (m - hiddenBit) := by
    unfold magnitudeWord
    change x.toModel.toBits.toNat % signBit = _
    rw [hx]
    change (UnpackedFloat.pack .binary64 (.finite .positive m e h)).toNat % signBit = _
    rw [hpack, toNat_packComponents, BitVec.toNat_ofNat, BitVec.toNat_ofNat]
    unfold hiddenBit at hlow hhigh ⊢
    unfold signBit
    omega
  have hfield : magnitudeWord x / hiddenBit = (e + 1075).toNat := by
    rw [hword]
    unfold hiddenBit at hlow hhigh ⊢
    omega
  have hfraction : hiddenBit + magnitudeWord x % hiddenBit = m := by
    rw [hword]
    unfold hiddenBit at hlow hhigh ⊢
    omega
  have hfinite : magnitudeWord x < infinityWord := by
    rw [hword, infinityWord]
    unfold hiddenBit at hlow hhigh ⊢
    omega
  unfold magnitude? scaledOfWord
  rw [if_pos hfinite]
  dsimp only
  rw [hfraction, hfield, if_neg (by omega)]
  have hexponent : (((e + 1075).toNat : Nat) : Int) - 1075 = e := by omega
  rw [hexponent]

/-- What a double between one and 2 ^ 32 - 1 is unpacked to. -/
structure Moderate (x : Float) (m : Nat) (e : Int) : Prop where
  unpack : ∃ h, x.toModel.unpack = .finite .positive m e h
  low : hiddenBit ≤ m
  high : m < 2 * hiddenBit
  exponent_ge : -52 ≤ e
  exponent_le : e ≤ -21
  top : e = -21 → m ≤ 9007199252643840

lemma moderate_one : Moderate 1 4503599627370496 (-52) :=
  ⟨⟨by decide, rfl⟩, by decide, by decide, by decide, by decide, by decide⟩

lemma moderate_top : Moderate 4294967295 9007199252643840 (-21) :=
  ⟨⟨by decide, rfl⟩, by decide, by decide, by decide, by decide, by decide⟩

/-- How large unit and significand can be. -/
lemma Moderate.unit_bounds (hx : Moderate x m e) :
    2097152 ≤ Nat.pow 2 (-e).toNat ∧ Nat.pow 2 (-e).toNat ≤ m ∧
    m ≤ 4294967295 * Nat.pow 2 (-e).toNat := by
  have hge := hx.exponent_ge
  have hle := hx.exponent_le
  have hlow : Nat.pow 2 21 ≤ Nat.pow 2 (-e).toNat := Nat.pow_le_pow_right (by decide) (by omega)
  have hhigh : Nat.pow 2 (-e).toNat ≤ Nat.pow 2 52 := Nat.pow_le_pow_right (by decide) (by omega)
  refine ⟨hlow, Nat.le_trans hhigh hx.low, ?_⟩
  have hm := hx.high
  by_cases htop : e = -21
  · have hm' := hx.top htop
    subst htop
    exact hm'
  · have hunit : Nat.pow 2 22 ≤ Nat.pow 2 (-e).toNat := Nat.pow_le_pow_right (by decide) (by omega)
    change 4194304 ≤ _ at hunit
    unfold hiddenBit at hm
    omega

/-- A finite double has 53 bits, or the least exponent. -/
lemma finite_of_unpack {b : BitVec Format.binary64.numBits} {sign : Sign}
    (hb : UnpackedFloat.unpack .binary64 b = .finite sign m e h) :
    e = -1074 ∨ hiddenBit ≤ m ∧ m < 2 * hiddenBit := by
  unfold UnpackedFloat.unpack at hb
  dsimp only at hb
  by_cases hlast : unpackExponent b = -1#11
  · rw [if_pos hlast] at hb
    by_cases hmantissa : unpackMantissa b = 0#52
    · rw [if_pos hmantissa] at hb
      cases hb
    · rw [if_neg hmantissa] at hb
      cases hb
  rw [if_neg hlast] at hb
  by_cases hzero : unpackExponent b = 0#11
  · rw [if_pos hzero] at hb
    by_cases hmantissa : unpackMantissa b = 0#52
    · rw [dif_pos hmantissa] at hb
      cases hb
    · rw [dif_neg hmantissa] at hb
      obtain ⟨_, _, rfl⟩ := UnpackedFloat.finite.inj hb
      rw [hzero]
      exact .inl rfl
  · rw [if_neg hzero] at hb
    obtain ⟨_, rfl, _⟩ := UnpackedFloat.finite.inj hb
    have hfraction : (unpackMantissa b).toNat < 4503599627370496 := (unpackMantissa b).isLt
    have hmantissa :
        (1#1 ++ unpackMantissa b).toNat = 4503599627370496 + (unpackMantissa b).toNat := by
      rw [BitVec.toNat_append, ← Nat.shiftLeft_add_eq_or_of_lt (unpackMantissa b).isLt]
      rfl
    rw [hmantissa]
    unfold hiddenBit
    omega

lemma lt_iff {x y : Float} : x < y ↔ x.toModel.unpack.lt y.toModel.unpack = true :=
  decide_eq_true_iff

lemma unpack_one :
    (1 : Float).toModel.unpack = .finite .positive 4503599627370496 (-52) (by decide) := by rfl

lemma unpack_top : (4294967295 : Float).toModel.unpack =
    .finite .positive 9007199252643840 (-21) (by decide) := by rfl

lemma lt_positive : UnpackedFloat.lt (.finite .positive m e h) (.finite .positive m' e' h') =
      (some ((compare e e').then (compare m m')) == some .lt) := rfl

lemma exponent_ge_of_not_lt (hx : x.toModel.unpack = .finite .positive m e h) (hlow : ¬ x < 1) :
    -52 ≤ e := by
  rw [lt_iff, hx, unpack_one] at hlow
  refine Int.not_lt.mp fun hlt => hlow ?_
  rw [lt_positive, Int.compare_eq_lt.mpr hlt]
  rfl

/-- Below the upper bound, exponents are small. -/
lemma exponent_le_of_not_lt (hx : x.toModel.unpack = .finite .positive m e h)
    (hhigh : ¬ 4294967295 < x) :
    e ≤ -21 ∧ (e = -21 → m ≤ 9007199252643840) := by
  rw [lt_iff, hx, unpack_top] at hhigh
  constructor
  · refine Int.not_lt.mp fun hlt => hhigh ?_
    rw [lt_positive, Int.compare_eq_lt.mpr hlt]
    rfl
  · rintro rfl
    refine Nat.not_lt.mp fun hlt => hhigh ?_
    rw [lt_positive, Int.compare_eq_eq.mpr rfl, Nat.compare_eq_lt.mpr hlt]
    rfl

/-- A number within the bounds is moderate. -/
lemma exists_moderate (hx : IsNumber x) (hlow : ¬ x < 1) (hhigh : ¬ 4294967295 < x) :
    ∃ m e, Moderate x m e := by
  cases hu : x.toModel.unpack with
  | notANumber => exact absurd hu hx
  | zero sign =>
    refine absurd ?_ hlow
    rw [lt_iff, hu, unpack_one]
    rfl
  | infinity sign =>
    cases sign with
    | positive =>
      refine absurd ?_ hhigh
      rw [lt_iff, hu, unpack_top]
      rfl
    | negative =>
      refine absurd ?_ hlow
      rw [lt_iff, hu, unpack_one]
      rfl
  | finite sign m e h =>
    cases sign with
    | negative =>
      refine absurd ?_ hlow
      rw [lt_iff, hu, unpack_one]
      rfl
    | positive =>
      have hge := exponent_ge_of_not_lt hu hlow
      obtain ⟨hle, htop⟩ := exponent_le_of_not_lt hu hhigh
      rcases finite_of_unpack hu with hleast | ⟨hm, hm'⟩
      · omega
      · exact ⟨m, e, ⟨h, hu⟩, hm, hm', hge, hle, htop⟩

lemma unpack_thousand :
    (1000 : Float).toModel.unpack = .finite .positive 8796093022208000 (-43) (by decide) := by rfl

lemma div_positive :
    UnpackedFloat.div .binary64 (.finite .positive m e h) (.finite .positive m' e' h') =
      let (q, e, acc) := divCore .binary64 m e m' e'
      roundWithAccuracy .binary64 .positive q e acc := rfl

lemma eq_zero_of_accuracy {num : Nat} (hacc : accuracyOfFraction num den = .exact) : num = 0 := by
  unfold accuracyOfFraction at hacc
  split at hacc
  · assumption
  · cases hacc

lemma divCore_thousand (hlow : hiddenBit ≤ m) (hhigh : m < 2 * hiddenBit) (he : -1064 ≤ e) :
    divCore .binary64 m e 8796093022208000 (-43) = (m * 9007199254740992 / 8796093022208000, e - 10,
      accuracyOfFraction (m * 9007199254740992 % 8796093022208000) 8796093022208000) := by
  have htarget : min (e - -43) (Format.binary64.targetExponent
      (totalExponent m e - totalExponent 8796093022208000 (-43))) = e - 10 := by
    change min (e - -43) (max ((m.log2 : Int) + 1 + e - 10 - 53) (-1074)) = e - 10
    rw [log2_eq_52 hlow hhigh]
    omega
  have hshift : (e - -43 - (e - 10)).toNat = 53 := by omega
  unfold divCore
  simp only [htarget, hshift, Nat.shiftLeft_eq]

/-- The quotient by a thousand is off by at most one unit. -/
lemma magnitude?_div_thousand (hx : Moderate x m e) :
    ∃ n k, magnitude? (x / 1000) = some ⟨n, e - 10 + (k : Nat)⟩ ∧ k ≤ 2 ∧
      n * Nat.pow 2 k * 1000 ≤ m * 1024 + 1000 ∧ m * 1024 ≤ n * Nat.pow 2 k * 1000 + 1000 := by
  obtain ⟨⟨_, hunpack⟩, hlow, hhigh, hge, hle, _⟩ := hx
  have hcore := divCore_thousand hlow hhigh (show -1064 ≤ e by omega)
  generalize hq : m * 9007199254740992 / 8796093022208000 = q at hcore
  have hq' : hiddenBit ≤ q ∧ q < 4 * hiddenBit := by
    unfold hiddenBit at hlow hhigh ⊢
    omega
  obtain ⟨n, k, hn, hround, hk, hlow', hhigh', hnear⟩ := exists_roundWithAccuracy .positive
    (accuracyOfFraction (m * 9007199254740992 % 8796093022208000) 8796093022208000) hq'.1 hq'.2
    (show -1074 ≤ e - 10 by omega)
  have hdiv :
      (x / 1000).toModel = Float.Model.pack (.finite .positive n (e - 10 + (k : Nat)) hn) := by
    change Float.Model.pack
      (UnpackedFloat.div .binary64 x.toModel.unpack (1000 : Float).toModel.unpack) = _
    rw [hunpack, unpack_thousand, div_positive, hcore]
    exact congrArg _ hround
  refine ⟨n, k, magnitude?_pack hlow' hhigh' (by omega) (by omega) hdiv, hk, ?_, ?_⟩
  · have := hnear.le
    omega
  · have hge := hnear.ge
    have hexact : q = n * Nat.pow 2 k + 1 → m * 9007199254740992 % 8796093022208000 = 0 :=
      fun h => eq_zero_of_accuracy (hnear.exact h)
    omega

lemma roundQuotient_bounds (num : Nat) (hden : 0 < den) :
    2 * (roundQuotient num den * den) ≤ 2 * num + den ∧
    2 * num ≤ 2 * (roundQuotient num den * den) + den := by
  have hnum := Nat.div_add_mod' num den
  have hmod := Nat.mod_lt num hden
  unfold roundQuotient
  dsimp only
  split
  · omega
  · rw [Nat.add_mul, Nat.one_mul]
    omega

end Words

end Decimal

namespace Schedule

open Decimal Float.Model

variable {s : Schedule}

/-- A positive interval has milliseconds that are a number. -/
lemma isNumber_milliseconds (h : 0 < s.interval) : IsNumber s.milliseconds := by
  rw [lt_iff, unpack_zero] at h
  have hunit : ∃ m e hm, s.unit.inMilliseconds.toModel.unpack = .finite .positive m e hm := by
    cases s.unit with
    | seconds => exact ⟨_, _, _, unpack_thousand⟩
    | milliseconds => exact ⟨_, _, _, unpack_one⟩
  obtain ⟨m, e, hm, hunit⟩ := hunit
  refine unpack_pack_ne_notANumber ?_
  rw [hunit]
  cases hinterval : s.interval.toModel.unpack with
  | notANumber =>
    rw [hinterval] at h
    cases h
  | infinity | zero => rintro ⟨⟩
  | finite sign m' e' hm' => exact roundWithAccuracy_ne_notANumber

lemma exists_moderate (h : 0 < s.interval) : ∃ m e, Moderate s.boundedMilliseconds m e := by
  unfold boundedMilliseconds
  dsimp only
  split
  · exact ⟨_, _, moderate_one⟩
  · split
    · exact ⟨_, _, moderate_top⟩
    · exact Decimal.exists_moderate (isNumber_milliseconds h) ‹_› ‹_›

/-- **The period of a timer** is between one and 2 ^ 32 - 1 milliseconds. -/
lemma period_bounds (h : 0 < s.interval) :
    nanosPerMilli ≤ s.period ∧ s.period ≤ 4294967295 * nanosPerMilli := by
  obtain ⟨m, e, hx⟩ := exists_moderate h
  obtain ⟨n, k, hmagnitude, hk, hlow, hhigh⟩ := magnitude?_div_thousand hx
  have hge := hx.exponent_ge
  have hle := hx.exponent_le
  have hperiod :
      s.period = roundQuotient (n * 1000000000) (Nat.pow 2 (-(e - 10 + (k : Nat))).toNat) := by
    have hzero : (e - 10 + (k : Nat)).toNat = 0 := by omega
    unfold period
    rw [hmagnitude]
    simp only [Scaled.ratio, hzero]
    rw [show Nat.pow 2 0 = 1 from rfl, Nat.mul_one]
  have hpos : 0 < Nat.pow 2 (-(e - 10 + (k : Nat))).toNat := Nat.two_pow_pos _
  -- one second, counted in the last place of the milliseconds
  have hscale :
      Nat.pow 2 (-(e - 10 + (k : Nat))).toNat * Nat.pow 2 k = Nat.pow 2 (-e).toNat * 1024 := by
    have hsum : (-(e - 10 + (k : Nat))).toNat + k = (-e).toNat + 10 := by omega
    calc Nat.pow 2 (-(e - 10 + (k : Nat))).toNat * Nat.pow 2 k
      _ = Nat.pow 2 ((-(e - 10 + (k : Nat))).toNat + k) := (Nat.pow_add 2 _ _).symm
      _ = Nat.pow 2 ((-e).toNat + 10) := by rw [hsum]
      _ = Nat.pow 2 (-e).toNat * 1024 := Nat.pow_add 2 _ _
  obtain ⟨hone, hleast, hgreatest⟩ := hx.unit_bounds
  obtain ⟨habove, hbelow⟩ := roundQuotient_bounds (n * 1000000000) hpos
  rw [← hperiod] at habove hbelow
  generalize Nat.pow 2 (-(e - 10 + (k : Nat))).toNat = places at habove hbelow hscale
  generalize Nat.pow 2 (-e).toNat = unit at hone hleast hgreatest hscale
  generalize s.period = period at habove hbelow ⊢
  -- both bounds of the rounding, counted in the last place of the milliseconds
  have hcount : period * unit * 1024 = period * places * Nat.pow 2 k := by
    rw [Nat.mul_assoc, ← hscale, ← Nat.mul_assoc]
  have hcount' : n * Nat.pow 2 k * 1000000000 = n * 1000000000 * Nat.pow 2 k :=
    Nat.mul_right_comm _ _ _
  have habove' := Nat.mul_le_mul_right (Nat.pow 2 k) habove
  have hbelow' := Nat.mul_le_mul_right (Nat.pow 2 k) hbelow
  rw [Nat.add_mul, Nat.mul_assoc, Nat.mul_assoc 2, hscale, ← hcount, ← hcount'] at habove' hbelow'
  generalize n * Nat.pow 2 k = quotient at hlow hhigh habove' hbelow'
  unfold nanosPerMilli
  constructor
  · refine Nat.not_lt.mp fun hlt => ?_
    have hmul : period * unit ≤ 999999 * unit := Nat.mul_le_mul_right _ (Nat.le_of_lt_succ hlt)
    omega
  · refine Nat.not_lt.mp fun hlt => ?_
    have hmul : 4294967295000001 * unit ≤ period * unit := Nat.mul_le_mul_right _ hlt
    omega

end Schedule

end Colloquy
