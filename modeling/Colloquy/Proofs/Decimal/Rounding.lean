import Colloquy.Decimal.Numeral
import Colloquy.Decimal.Shortest
import Mathlib

/-!
# The decimals that round to a double

Every ratio in the interval around the magnitude of a double is rounded to that double
(`nearestWord_of_around`), and so is its shortest decimal, because the finest grid has a point in
every interval (`Scaled.Canonical.shortest_contains`).
-/

namespace Colloquy.Decimal

open Scaled

section Powers

variable {num den : Nat} {e : Int}

lemma zpow_eq_div {b : ℚ} : b ^ e = b ^ e.toNat / b ^ (-e).toNat := by
  obtain ⟨n, rfl | rfl⟩ := e.eq_nat_or_neg
  · simp
  · simp

lemma two_zpow_lt_iff {a b : Int} : (2 : ℚ) ^ a < 2 ^ b ↔ a < b :=
  zpow_lt_zpow_iff_right₀ one_lt_two

lemma scaleDown_div :
    ((scaleDown num den e).1 : ℚ) / (scaleDown num den e).2 = num / den / 2 ^ e := by
  rw [zpow_eq_div]
  change ((num * 2 ^ (-e).toNat : ℕ) : ℚ) / (den * 2 ^ e.toNat : ℕ) = _
  push_cast
  field_simp

lemma scaleDown_pos (hden : 0 < den) : 0 < (scaleDown num den e).2 :=
  Nat.mul_pos hden (Nat.pow_pos Nat.two_pos)

lemma log2_bounds (hnum : 0 < num) :
    (2 : ℚ) ^ (num.log2 : Int) ≤ num ∧ (num : ℚ) < 2 ^ ((num.log2 : Int) + 1) := by
  constructor
  · exact_mod_cast Nat.log2_self_le (Nat.ne_of_gt hnum)
  · exact_mod_cast Nat.lt_log2_self

end Powers

section Nearest

variable {num den r : Nat}

/-- The exponent of a ratio puts 53 bits before the point, unless it is the least. -/
lemma exponentOf_spec (hnum : 0 < num) (hden : 0 < den) :
    ∃ e, exponentOf num den = max (-1074) e ∧ (2 : ℚ) ^ (e + 52) ≤ num / den ∧
    (num : ℚ) / den < 2 ^ (e + 53) := by
  obtain ⟨hnumLow, hnumHigh⟩ := log2_bounds hnum
  obtain ⟨hdenLow, hdenHigh⟩ := log2_bounds hden
  have hden' : (0 : ℚ) < den := by exact_mod_cast hden
  generalize hg : (num.log2 : Int) - den.log2 - 52 = g
  have hlow : (2 : ℚ) ^ (g + 51) ≤ num / den := by
    rw [le_div_iff₀ hden']
    calc (2 : ℚ) ^ (g + 51) * den ≤ 2 ^ (g + 51) * 2 ^ ((den.log2 : Int) + 1) := by gcongr
      _ = 2 ^ (num.log2 : Int) := by rw [← zpow_add₀ two_ne_zero]; congr 1; omega
      _ ≤ num := hnumLow
  have hhigh : (num : ℚ) / den < 2 ^ (g + 53) := by
    rw [div_lt_iff₀ hden']
    calc (num : ℚ) < 2 ^ ((num.log2 : Int) + 1) := hnumHigh
      _ = 2 ^ (g + 53) * 2 ^ (den.log2 : Int) := by rw [← zpow_add₀ two_ne_zero]; congr 1; omega
      _ ≤ 2 ^ (g + 53) * den := by gcongr
  have hcompare : (scaleDown num den g).1 < hiddenBit * (scaleDown num den g).2 ↔
      (num : ℚ) / den < 2 ^ (g + 52) := by
    rw [add_comm, zpow_add₀ two_ne_zero, ← div_lt_iff₀ (by positivity), ← scaleDown_div,
      div_lt_iff₀ (by exact_mod_cast scaleDown_pos hden)]
    exact_mod_cast Iff.rfl
  unfold exponentOf
  rw [hg]
  dsimp only
  split
  next h => exact ⟨g - 1, rfl, by ring_nf at hlow ⊢; exact hlow,
    by have := hcompare.mp h; ring_nf at this ⊢; exact this⟩
  next h => exact ⟨g, rfl, not_lt.mp (mt hcompare.mpr h), hhigh⟩

/-- A ratio within one half of an integer is rounded to it, at one half only if it is even. -/
lemma roundQuotient_eq (hden : 0 < den) (hlow : (r : ℚ) - 1 / 2 ≤ num / den)
    (hhigh : (num : ℚ) / den ≤ r + 1 / 2) (htie : r % 2 = 1 →
      (r : ℚ) - 1 / 2 < num / den ∧ (num : ℚ) / den < r + 1 / 2) : roundQuotient num den = r := by
  have hden' : (0 : ℚ) < den := by exact_mod_cast hden
  have hsplit : (num : ℚ) / den = (num / den : ℕ) + (num % den : ℕ) / (den : ℚ) := by
    rw [add_div' _ _ _ hden'.ne']
    exact_mod_cast congrArg (fun n : ℕ => (n : ℚ) / den) (Nat.div_add_mod' num den).symm
  have hrem : ((num % den : ℕ) : ℚ) / den < 1 :=
    (div_lt_one hden').mpr (by exact_mod_cast Nat.mod_lt num hden)
  have hrem' : 0 ≤ ((num % den : ℕ) : ℚ) / den := by positivity
  have hlt : 2 * (num % den) < den ↔ ((num % den : ℕ) : ℚ) / den < 1 / 2 := by
    rw [div_lt_div_iff₀ hden' two_pos, one_mul, mul_comm]
    exact_mod_cast Iff.rfl
  have heq : 2 * (num % den) = den ↔ ((num % den : ℕ) : ℚ) / den = 1 / 2 := by
    rw [div_eq_div_iff hden'.ne' two_ne_zero, one_mul, mul_comm]
    exact_mod_cast Iff.rfl
  unfold roundQuotient
  dsimp only
  rw [hsplit] at hlow hhigh htie
  simp only [hlt, heq]
  generalize ((num % den : ℕ) : ℚ) / den = f at *
  generalize num / den = q at *
  have hle : q ≤ r := by
    have : (q : ℚ) < r + 1 := by linarith
    exact Nat.lt_succ_iff.mp (by exact_mod_cast this)
  have hge : r ≤ q + 1 := by
    have : (r : ℚ) < q + 1 + 1 := by linarith
    exact Nat.lt_succ_iff.mp (by exact_mod_cast this)
  obtain rfl | rfl : r = q ∨ r = q + 1 := by omega
  · rw [if_pos]
    rcases lt_or_eq_of_le (show f ≤ 1 / 2 by linarith) with h | h
    · exact .inl h
    · refine .inr ⟨h, (Nat.mod_two_eq_zero_or_one r).resolve_right fun hodd => ?_⟩
      linarith [(htie hodd).2]
  · push_cast at hlow htie
    rw [if_neg]
    rintro (h | ⟨h, heven⟩)
    · linarith
    · linarith [(htie (by omega)).1]

end Nearest

/-- A positive magnitude of doubles: 53 bits, or fewer at the least exponent. -/
structure Scaled.Canonical (x : Scaled) : Prop where
  pos : 0 < x.significand
  lt : x.significand < 2 * hiddenBit
  least : -1074 ≤ x.exponent
  greatest : x.exponent ≤ 971
  normal : -1074 < x.exponent → hiddenBit ≤ x.significand

/-- The word of a magnitude. -/
def Scaled.word (x : Scaled) : Nat := (x.exponent + 1074).toNat * hiddenBit + x.significand

/-- A number in quarters of the last place of a magnitude. -/
def Scaled.quarters (x : Scaled) (q : ℚ) : ℚ := q / 2 ^ (x.exponent - 2)

/-- The numbers that round to a magnitude, in quarters of its last place. -/
structure Scaled.Around (x : Scaled) (q : ℚ) : Prop where
  low : 4 * (x.significand : ℚ) - 2 ≤ x.quarters q
  high : x.quarters q ≤ 4 * x.significand + 2
  tie : x.significand % 2 = 1 → 4 * (x.significand : ℚ) - 2 < x.quarters q ∧
  x.quarters q < 4 * x.significand + 2
  narrow : x.significand = hiddenBit → -1074 < x.exponent →
  4 * (x.significand : ℚ) - 1 ≤ x.quarters q

/-- A number lies in an interval. -/
def Interval.Contains (i : Interval) (q : ℚ) : Prop :=
  if i.closed then i.low ≤ q * i.unit ∧ q * i.unit ≤ i.high
  else i.low < q * i.unit ∧ q * i.unit < i.high

section Intervals

variable {x : Scaled} {q : ℚ} {num den : Nat}

/-- How far the interval reaches down, in quarters of the last place. -/
def Scaled.reach (x : Scaled) : Nat :=
  if x.significand = hiddenBit ∧ -1074 < x.exponent then 1 else 2

lemma Scaled.reach_le : x.reach ≤ 2 := by
  unfold reach
  split <;> decide

lemma Scaled.Canonical.low_eq (hx : x.Canonical) :
    (x.interval.low : ℚ) = (4 * x.significand - x.reach) * 2 ^ (x.exponent - 2).toNat := by
  have hpos := hx.pos
  have hreach := x.reach_le
  change (((4 * x.significand - x.reach) * 2 ^ (x.exponent - 2).toNat : ℕ) : ℚ) = _
  push_cast [show x.reach ≤ 4 * x.significand by omega]
  rfl

lemma Scaled.high_eq :
    (x.interval.high : ℚ) = (4 * x.significand + 2) * 2 ^ (x.exponent - 2).toNat := by
  exact_mod_cast rfl

/-- What the interval contains rounds to the magnitude. -/
lemma Scaled.Canonical.around (hx : x.Canonical) (h : x.interval.Contains q) : x.Around q := by
  have hup : (0 : ℚ) < 2 ^ (x.exponent - 2).toNat := by positivity
  have hreach : (x.reach : ℚ) ≤ 2 := by exact_mod_cast x.reach_le
  have hquarters : x.quarters q = q * 2 ^ (2 - x.exponent).toNat / 2 ^ (x.exponent - 2).toNat := by
    rw [quarters, zpow_eq_div, neg_sub, div_div_eq_mul_div]
  have hunit : (x.interval.unit : ℚ) = 2 ^ (2 - x.exponent).toNat := by exact_mod_cast rfl
  unfold Interval.Contains at h
  rw [hx.low_eq, high_eq, hunit] at h
  simp only [← le_div_iff₀ hup, ← div_le_iff₀ hup, ← lt_div_iff₀ hup,
    ← div_lt_iff₀ hup, ← hquarters] at h
  have hnarrow (hm : x.significand = hiddenBit) (he : -1074 < x.exponent) : (x.reach : ℚ) = 1 := by
    rw [reach, if_pos ⟨hm, he⟩, Nat.cast_one]
  split at h
  next heven =>
    have heven : x.significand % 2 = 0 := of_decide_eq_true heven
    refine ⟨by linarith, h.2, fun hodd => ?_, fun hm he => ?_⟩
    · cases heven.symm.trans hodd
    · linarith [hnarrow hm he]
  next =>
    refine ⟨by linarith, h.2.le, fun _ => ⟨by linarith, h.2⟩, fun hm he => ?_⟩
    linarith [hnarrow hm he]

lemma Scaled.quarters_mul : q = x.quarters q * 2 ^ (x.exponent - 2) := by
  rw [quarters, div_mul_cancel₀ _ (by positivity)]

/-- A ratio around a magnitude has its exponent, or the one below. -/
lemma exponentOf_of_around (hnum : 0 < num) (hden : 0 < den) (hx : x.Canonical)
    (h : x.Around (num / den)) :
    exponentOf num den = x.exponent ∨ exponentOf num den = x.exponent - 1 ∧ -1074 < x.exponent ∧
      x.significand = hiddenBit ∧ x.quarters (num / den) < 4 * hiddenBit := by
  obtain ⟨e0, hexponent, hlow, hhigh⟩ := exponentOf_spec hnum hden
  have hlt : (x.significand : ℚ) + 1 ≤ 2 * hiddenBit := by exact_mod_cast hx.lt
  have hbit : (hiddenBit : ℚ) = 2 ^ 52 := by norm_num [hiddenBit]
  have hv : (num : ℚ) / den = x.quarters (num / den) * 2 ^ (x.exponent - 2) := quarters_mul
  have hpower (k : Nat) : (2 : ℚ) ^ (x.exponent - 2 + k) = 2 ^ k * 2 ^ (x.exponent - 2) := by
    rw [add_comm, zpow_add₀ two_ne_zero, zpow_natCast]
  have habove (k : Nat) (hk : x.quarters (num / den) < 2 ^ k) : e0 + 54 < x.exponent + k := by
    have hpow : (2 : ℚ) ^ (e0 + 52) < 2 ^ (x.exponent - 2 + k) := by
      refine hlow.trans_lt ?_
      rw [hv, hpower]
      gcongr
    have := two_zpow_lt_iff.mp hpow
    omega
  have hbelow (k : Nat) (hk : 2 ^ k ≤ x.quarters (num / den)) : x.exponent + k < e0 + 55 := by
    have hpow : (2 : ℚ) ^ (x.exponent - 2 + k) < 2 ^ (e0 + 53) := by
      refine lt_of_le_of_lt ?_ hhigh
      rw [hv, hpower]
      gcongr
    have := two_zpow_lt_iff.mp hpow
    omega
  have hleast := hx.least
  have hle := habove 55 (by linarith [h.high])
  rcases le_or_gt (4 * hiddenBit : ℚ) (x.quarters (num / den)) with hcase | hcase
  · have := hbelow 54 (by linarith)
    left
    omega
  · have hless := habove 54 (by linarith)
    rcases hleast.eq_or_lt with he | he
    · left
      omega
    · have hm : x.significand = hiddenBit := by
        have : (x.significand : ℚ) < hiddenBit + 1 := by linarith [h.low]
        exact le_antisymm (Nat.lt_succ_iff.mp (by exact_mod_cast this)) (hx.normal he)
      have hnarrow := h.narrow hm he
      rw [hm] at hnarrow
      have := hbelow 53 (by linarith)
      exact .inr ⟨by omega, he, hm, hcase⟩

/-- A ratio around a magnitude is rounded to it. -/
lemma nearestWord_of_around (hnum : 0 < num) (hden : 0 < den) (hx : x.Canonical)
    (h : x.Around (num / den)) :
    nearestWord num den = x.word := by
  have hword : x.word ≤ infinityWord := by
    obtain ⟨_, hlt, hleast, hgreatest, _⟩ := hx
    unfold Scaled.word infinityWord
    unfold hiddenBit at hlt ⊢
    omega
  have hscaled (e : Int) : ((scaleDown num den e).1 : ℚ) / (scaleDown num den e).2 =
      x.quarters (num / den) * 2 ^ (x.exponent - 2 - e) := by
    rw [scaleDown_div, zpow_sub₀ two_ne_zero, ← mul_div_assoc, ← quarters_mul]
  unfold nearestWord
  dsimp only
  rw [← min_eq_right hword]
  refine congrArg (min infinityWord) ?_
  rcases exponentOf_of_around hnum hden hx h with he | ⟨he, hnormal, hm, hlt⟩
  · have hquarter := hscaled x.exponent
    rw [show x.exponent - 2 - x.exponent = -2 by ring,
      show (2 : ℚ) ^ (-2 : Int) = 1 / 4 by norm_num] at hquarter
    rw [he, Scaled.word, roundQuotient_eq (r := x.significand) (scaleDown_pos hden)]
    · linarith [h.low]
    · linarith [h.high]
    · intro hodd
      obtain ⟨hlow, hhigh⟩ := h.tie hodd
      constructor <;> linarith
  · -- a ratio just below a power of two is rounded up to it and carries
    have hhalf := hscaled (x.exponent - 1)
    rw [show x.exponent - 2 - (x.exponent - 1) = -1 by ring,
      show (2 : ℚ) ^ (-1 : Int) = 1 / 2 by norm_num] at hhalf
    have hnarrow := h.narrow hm hnormal
    rw [hm] at hnarrow
    rw [he, Scaled.word, hm, roundQuotient_eq (r := 2 * hiddenBit) (scaleDown_pos hden)]
    · unfold hiddenBit
      omega
    · push_cast
      linarith
    · push_cast
      linarith
    · exact fun hodd => absurd hodd (by decide)

end Intervals

/-- The number that digits and an exponent stand for. -/
def Digits.value (d : Digits) : ℚ := d.digits * 10 ^ d.exponent

section Grid

variable {i : Interval} {tie : Tie} {grid : Int} {k n num den : Nat} {x : Scaled}

lemma lt_pow_digitCount : n < 10 ^ digitCount n :=
  (Nat.length_toDigits_le_iff (by decide) Nat.length_toDigits_pos).mp (Nat.le_refl _)

lemma pow_digitCount_le (hn : 0 < n) : 10 ^ (digitCount n - 1) ≤ n := by
  by_contra hlt
  rcases Nat.eq_zero_or_pos (digitCount n - 1) with hone | hpos
  · rw [hone] at hlt
    omega
  · have := (Nat.length_toDigits_le_iff (by decide) hpos).mpr (Nat.lt_of_not_le hlt)
    unfold digitCount at this hpos
    omega

/-- The decade of a ratio is not above it. -/
lemma decade_le (hnum : 0 < num) (hden : 0 < den) : (10 : ℚ) ^ decade num den ≤ num / den := by
  have hden' : (0 : ℚ) < den := by exact_mod_cast hden
  unfold decade
  split
  next hle =>
    have hpos : 0 < num / den := Nat.div_pos hle hden
    have hcount : 0 < digitCount (num / den) := Nat.length_toDigits_pos
    rw [show (digitCount (num / den) : Int) - 1 = (digitCount (num / den) - 1 : ℕ) by omega,
      zpow_natCast]
    calc ((10 : ℚ) ^ (digitCount (num / den) - 1)) ≤ (num / den : ℕ) := by
          exact_mod_cast pow_digitCount_le hpos
      _ ≤ num / den := Nat.cast_div_le
  next hlt =>
    have hcount : den ≤ 10 ^ digitCount ((den - 1) / num) * num := by
      have := (Nat.div_lt_iff_lt_mul hnum).mp (lt_pow_digitCount (n := (den - 1) / num))
      omega
    rw [zpow_neg, zpow_natCast, inv_le_comm₀ (by positivity) (by positivity),
      inv_div, div_le_iff₀ (by exact_mod_cast hnum)]
    exact_mod_cast hcount

/-- Points are compared on natural numbers. -/
lemma Interval.contains_grid_iff : i.Contains (k * 10 ^ grid) ↔
    if i.closed then i.low * 10 ^ (-grid).toNat ≤ k * (i.unit * 10 ^ grid.toNat) ∧
        k * (i.unit * 10 ^ grid.toNat) ≤ i.high * 10 ^ (-grid).toNat
      else i.low * 10 ^ (-grid).toNat < k * (i.unit * 10 ^ grid.toNat) ∧
        k * (i.unit * 10 ^ grid.toNat) < i.high * 10 ^ (-grid).toNat := by
  have hpoint : (k : ℚ) * 10 ^ grid * i.unit =
      (k * (i.unit * 10 ^ grid.toNat) : ℕ) / (10 ^ (-grid).toNat : ℕ) := by
    rw [zpow_eq_div]
    push_cast
    ring
  have hscale : (0 : ℚ) < (10 ^ (-grid).toNat : ℕ) := by positivity
  unfold Contains
  rw [hpoint, le_div_iff₀ hscale, div_le_iff₀ hscale, lt_div_iff₀ hscale, div_lt_iff₀ hscale]
  norm_cast

/-- The centre lies inside an interval. -/
structure Interval.Proper (i : Interval) : Prop where
  unit : 0 < i.unit
  low : i.low < i.centre
  high : i.centre < i.high

/-- A point that is found lies in the interval. -/
lemma Interval.Proper.onGrid_contains (hi : i.Proper) (h : i.onGrid tie grid = some k) :
    i.Contains (k * 10 ^ grid) := by
  have hunit : 0 < i.unit * 10 ^ grid.toNat := Nat.mul_pos hi.unit (by positivity)
  have hlow := Nat.mul_lt_mul_of_pos_right hi.low (show 0 < 10 ^ (-grid).toNat by positivity)
  have hhigh := Nat.mul_lt_mul_of_pos_right hi.high (show 0 < 10 ^ (-grid).toNat by positivity)
  have hbelow := Nat.div_mul_le_self (i.centre * 10 ^ (-grid).toNat) (i.unit * 10 ^ grid.toNat)
  have habove :=
    (Nat.div_lt_iff_lt_mul hunit).mp (Nat.lt_add_one (i.centre * 10 ^ (-grid).toNat / _))
  rw [contains_grid_iff]
  unfold onGrid at h
  dsimp only [Nat.pow_eq] at h
  generalize i.centre * 10 ^ (-grid).toNat / (i.unit * 10 ^ grid.toNat) = below at *
  cases hclosed : i.closed
  all_goals
    simp only [hclosed, if_true, if_false, Bool.false_eq_true] at h ⊢
    split at h
    next hfits =>
      cases h
      omega
    next =>
      split at h
      next hfits =>
        cases h
        omega
      next => cases h

/-- An interval without a point is narrower than the grid. -/
lemma Interval.width_le (h : i.onGrid tie grid = none) :
    (i.high : ℚ) ≤ i.low + 10 ^ grid * i.unit := by
  have hwidth :
      i.high * 10 ^ (-grid).toNat ≤ i.low * 10 ^ (-grid).toNat + i.unit * 10 ^ grid.toNat := by
    unfold onGrid at h
    dsimp only [Nat.pow_eq] at h
    generalize i.centre * 10 ^ (-grid).toNat / (i.unit * 10 ^ grid.toNat) = below at *
    cases hclosed : i.closed
    all_goals
      simp only [hclosed, Nat.add_one_mul, if_true, if_false, Bool.false_eq_true] at h
      split at h
      next => cases h
      next =>
        split at h
        next => cases h
        next => omega
  rw [zpow_eq_div, div_mul_eq_mul_div, ← sub_le_iff_le_add',
    le_div_iff₀ (by positivity), sub_mul, sub_le_iff_le_add', mul_comm _ (i.unit : ℚ)]
  exact_mod_cast hwidth

/-- The search ends in the interval. -/
lemma Interval.Proper.search_contains (hi : i.Proper) (h : i.onGrid tie (grid - n) ≠ none) :
    i.Contains (i.search tie (n + 1) grid).value := by
  induction n generalizing grid with
  | zero =>
    unfold search
    split
    next hsome => exact hi.onGrid_contains hsome
    next hnone =>
      rw [Nat.cast_zero, sub_zero] at h
      exact absurd hnone h
  | succ n ih =>
    unfold search
    split
    next hsome => exact hi.onGrid_contains hsome
    next =>
      apply ih
      rw [sub_sub, add_comm 1]
      exact_mod_cast h

/-- Trimming zeros keeps the value. -/
lemma trimZeros_value {d : Digits} : (trimZeros n d).value = d.value := by
  induction n generalizing d with
  | zero => rfl
  | succ n ih =>
    unfold trimZeros
    split
    next hzero =>
      have hten : d.digits = d.digits / 10 * 10 := by omega
      rw [ih, Digits.value, Digits.value]
      conv_rhs => rw [hten]
      rw [zpow_add_one₀ (by norm_num)]
      push_cast
      ring
    next => rfl

lemma Scaled.Canonical.proper (hx : x.Canonical) : x.interval.Proper := by
  have hpos := hx.pos
  have hup : 0 < 2 ^ (x.exponent - 2).toNat := by positivity
  refine ⟨Nat.pow_pos Nat.two_pos, Nat.mul_lt_mul_of_pos_right ?_ hup,
    Nat.mul_lt_mul_of_pos_right ?_ hup⟩
  · split <;> omega
  · omega

/-- The shortest decimal rounds to its magnitude: the last grid is finer than the interval. -/
lemma Scaled.Canonical.shortest_contains (hx : x.Canonical) (tie : Tie) :
    x.interval.Contains (shortest tie x).value := by
  unfold shortest
  dsimp only
  rw [trimZeros_value]
  apply hx.proper.search_contains
  intro hnone
  have hwidth := Interval.width_le hnone
  have hdecade := decade_le (Nat.zero_lt_of_lt hx.proper.low) hx.proper.unit
  have hcentre : (x.interval.centre : ℚ) = 4 * x.significand * 2 ^ (x.exponent - 2).toNat := by
    exact_mod_cast rfl
  rw [le_div_iff₀ (by exact_mod_cast hx.proper.unit), hcentre] at hdecade
  rw [zpow_sub₀ (by norm_num), hx.low_eq, high_eq] at hwidth
  have hfine : (4 * x.significand : ℚ) < (2 + x.reach) * 10 ^ 16 := by
    have hlt := hx.lt
    unfold reach
    unfold hiddenBit at hlt
    split
    next hm =>
      rw [hm.1]
      norm_num [hiddenBit]
    next => exact_mod_cast show 4 * x.significand < (2 + 2) * 10 ^ 16 by omega
  have hup : (0 : ℚ) < 2 ^ (x.exponent - 2).toNat := by positivity
  have := mul_lt_mul_of_pos_right hfine hup
  norm_num at hwidth
  linarith

end Grid

section Reading

variable {x : Scaled} {n : Nat} {e : Int} {q : ℚ}

lemma ten_zpow_ge (he : 0 ≤ e) : (2 : ℚ) ^ (3 * e) ≤ 10 ^ e := by
  rw [zpow_mul]
  exact zpow_le_zpow_left₀ he (by norm_num) (by norm_num)

lemma ten_zpow_le (he : e ≤ 0) : (10 : ℚ) ^ e ≤ 2 ^ (3 * e) := by
  have hneg := ten_zpow_ge (neg_nonneg.mpr he)
  rw [mul_neg, zpow_neg, zpow_neg] at hneg
  exact (inv_le_inv₀ (by positivity) (by positivity)).mp hneg

/-- What rounds to a magnitude is within the range. -/
lemma Scaled.Around.range (hx : x.Canonical) (h : x.Around q) :
    (2 : ℚ) ^ (-1075 : Int) ≤ q ∧ q < 2 ^ (1024 : Int) := by
  have hpos : (1 : ℚ) ≤ x.significand := by exact_mod_cast hx.pos
  have hlt : (x.significand : ℚ) + 1 ≤ 2 * hiddenBit := by exact_mod_cast hx.lt
  have hbit : (hiddenBit : ℚ) = 2 ^ 52 := by norm_num [hiddenBit]
  have hleast := hx.least
  have hgreatest := hx.greatest
  rw [quarters_mul (x := x) (q := q)]
  constructor
  · calc (2 : ℚ) ^ (-1075 : Int) = 2 * 2 ^ (-1076 : Int) := by
          rw [← zpow_one_add₀ two_ne_zero]; norm_num
      _ ≤ x.quarters q * 2 ^ (x.exponent - 2) := by
        gcongr
        · linarith [h.low]
        · linarith [h.low]
        · exact one_le_two
        · omega
  · calc x.quarters q * 2 ^ (x.exponent - 2) < 2 ^ 55 * 2 ^ (x.exponent - 2) := by
          gcongr
          linarith [h.high]
      _ ≤ 2 ^ 55 * 2 ^ (969 : Int) := by
        gcongr
        · exact one_le_two
        · omega
      _ = 2 ^ (1024 : Int) := by rw [← zpow_natCast, ← zpow_add₀ two_ne_zero]; norm_num

/-- A decimal that rounds to a magnitude is read as it. -/
lemma Scaled.Around.ofDecimal (hx : x.Canonical) (h : x.Around (n * 10 ^ e)) :
    Decimal.ofDecimal n e = Float.ofBits (UInt64.ofNat x.word) := by
  obtain ⟨hlow, hhigh⟩ := h.range hx
  have hn : 0 < n := by
    apply Nat.pos_of_ne_zero
    rintro rfl
    rw [Nat.cast_zero, zero_mul] at hlow
    exact absurd hlow (not_le.mpr (by positivity))
  obtain ⟨hlog, hlog'⟩ := log2_bounds hn
  have hratio : ((n * 10 ^ e.toNat : ℕ) : ℚ) / (10 ^ (-e).toNat : ℕ) = n * 10 ^ e := by
    rw [zpow_eq_div (e := e)]
    push_cast
    ring
  unfold Decimal.ofDecimal
  dsimp only [Nat.pow_eq]
  rw [if_neg, if_neg]
  · have hnum : 0 < n * 10 ^ e.toNat := by positivity
    rw [nearest, if_neg hnum.ne', nearestWord_of_around hnum (by positivity) hx]
    rw [hratio]
    exact h
  · rintro ⟨he, hlarge⟩
    have hpow : (2 : ℚ) ^ ((n.log2 : Int) + 3 * e) < 2 ^ (1024 : Int) := by
      refine lt_of_le_of_lt ?_ hhigh
      rw [zpow_add₀ two_ne_zero]
      gcongr
      exact ten_zpow_ge he
    have := two_zpow_lt_iff.mp hpow
    omega
  · rintro (rfl | hsmall)
    · exact absurd hn (Nat.lt_irrefl 0)
    have hpow : (2 : ℚ) ^ (-1075 : Int) < 2 ^ ((n.log2 : Int) + 1 + 3 * e) := by
      refine hlow.trans_lt ?_
      rw [zpow_add₀ two_ne_zero]
      exact mul_lt_mul hlog' (ten_zpow_le (by omega)) (by positivity) (by positivity)
    have := two_zpow_lt_iff.mp hpow
    omega

end Reading

end Colloquy.Decimal
