import Colloquy.Proofs.Decimal.Rounding
import Colloquy.Value

/-!
# Numbers that are read back

A finite number that is shown and then read is the same number, and only finite numbers are ever
read. What is written is a numeral (`Numeral`) of the shortest decimal that rounds to the number
(`denotes_magnitude`).
-/

namespace Colloquy

open List

namespace Decimal

open Float.Model

section Words

variable {x : Float} {w : Nat}

lemma scaledOfWord_canonical (hpos : 0 < w) (hlt : w < infinityWord) :
    (scaledOfWord w).Canonical := by
  unfold infinityWord hiddenBit at hlt
  unfold scaledOfWord hiddenBit
  dsimp only
  split
  all_goals
    constructor <;> dsimp only [hiddenBit] <;> omega

lemma word_scaledOfWord : (scaledOfWord w).word = w := by
  unfold scaledOfWord Scaled.word hiddenBit
  dsimp only
  split <;> dsimp only <;> omega

/-- A finite number is below infinity. -/
lemma magnitudeWord_lt (h : x.isFinite = true) : magnitudeWord x < infinityWord := by
  by_contra hle
  have hfield : @UnpackedFloat.unpackExponent .binary64 x.toModel.toBits.toBitVec = -1#11 := by
    apply BitVec.eq_of_toNat_eq
    change (x.toModel.toBits.toNat >>> 52) % 2 ^ 11 = 2047
    change ¬ x.toModel.toBits.toNat % signBit < infinityWord at hle
    unfold signBit infinityWord hiddenBit at hle
    rw [Nat.shiftRight_eq_div_pow]
    omega
  change (UnpackedFloat.unpack .binary64 x.toModel.toBits.toBitVec).isFinite = true at h
  unfold UnpackedFloat.unpack at h
  dsimp only at h
  rw [if_pos hfield] at h
  split at h <;> cases h

lemma ofBits_magnitudeWord (h : isNegative x = false) :
    Float.ofBits (UInt64.ofNat (magnitudeWord x)) = x := by
  have hword : magnitudeWord x = x.toBits.toNat := by
    have hlt : x.toBits.toNat < 2 ^ 64 := x.toBits.toNat_lt
    have hsign : x.toBits.toNat / signBit ≠ 1 := ne_of_beq_false h
    unfold magnitudeWord
    unfold signBit at *
    omega
  rw [hword, UInt64.ofNat_toNat, Float.ofBits_toBits]

/-- A word with its sign bit set is the negative number. -/
lemma unpack_neg {b s : BitVec Format.binary64.numBits} (hs : s.toNat = signBit + b.toNat)
    (hlt : b.toNat < signBit) :
    UnpackedFloat.unpack .binary64 s = (UnpackedFloat.unpack .binary64 b).neg := by
  unfold signBit at hs hlt
  have hmantissa : UnpackedFloat.unpackMantissa s = UnpackedFloat.unpackMantissa b := by
    apply BitVec.eq_of_toNat_eq
    change (s.toNat >>> 0) % 2 ^ 52 = (b.toNat >>> 0) % 2 ^ 52
    rw [Nat.shiftRight_zero, Nat.shiftRight_zero]
    omega
  have hexponent : UnpackedFloat.unpackExponent s = UnpackedFloat.unpackExponent b := by
    apply BitVec.eq_of_toNat_eq
    change (s.toNat >>> 52) % 2 ^ 11 = (b.toNat >>> 52) % 2 ^ 11
    rw [Nat.shiftRight_eq_div_pow, Nat.shiftRight_eq_div_pow]
    omega
  have hsign : UnpackedFloat.unpackSign b = 0#1 ∧ UnpackedFloat.unpackSign s = 1#1 := by
    constructor
    all_goals
      apply BitVec.eq_of_toNat_eq
      change (_ >>> 63) % 2 ^ 1 = _
      rw [Nat.shiftRight_eq_div_pow]
      simp only [BitVec.toNat_ofNat]
      omega
  unfold UnpackedFloat.unpack
  dsimp only
  simp only [hmantissa, hexponent, hsign.1, hsign.2]
  split
  · split <;> rfl
  · split
    · split <;> rfl
    · rfl

/-- A negative number is minus its magnitude. -/
lemma neg_ofBits_magnitudeWord (hx : x.isFinite = true) (h : isNegative x = true) :
    -Float.ofBits (UInt64.ofNat (magnitudeWord x)) = x := by
  have hfinite := magnitudeWord_lt hx
  have hword : x.toBits.toNat = signBit + magnitudeWord x := by
    have hlt : x.toBits.toNat < 2 ^ 64 := x.toBits.toNat_lt
    have hsign : x.toBits.toNat / signBit = 1 := eq_of_beq h
    unfold magnitudeWord
    unfold signBit at *
    omega
  generalize magnitudeWord x = w at *
  unfold infinityWord hiddenBit at hfinite
  have htoNat : (UInt64.ofNat w).toBitVec.toNat = w :=
    UInt64.toNat_ofNat_of_lt' (by change w < 2 ^ 64; omega)
  have hnan : ¬ @UnpackedFloat.isNaNBits .binary64 (UInt64.ofNat w).toBitVec = true := by
    unfold UnpackedFloat.isNaNBits
    rw [decide_eq_true_iff]
    rintro ⟨hexponent, _⟩
    have hfield := congrArg BitVec.toNat hexponent
    change ((UInt64.ofNat w).toBitVec.toNat >>> 52) % 2 ^ 11 = 2047 at hfield
    rw [htoNat, Nat.shiftRight_eq_div_pow] at hfield
    omega
  apply Float.toBits_inj.mp
  apply UInt64.toBitVec_inj.mp
  change UnpackedFloat.pack .binary64 (UnpackedFloat.unpack .binary64
    (UnpackedFloat.pack .binary64 (UnpackedFloat.unpack .binary64 (UInt64.ofNat w).toBitVec))).neg =
      _
  rw [@UnpackedFloat.pack_unpack .binary64 _ (by decide),
    if_neg hnan, ← unpack_neg (s := x.toBits.toBitVec)]
  · exact UnpackedFloat.pack_unpack_of_valid x.toModel.valid
  · rw [htoNat]
    exact hword
  · rw [htoNat]
    unfold signBit
    omega

/-- Only the zeros have magnitude zero. -/
lemma beq_zero_iff : (x == 0) = true ↔ magnitudeWord x = 0 := by
  constructor
  · intro h
    obtain ⟨_, _, rfl | ⟨rfl, _⟩ | ⟨rfl, _⟩⟩ := Float.beq_iff_ne_nan_and_eq.mp h <;> decide
  · intro h
    have hlt : x.toBits.toNat < 2 ^ 64 := x.toBits.toNat_lt
    have hword : x.toBits.toNat = 0 ∨ x.toBits.toNat = signBit := by
      unfold magnitudeWord at h
      unfold signBit at *
      omega
    rw [← Float.ofBits_toBits x, ← UInt64.ofNat_toNat (x := x.toBits)]
    rcases hword with hword | hword <;> rw [hword] <;> decide

end Words

/-- Digits behind a point, if there is one. -/
inductive Point : List Char → List Char → Prop where
  | absent :
    Point [] []
  | present {fraction} :
    (∀ c ∈ fraction, c.isDigit = true) →
    Point ('.' :: fraction) fraction

/-- The mark of an exponent with sign and digits, if there is one. -/
inductive Tail : List Char → Int → Prop where
  | absent :
    Tail [] 0
  | plus {digits} :
    digits ≠ [] →
    (∀ c ∈ digits, c.isDigit = true) →
    Tail ('e' :: '+' :: digits) (valueOf digits)
  | minus {digits} :
    digits ≠ [] →
    (∀ c ∈ digits, c.isDigit = true) →
    Tail ('e' :: '-' :: digits) (-(valueOf digits : Int))

/-- Digits, perhaps with a point and an exponent, that stand for `n * 10 ^ e`. -/
inductive Numeral : List Char → Nat → Int → Prop where
  | mk {whole point fraction tail shift} :
    whole ≠ [] →
    (∀ c ∈ whole, c.isDigit = true) →
    Point point fraction →
    Tail tail shift →
    Numeral (whole ++ point ++ tail) (valueOf (whole ++ fraction)) (shift - fraction.length)

section Numerals

variable {text digits tail : List Char} {n : Nat} {e shift : Int}

lemma digits_span {rest : List Char} (h : ∀ c ∈ digits, c.isDigit = true)
    (hrest : ∀ c ∈ rest.head?, c.isDigit = false) :
    (digits ++ rest).takeWhile Char.isDigit = digits ∧
    (digits ++ rest).dropWhile Char.isDigit = rest := by
  rw [takeWhile_append_of_pos h, dropWhile_append_of_pos h]
  cases rest with
  | nil => exact ⟨append_nil _, rfl⟩
  | cons c rest => simp [hrest c rfl]

lemma Tail.head (h : Tail tail shift) : ∀ c ∈ tail.head?, c.isDigit = false := by
  cases h <;> simp

/-- A numeral is read as the number that it stands for. -/
lemma Numeral.digitNumeral (h : Numeral text n e) : digitNumeral? text = some (ofDecimal n e) := by
  obtain @⟨whole, point, fraction, tail, shift, hne, hwhole, hpoint, htail⟩ := h
  unfold digitNumeral?
  rw [append_assoc]
  cases hpoint with
  | absent =>
    rw [nil_append, (digits_span hwhole htail.head).1, (digits_span hwhole htail.head).2]
    cases htail with
    | absent => simp [hne]
    | plus hne' hdigits | minus hne' hdigits => simpa [hne, exponent?, hne'] using hdigits
  | present hfraction =>
    have hspan :=
      digits_span hwhole (show ∀ c ∈ ('.' :: (fraction ++ tail)).head?, c.isDigit = false by simp)
    rw [cons_append, hspan.1, hspan.2]
    simp only [(digits_span hfraction htail.head).1, (digits_span hfraction htail.head).2]
    cases htail with
    | absent => simp [hne]
    | plus hne' hdigits | minus hne' hdigits => simpa [hne, exponent?, hne'] using hdigits

lemma Numeral.head (h : Numeral text n e) : ∃ c cs, text = c :: cs ∧ c.isDigit = true := by
  obtain @⟨whole, _, _, _, _, hne, hwhole, _, _⟩ := h
  obtain ⟨c, cs, rfl⟩ := exists_cons_of_ne_nil hne
  exact ⟨c, _, rfl, hwhole c mem_cons_self⟩

end Numerals

section Writing

variable {n k : Nat} {d : Digits} {c : Char} {point tail : List Char} {shift : Int}

lemma digitChars_isDigit (h : c ∈ digitChars n) : c.isDigit = true :=
  Nat.isDigit_of_mem_toDigits (by decide) (by decide) h

lemma digitChars_ne_nil : digitChars n ≠ [] := ne_nil_of_length_pos Nat.length_toDigits_pos

lemma valueOf_digitChars : valueOf (digitChars n) = n := Nat.ofDigitChars_ten_toDigits

/-- A text stands for some digits with an exponent. -/
def Denotes (text : List Char) (d : Digits) : Prop :=
  ∃ n e, Numeral text n e ∧ (n : ℚ) * 10 ^ e = d.value

lemma denotes_split (hk : 0 < k) (hpoint : Point point ((digitChars d.digits).drop k))
    (htail : Tail tail shift) (he : shift - ((digitChars d.digits).length - k : ℕ) = d.exponent) :
    Denotes ((digitChars d.digits).take k ++ point ++ tail) d := by
  have hne : (digitChars d.digits).take k ≠ [] := by simp [hk.ne', digitChars_ne_nil]
  have h := Numeral.mk hne (fun c hc => digitChars_isDigit (mem_of_mem_take hc)) hpoint htail
  rw [take_append_drop, valueOf_digitChars, length_drop, he] at h
  exact ⟨_, _, h, rfl⟩

lemma zeros_isDigit : ∀ c ∈ List.replicate k '0', c.isDigit = true := by
  intro c hc
  rw [eq_of_mem_replicate hc]
  rfl

/-- Zeros after the digits shift them. -/
lemma denotes_zeros_right (he : 0 ≤ d.exponent) :
    Denotes (digitChars d.digits ++ List.replicate d.exponent.toNat '0') d := by
  have hdigits := forall_mem_append.mpr ⟨fun _ => digitChars_isDigit (n := d.digits),
    zeros_isDigit (k := d.exponent.toNat)⟩
  have hvalue : valueOf (digitChars d.digits ++ List.replicate d.exponent.toNat '0') =
      10 ^ d.exponent.toNat * d.digits :=
    (Nat.ofDigitChars_append 0).trans
      (Nat.ofDigitChars_replicate_zero.trans (congrArg _ valueOf_digitChars))
  have h := Numeral.mk (append_ne_nil_of_left_ne_nil digitChars_ne_nil _) hdigits .absent .absent
  rw [append_nil, append_nil, hvalue] at h
  refine ⟨_, _, h, ?_⟩
  rw [Digits.value]
  conv_rhs => rw [← Int.toNat_of_nonneg he, zpow_natCast]
  simp [mul_comm]

/-- So do zeros after the point. -/
lemma denotes_zeros_left (he : d.exponent = -(k + (digitChars d.digits).length : ℕ)) :
    Denotes ('0' :: '.' :: List.replicate k '0' ++ digitChars d.digits) d := by
  have hdigits :=
    forall_mem_append.mpr ⟨zeros_isDigit (k := k), fun _ => digitChars_isDigit (n := d.digits)⟩
  have hvalue : valueOf ('0' :: (List.replicate k '0' ++ digitChars d.digits)) = d.digits := by
    change Nat.ofDigitChars 10 (List.replicate k '0' ++ digitChars d.digits) 0 = _
    rw [Nat.ofDigitChars_append, Nat.ofDigitChars_replicate_zero]
    exact valueOf_digitChars
  have h := Numeral.mk (cons_ne_nil '0' []) (by simp) (.present hdigits) .absent
  rw [append_nil, singleton_append, singleton_append,
    hvalue, length_append, length_replicate, zero_sub, ← he] at h
  exact ⟨_, _, h, rfl⟩

/-- Positional notation denotes its digits. -/
lemma denotes_positional : Denotes (d.positional false) d := by
  unfold Digits.positional
  dsimp only
  split
  next he =>
    rw [if_neg Bool.false_ne_true, append_nil]
    exact denotes_zeros_right he
  next he =>
    split
    next hw =>
      rw [← append_nil (_ ++ _)]
      exact denotes_split (by omega) (.present fun c hc =>
        digitChars_isDigit (mem_of_mem_drop hc)) .absent (by omega)
    next hw => exact denotes_zeros_left (by omega)

/-- So does scientific notation. -/
lemma denotes_scientific : Denotes d.scientific d := by
  have hpoint {fraction : List Char} (h : ∀ c ∈ fraction, c.isDigit = true) :
      Point (if fraction.isEmpty then [] else '.' :: fraction) fraction := by
    cases fraction with
    | nil => exact .absent
    | cons c fraction => exact .present h
  have htail {e : Int} : Tail ('e' :: (if 0 ≤ e then '+' else '-') :: digitChars e.natAbs) e := by
    split
    next he =>
      have h := Tail.plus digitChars_ne_nil fun _ => digitChars_isDigit (n := e.natAbs)
      rw [valueOf_digitChars, Int.natAbs_of_nonneg he] at h
      exact h
    next he =>
      have h := Tail.minus digitChars_ne_nil fun _ => digitChars_isDigit (n := e.natAbs)
      rw [valueOf_digitChars, Int.ofNat_natAbs_of_nonpos (by omega), neg_neg] at h
      exact h
  refine denotes_split Nat.one_pos (hpoint fun c hc =>
    digitChars_isDigit (mem_of_mem_drop hc)) htail ?_
  have hpos : 0 < (digitChars d.digits).length := length_pos_iff.mpr digitChars_ne_nil
  rw [Digits.leading, digitCount]
  unfold digitChars at hpos ⊢
  omega

end Writing

/-- A text that denotes a number and has no blanks. -/
structure Legible (text : List Char) (x : Float) : Prop where
  read : read? text = some x
  nonempty : text ≠ []
  solid : ∀ c ∈ text, Text.isBlank c = false

section Texts

variable {text before after : List Char} {n : Nat} {e : Int} {x : Float} {c : Char}

lemma isBlank_of_isDigit (h : c.isDigit = true) : Text.isBlank c = false := by
  obtain ⟨hlow, hhigh⟩ := Char.isDigit_iff_toNat.mp h
  change 48 ≤ c.toNat at hlow
  change c.toNat ≤ 57 at hhigh
  simp only [Text.isBlank, Bool.or_eq_false_iff, Bool.and_eq_false_imp,
    decide_eq_true_eq, decide_eq_false_iff_not, not_le, beq_eq_false_iff_ne]
  omega

lemma toLower_of_isDigit (h : c.isDigit = true) : c.toLower = c := by
  apply Char.toLower_eq_of_not_isUpper
  have hhigh : c.toNat ≤ 57 := (Char.isDigit_iff_toNat.mp h).2
  have hupper : ¬ 65 ≤ c.toNat := by omega
  simp [Char.isUpper, UInt32.le_iff_toNat_le, hupper]

/-- A numeral is read as what it stands for. -/
lemma Numeral.unsigned (h : Numeral text n e) : unsigned? text = some (ofDecimal n e) := by
  obtain ⟨c, cs, rfl, hc⟩ := h.head
  have hword {word : String} (hfirst : ∀ c ∈ word.toList.head?, c.isDigit = false) :
      String.ofList ((c :: cs).map Char.toLower) ≠ word := by
    rintro rfl
    rw [String.toList_ofList, map_cons, toLower_of_isDigit hc] at hfirst
    cases hc.symm.trans (hfirst c rfl)
  unfold unsigned?
  dsimp only
  rw [if_neg, if_neg]
  · exact h.digitNumeral
  · exact hword (by simp)
  · rintro (h | h)
    · exact hword (by simp) h
    · exact hword (by simp) h

/-- Numerals have no blanks. -/
lemma Numeral.solid (h : Numeral text n e) : ∀ c ∈ text, Text.isBlank c = false := by
  have hdigits {digits : List Char} (h : ∀ c ∈ digits, c.isDigit = true) :
      ∀ c ∈ digits, Text.isBlank c = false :=
    fun c hc => isBlank_of_isDigit (h c hc)
  obtain ⟨_, hwhole, hpoint, htail⟩ := h
  refine forall_mem_append.mpr ⟨forall_mem_append.mpr ⟨hdigits hwhole, ?_⟩, ?_⟩
  · cases hpoint with
    | absent => exact nofun
    | present hfraction => exact forall_mem_cons.mpr ⟨by decide, hdigits hfraction⟩
  · cases htail with
    | absent => exact nofun
    | plus _ h | minus _ h =>
      exact forall_mem_cons.mpr ⟨by decide, forall_mem_cons.mpr ⟨by decide, hdigits h⟩⟩

/-- Every numeral can be read. -/
lemma Numeral.legible (h : Numeral text n e) : Legible text (ofDecimal n e) := by
  obtain ⟨c, cs, rfl, hc⟩ := h.head
  refine ⟨?_, cons_ne_nil _ _, h.solid⟩
  unfold read?
  split
  next heq =>
    cases heq
    cases hc
  next heq =>
    cases heq
    cases hc
  next => exact h.unsigned

lemma Numeral.legible_neg (h : Numeral text n e) : Legible ('-' :: text) (-ofDecimal n e) := by
  refine ⟨?_, cons_ne_nil _ _, forall_mem_cons.mpr ⟨by decide, h.solid⟩⟩
  change (unsigned? text).map _ = _
  rw [h.unsigned]
  rfl

/-- Blanks around a number are trimmed. -/
lemma trim_around (hbefore : ∀ c ∈ before, Text.isBlank c = true)
    (hafter : ∀ c ∈ after, Text.isBlank c = true) (h : Legible text x) :
    Text.trim (before ++ text ++ after) = text := by
  have hkeep {l : List Char} (hne : l ≠ []) (hl : ∀ c ∈ l, Text.isBlank c = false) (r : List Char) :
      (l ++ r).dropWhile Text.isBlank = l ++ r := by
    obtain ⟨c, cs, rfl⟩ := exists_cons_of_ne_nil hne
    simp [hl c mem_cons_self]
  unfold Text.trim
  rw [append_assoc, dropWhile_append_of_pos hbefore, hkeep h.nonempty h.solid, reverse_append,
    dropWhile_append_of_pos fun c hc =>
    hafter c (mem_reverse.mp hc), ← append_nil text.reverse, hkeep]
  · simp
  · simpa using h.nonempty
  · exact fun c hc => h.solid c (mem_reverse.mp hc)

/-- What is written of a magnitude denotes its shortest decimal. -/
lemma denotes_magnitude {x : Scaled} (hx : x.Canonical) :
    Denotes (Value.numberLayout.magnitude x) (shortest Value.numberLayout.tie x) := by
  unfold Layout.magnitude
  rw [if_neg hx.pos.ne']
  dsimp only
  split
  · exact denotes_positional
  · exact denotes_scientific

/-- What is written of a finite number gives it back. -/
lemma legible_chars (hx : x.isFinite = true) :
    Legible (Value.numberLayout.chars x) (if x == 0 then 0 else x) := by
  have hnan : x.isNaN = false := by
    change x.toModel.unpack.isFinite = true at hx
    change x.toModel.unpack.isNaN = false
    cases hu : x.toModel.unpack with
    | notANumber =>
      rw [hu] at hx
      cases hx
    | _ => rfl
  have hlt := magnitudeWord_lt hx
  unfold Layout.chars magnitude?
  rw [hnan, if_neg Bool.false_ne_true, if_pos hlt]
  dsimp only
  rcases Nat.eq_zero_or_pos (magnitudeWord x) with hzero | hpos
  · have hbeq := beq_zero_iff.mpr hzero
    have hsign : (isNegative x && (Value.numberLayout.signedZero || x != 0)) = false := by
      simp [bne, hbeq, Value.numberLayout]
    rw [hbeq, if_pos rfl, hsign, hzero]
    exact ⟨by decide +kernel, cons_ne_nil _ _, forall_mem_singleton.mpr (by decide)⟩
  · have hbeq : (x == 0) = false := Bool.eq_false_iff.mpr fun h => hpos.ne' (beq_zero_iff.mp h)
    have hcanonical := scaledOfWord_canonical hpos hlt
    obtain ⟨n, e, hnumeral, hvalue⟩ := denotes_magnitude hcanonical
    have haround := hcanonical.around (hcanonical.shortest_contains Value.numberLayout.tie)
    rw [← hvalue] at haround
    have hdecimal := haround.ofDecimal hcanonical
    rw [word_scaledOfWord] at hdecimal
    have hsign : (isNegative x && (Value.numberLayout.signedZero || x != 0)) = isNegative x := by
      simp [bne, hbeq]
    rw [hbeq, if_neg Bool.false_ne_true, hsign]
    cases hnegative : isNegative x with
    | false =>
      have h := hnumeral.legible
      rw [hdecimal, ofBits_magnitudeWord hnegative] at h
      exact h
    | true =>
      have h := hnumeral.legible_neg
      rw [hdecimal, neg_ofBits_magnitudeWord hx hnegative] at h
      exact h

end Texts

end Decimal

namespace Value

/-- Every finite number that is shown is read back as that number, whatever blanks stand around it,
and zero of either sign as zero. Of any text, either a finite number is read or the text is kept. -/
theorem ofInput_display : (∀ n : Float, n.isFinite = true → ∀ before after : String,
      (∀ c ∈ before.toList ++ after.toList, Text.isBlank c = true) →
        ofInput (before ++ (number n).display ++ after) = .number (if n == 0 then 0 else n)) ∧
    ∀ text, (∃ n, n.isFinite = true ∧ ofInput text = .number n) ∨ ofInput text = .text text := by
  constructor
  · intro n hn before after hblank
    obtain ⟨hbefore, hafter⟩ := List.forall_mem_append.mp hblank
    have hlegible := Decimal.legible_chars hn
    have hfinite : (if n == 0 then 0 else n).isFinite = true := by
      split
      · rfl
      · exact hn
    have htrim :
        Text.trim (before ++ (number n).display ++ after).toList = numberLayout.chars n := by
      rw [String.toList_append, String.toList_append, display,
        Decimal.Layout.write, String.toList_ofList]
      exact Decimal.trim_around hbefore hafter hlegible
    unfold ofInput
    rw [htrim, hlegible.read]
    dsimp only
    rw [if_pos hfinite]
  · intro text
    unfold ofInput
    split
    next n _ =>
      split
      next hn => exact .inl ⟨n, hn, rfl⟩
      next => exact .inr rfl
    next => exact .inr rfl

/-- The negative number that is closest to zero. -/
def leastNegative : Float := Float.ofBits 9223372036854775809

/-- It is written with an exponent and read back between blanks. -/
theorem leastNegative_ofInput :
    leastNegative.isFinite = true ∧ (number leastNegative).display = "-5e-324" ∧
    ofInput ("\t" ++ (number leastNegative).display ++ " ") = .number leastNegative := by
  have hfinite : leastNegative.isFinite = true := by decide +kernel
  have hblank : ∀ c ∈ "\t".toList ++ " ".toList, Text.isBlank c = true := by
    intro c hc
    obtain rfl | rfl : c = '\t' ∨ c = ' ' := by simpa using hc
    · rfl
    · rfl
  have hread := ofInput_display.1 leastNegative hfinite "\t" " " hblank
  rw [if_neg (by decide +kernel)] at hread
  exact ⟨hfinite, by decide +kernel, hread⟩

end Value

end Colloquy
