import Colloquy.Proofs.Token.Layout
import Colloquy.Proofs.Token.Lexeme

/-!
# The texts of tokens

The text of a token spells it (`Token.Penned`): a scanner inside a token has read the beginning of
such a text (`Mode.Begun`), and every character keeps that.
-/

namespace Colloquy

open Scanner List Token

/-- The text of the token is one way to write its kind. -/
structure Token.Penned (t : Token) : Prop where
  plain : t.kind.isPlain = true → Spells t.kind t.text.toList
  newline : t.kind = .newline → t.text = "\n"
  layout : t.kind = .indent ∨ t.kind = .dedent → t.text = ""

/-- The characters read are the first ones of a text that spells the token. -/
def Mode.Begun : Mode → Prop
  | .word _ read =>
    ∃ c cs, read.reverse = c :: cs ∧ Text.isWordStart c = true ∧ ∀ x ∈ cs, Text.isWordChar x = true
  | .whole _ read => read ≠ [] ∧ ∀ x ∈ read, x.isDigit = true
  | .fraction _ read => ∃ whole digits, read.reverse = whole ++ '.' :: digits ∧ whole ≠ [] ∧
      (∀ x ∈ whole, x.isDigit = true) ∧ ∀ x ∈ digits, x.isDigit = true
  | .quoted _ quote read => Quoted quote read.reverse
  | .escaped _ quote read => ∃ before, read = '\\' :: before ∧ Quoted quote before.reverse
  | .pair _ first sign => pairSymbol? first = some sign
  | _ => True

/-- Every token is spelled by its text, and the one that has begun as far as it is read. -/
structure Scanner.Penning (s : Scanner) : Prop where
  begun : s.mode.Begun
  emitted : ∀ t ∈ s.emitted, t.Penned

variable {s s' : Scanner} {c : Char} {next : Option Char} {e : Option ScanError}
  {kind : TokenKind} {text : List Char} {position : Position}

lemma Token.penned_of_spells (hk : kind.isPlain = true) (h : Spells kind text) :
    Penned ⟨kind, String.ofList text, position⟩ where
  plain _ := by
    rw [String.toList_ofList]
    exact h
  newline he := by
    obtain rfl : kind = .newline := he
    cases hk
  layout he := by
    obtain rfl | rfl : kind = .indent ∨ kind = .dedent := he <;> cases hk

lemma Token.penned_newline : Penned ⟨.newline, "\n", position⟩ := ⟨nofun, fun _ => rfl, nofun⟩

lemma Token.penned_indent : Penned ⟨.indent, "", position⟩ := ⟨nofun, nofun, fun _ => rfl⟩

lemma Token.penned_dedent : Penned ⟨.dedent, "", position⟩ := ⟨nofun, nofun, fun _ => rfl⟩

lemma Spells.of_whole (hne : text ≠ []) (h : ∀ x ∈ text, x.isDigit = true) :
    Spells (.number (numberOf text)) text := by
  obtain ⟨c, cs, rfl⟩ := exists_cons_of_ne_nil hne
  exact .whole h

lemma Spells.of_fraction {whole digits : List Char} (hwhole : whole ≠ [])
    (hw : ∀ x ∈ whole, x.isDigit = true) (hdigits : digits ≠ [])
    (hd : ∀ x ∈ digits, x.isDigit = true) :
    Spells (.number (numberOf (whole ++ '.' :: digits))) (whole ++ '.' :: digits) := by
  obtain ⟨c, cs, rfl⟩ := exists_cons_of_ne_nil hwhole
  obtain ⟨d, ds, rfl⟩ := exists_cons_of_ne_nil hdigits
  exact .fraction hw hd

lemma Quoted.append {quote : Char} {more : List Char} (h : Quoted quote text)
    (hmore : Quoted quote more) :
    Quoted quote (text ++ more) := by
  induction h with
  | nil => exact hmore
  | plain hquote hslash _ ih => exact .plain hquote hslash ih
  | escaped hquote _ ih => exact .escaped hquote ih

namespace Scanner

variable {source read : List Char}

lemma start_penning : (start source).Penning := ⟨trivial, nofun⟩

lemma Penning.mode {mode : Mode} (hs : s.Penning) (hm : mode.Begun) :
    { s with mode := mode }.Penning := ⟨hm, hs.emitted⟩

lemma Penning.emit (hs : s.Penning) (hk : kind.isPlain = true) (h : Spells kind text) :
    ({ s with mode := .between }.emit kind (String.ofList text) position).Penning :=
  ⟨trivial, forall_mem_cons.mpr ⟨penned_of_spells hk h, hs.emitted⟩⟩

lemma Penning.measure {width : Nat} (hs : ∀ t ∈ s.emitted, t.Penned) :
    ∀ t ∈ (s.measure width).emitted, t.Penned := by
  unfold Scanner.measure
  split
  · exact forall_mem_cons.mpr ⟨penned_indent, hs⟩
  · rw [emitDedents_eq]
    refine forall_mem_append.mpr ⟨fun t ht => ?_, hs⟩
    rw [(mem_replicate.mp ht).2]
    exact penned_dedent

lemma inWord_penning (hs : s.Penning) (h : (Mode.word position read).Begun) :
    (s.inWord position read next).Penning := by
  unfold inWord
  split
  · exact hs.mode h
  · obtain ⟨c, cs, hread, hc, hcs⟩ := h
    apply hs.emit isPlain_ofWord
    rw [hread]
    exact .word hc hcs

lemma inWhole_penning (hs : s.Penning) (h : (Mode.whole position read).Begun) :
    (s.inWhole position read next).Penning := by
  unfold inWhole
  split
  · exact hs.mode h
  · obtain ⟨hne, hdigits⟩ := h
    apply hs.emit rfl
    apply Spells.of_whole
    · exact reverse_ne_nil_iff.mpr hne
    · exact fun x hx => hdigits x (mem_reverse.mp hx)

/-- A token begins as it is spelled. -/
lemma fresh_penning (hs : ∀ t ∈ s.emitted, t.Penned) (h : s.fresh c next = (e, s')) :
    s'.Penning := by
  have hbetween : { s with mode := .between }.Penning := ⟨trivial, hs⟩
  unfold fresh at h
  split at h
  · cases h
    exact hbetween
  split at h
  · cases h
    exact ⟨trivial, forall_mem_cons.mpr ⟨penned_newline, hs⟩⟩
  split at h
  · cases h
    exact hbetween.mode trivial
  split at h
  · cases h
    exact hbetween.mode .nil
  split at h
  next hdigit =>
    cases h
    exact inWhole_penning hbetween ⟨cons_ne_nil _ _, forall_mem_singleton.mpr hdigit⟩
  split at h
  next hstart =>
    cases h
    exact inWord_penning hbetween ⟨c, [], rfl, hstart, nofun⟩
  split at h
  next sign hpair =>
    cases h
    split at hpair
    · exact hbetween.mode hpair
    · cases hpair
  split at h
  next sign hsign =>
    cases h
    exact hbetween.emit rfl (.symbol hsign)
  · cases h
    exact hbetween

/-- Every step keeps to the spelling, case by case of the mode. -/
lemma react_penning (hf : s.mode.Fits (some c)) (hs : s.Penning) (h : s.react c next = (e, s')) :
    s'.Penning := by
  obtain ⟨hbegun, hemitted⟩ := hs
  unfold react at h
  cases hmode : s.mode with
  | between =>
    rw [hmode] at h
    exact fresh_penning hemitted h
  | lineStart width =>
    rw [hmode] at h
    dsimp only at h
    split at h
    · cases h
      exact ⟨trivial, hemitted⟩
    split at h
    · cases h
      exact ⟨trivial, hemitted⟩
    split at h
    · exact fresh_penning hemitted h
    · exact fresh_penning (Penning.measure hemitted) h
  | comment =>
    rw [hmode] at h
    dsimp only at h
    split at h
    · exact fresh_penning hemitted h
    · cases h
      exact ⟨hbegun, hemitted⟩
  | word start read =>
    rw [hmode] at h hf hbegun
    cases h
    obtain ⟨x, xs, hread, hx, hxs⟩ := hbegun
    refine inWord_penning ⟨by rw [hmode]; exact ⟨x, xs, hread, hx, hxs⟩, hemitted⟩
      ⟨x, xs ++ [c], ?_, hx, ?_⟩
    · rw [reverse_cons, hread, cons_append]
    · exact forall_mem_append.mpr ⟨hxs, forall_mem_singleton.mpr hf⟩
  | whole start read =>
    rw [hmode] at h hf hbegun
    obtain ⟨hne, hdigits⟩ := hbegun
    have hspells : Spells (.number (numberOf read.reverse)) read.reverse :=
      .of_whole (reverse_ne_nil_iff.mpr hne) fun x hx => hdigits x (mem_reverse.mp hx)
    dsimp only at h
    split at h
    next hdigit =>
      cases h
      refine inWhole_penning ⟨by rw [hmode]; exact ⟨hne, hdigits⟩, hemitted⟩ ⟨cons_ne_nil _ _, ?_⟩
      exact forall_mem_cons.mpr ⟨hdigit, hdigits⟩
    next hdigit =>
      -- what is not a digit here is the point
      obtain rfl : c = '.' := by
        have hpoint : (c.isDigit || c == '.') = true := hf
        rw [Bool.eq_false_iff.mpr hdigit, Bool.false_or] at hpoint
        exact eq_of_beq hpoint
      split at h
      · cases h
        refine ⟨⟨read.reverse, [], reverse_cons, reverse_ne_nil_iff.mpr hne, ?_, nofun⟩, hemitted⟩
        exact fun x hx => hdigits x (mem_reverse.mp hx)
      · refine fresh_penning ?_ h
        exact forall_mem_cons.mpr ⟨penned_of_spells rfl hspells, hemitted⟩
  | fraction start read =>
    rw [hmode] at h hf hbegun
    cases h
    obtain ⟨whole, digits, hread, hne, hwhole, hdigits⟩ := hbegun
    have hread' : (c :: read).reverse = whole ++ '.' :: (digits ++ [c]) := by
      rw [reverse_cons, hread, append_assoc, cons_append]
    have hdigits' : ∀ x ∈ digits ++ [c], x.isDigit = true :=
      forall_mem_append.mpr ⟨hdigits, forall_mem_singleton.mpr hf⟩
    unfold inFraction
    split
    · exact ⟨⟨whole, digits ++ [c], hread', hne, hwhole, hdigits'⟩, hemitted⟩
    · refine ⟨trivial, forall_mem_cons.mpr ⟨penned_of_spells rfl ?_, hemitted⟩⟩
      rw [hread']
      exact .of_fraction hne hwhole (append_ne_nil_of_right_ne_nil _ (cons_ne_nil _ _)) hdigits'
  | quoted start quote read =>
    rw [hmode] at h hf hbegun
    have hquoted : Quoted quote read.reverse := hbegun
    dsimp only at h
    split at h
    · cases h
      exact ⟨trivial, forall_mem_cons.mpr ⟨penned_of_spells rfl (.string hf hquoted), hemitted⟩⟩
    next hquote =>
    split at h
    next hslash =>
      cases h
      exact ⟨⟨read, congrArg (List.cons · read) hslash, hquoted⟩, hemitted⟩
    next hslash =>
      cases h
      refine ⟨?_, hemitted⟩
      change Quoted quote (c :: read).reverse
      rw [reverse_cons]
      exact hquoted.append (.plain hquote hslash .nil)
  | escaped start quote read =>
    rw [hmode] at h hf hbegun
    cases h
    obtain ⟨before, rfl, hquoted⟩ := hbegun
    refine ⟨?_, hemitted⟩
    change Quoted quote (c :: '\\' :: before).reverse
    rw [reverse_cons, reverse_cons, append_assoc]
    apply hquoted.append
    apply Quoted.escaped _ .nil
    rcases hf with rfl | rfl <;> decide
  | pair start first sign =>
    rw [hmode] at h hf hbegun
    cases h
    obtain rfl : c = '=' := Option.some.inj hf
    exact ⟨trivial, forall_mem_cons.mpr ⟨penned_of_spells rfl (.pair hbegun), hemitted⟩⟩

/-- So does a whole scan. -/
lemma readAll_penning (hf : s.mode.Fits text.head?) (hs : s.Penning)
    (h : s.readAll text = (none, s')) : s'.Penning := by
  induction text generalizing s with
  | nil =>
    obtain ⟨_, rfl⟩ := Prod.mk.inj h
    exact ⟨hs.begun, hs.emitted⟩
  | cons c rest ih =>
    obtain ⟨s1, hreact, h⟩ := readAll_cons_inv h
    have hr : s.Reacts c rest.head? (none, s1) := hreact ▸ react_reacts hf
    have hs1 := react_penning hf hs hreact
    exact ih (s := s1.past c rest) hr.fits ⟨hs1.begun, hs1.emitted⟩ h

lemma emitted_penned (h : (start source).readAll source = (none, s)) : ∀ t ∈ s.emitted, t.Penned :=
  (readAll_penning (s := start source) trivial start_penning h).emitted

lemma emitted_lined (h : (start source).readAll source = (none, s))
    (hstring : s.mode.inString = false) : Lined s.emitted := by
  obtain ⟨hscan, hunread⟩ := Scanning.readAll .start rfl h
  obtain ⟨hfits, htidy⟩ := hscan.tidy
  rw [hunread] at hfits
  exact htidy.lined (not_holds_of_fits hfits hstring)

end Scanner

end Colloquy
