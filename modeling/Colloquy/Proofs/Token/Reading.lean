import Colloquy.Proofs.Token.Motion

/-!
# Reading one character

`Begins` and `Reacts` list what a scanner can do with one character, and from them come the
invariants of a scan.
-/

namespace Colloquy

open List

/-- Whether tokens of this kind stand inside lines. -/
def TokenKind.isPlain : TokenKind → Bool
  | .newline | .indent | .dedent | .eof => false
  | _ => true

/-- Whether a token has begun. -/
def Mode.holds : Mode → Bool
  | .between | .lineStart _ | .comment => false
  | _ => true

/-- A token that has begun goes on with the next character, a string up to its quote. -/
def Mode.Fits (next : Option Char) : Mode → Prop
  | .word .. => next.any Text.isWordChar = true
  | .whole .. => next.any (fun c => c.isDigit || c == '.') = true
  | .fraction .. => next.any Char.isDigit = true
  | .pair .. => next = some '='
  | .quoted _ quote _ | .escaped _ quote _ => quote = '"' ∨ quote = '\''
  | _ => True

namespace Scanner

section Steps

variable {s : Scanner} {c : Char} {next : Option Char}

/-- A character other than blanks, line breaks and comments. -/
def Significant (c : Char) (next : Option Char) : Prop :=
  c ≠ ' ' ∧ c ≠ '\t' ∧ c ≠ '\r' ∧ c ≠ '\n' ∧ beginsComment c next = false

/-- What a character does where a token may begin. -/
inductive Begins (s : Scanner) (c : Char) (next : Option Char) :
    Option ScanError × Scanner → Prop where
  | blank :
    ¬Significant c next →
    Begins s c next (none, { s with mode := .between })
  | newline :
    c = '\n' →
    Begins s c next
      (none, { s with mode := .lineStart 0, emitted := ⟨.newline, "\n", s.position⟩ :: s.emitted })
  | comment :
    ¬Significant c next →
    Begins s c next (none, { s with mode := .comment })
  | hold {mode} :
    mode.holds = true →
    mode.Fits next →
    Begins s c next (none, { s with mode := mode })
  | token {t} :
    t.kind.isPlain = true →
    Begins s c next (none, { s with mode := .between, emitted := t :: s.emitted })
  | problem {e} :
    Begins s c next (some e, { s with mode := .between })

lemma isPlain_ofWord {word : String} : (TokenKind.ofWord word).isPlain = true := by
  unfold TokenKind.ofWord
  split
  · rfl
  split
  · rfl
  split <;> rfl

/-- Nothing else can begin. -/
lemma fresh_begins : s.Begins c next (s.fresh c next) := by
  unfold fresh
  split
  next h =>
    refine .blank ?_
    rintro ⟨h1, h2, h3, _⟩
    rcases h with h | h | h
    · exact h1 h
    · exact h2 h
    · exact h3 h
  split
  next h => exact .newline h
  split
  next h =>
    refine .comment ?_
    rintro ⟨_, _, _, _, hc⟩
    rw [h] at hc
    cases hc
  split
  next h => exact .hold rfl h
  split
  · unfold inWhole
    split
    next h => exact .hold rfl h
    · exact .token (t := ⟨.number _, _, _⟩) rfl
  split
  · unfold inWord
    split
    next h => exact .hold rfl h
    · exact .token (t := ⟨.ofWord _, _, _⟩) isPlain_ofWord
  split
  next hpair =>
    split at hpair
    next h => exact .hold rfl h
    · cases hpair
  split
  · exact .token (t := ⟨.symbol _, _, _⟩) rfl
  · exact .problem

/-- What a scanner can do with a character. -/
inductive Reacts (s : Scanner) (c : Char) (next : Option Char) :
    Option ScanError × Scanner → Prop where
  | margin {width width'} :
    s.mode = .lineStart width →
    Reacts s c next (none, { s with mode := .lineStart width' })
  | comment :
    s.mode = .comment →
    Reacts s c next (none, s)
  | fresh {r} :
    s.mode.holds = false →
    Begins s c next r →
    Reacts s c next r
  | measure {width r} :
    s.mode = .lineStart width →
    Significant c next →
    Begins (s.measure width) c next r →
    Reacts s c next r
  | hold {mode} :
    s.mode.holds = true →
    mode.holds = true →
    mode.Fits next →
    Reacts s c next (none, { s with mode := mode })
  | token {t} :
    s.mode.holds = true →
    t.kind.isPlain = true →
    Reacts s c next (none, { s with mode := .between, emitted := t :: s.emitted })
  | tokenFresh {t r} :
    s.mode.holds = true →
    t.kind.isPlain = true →
    Begins { s with emitted := t :: s.emitted } c next r →
    Reacts s c next r

/-- Nothing else can be done, case by case of the mode. -/
lemma react_reacts (hs : s.mode.Fits (some c)) : s.Reacts c next (s.react c next) := by
  unfold react
  cases hmode : s.mode with
  | between => exact .fresh (by rw [hmode]; rfl) fresh_begins
  | lineStart width =>
    dsimp only
    split
    · exact .margin hmode
    split
    · exact .margin hmode
    split
    · exact .fresh (by rw [hmode]; rfl) fresh_begins
    next hspace htab hbreak =>
      simp only [not_or, Bool.not_eq_true] at hbreak
      exact .measure hmode ⟨hspace, htab, hbreak.2.1, hbreak.1, hbreak.2.2⟩ fresh_begins
  | comment =>
    dsimp only
    split
    · exact .fresh (by rw [hmode]; rfl) fresh_begins
    · exact .comment hmode
  | word start read =>
    dsimp only
    unfold inWord
    split
    next h => exact .hold (by rw [hmode]; rfl) rfl h
    · exact .token (t := ⟨.ofWord _, _, _⟩) (by rw [hmode]; rfl) isPlain_ofWord
  | whole start read =>
    dsimp only
    split
    · unfold inWhole
      split
      next h => exact .hold (by rw [hmode]; rfl) rfl h
      · exact .token (t := ⟨.number _, _, _⟩) (by rw [hmode]; rfl) rfl
    split
    next h => exact .hold (by rw [hmode]; rfl) rfl h
    · exact .tokenFresh (t := ⟨.number _, _, _⟩) (by rw [hmode]; rfl) rfl fresh_begins
  | fraction start read =>
    dsimp only
    unfold inFraction
    split
    next h => exact .hold (by rw [hmode]; rfl) rfl h
    · exact .token (t := ⟨.number _, _, _⟩) (by rw [hmode]; rfl) rfl
  | quoted start quote read =>
    rw [hmode] at hs
    dsimp only
    split
    · exact .token (t := ⟨.string _, _, _⟩) (by rw [hmode]; rfl) rfl
    split
    · exact .hold (by rw [hmode]; rfl) rfl hs
    · exact .hold (by rw [hmode]; rfl) rfl hs
  | escaped start quote read =>
    rw [hmode] at hs
    exact .hold (by rw [hmode]; rfl) rfl hs
  | pair start first sign => exact .token (t := ⟨.symbol _, _, _⟩) (by rw [hmode]; rfl) rfl

end Steps

section Invariants

variable {s s' s'' : Scanner} {c : Char} {next : Option Char} {e : Option ScanError} {t : Token}
  {position : Position}

/-- A token that a scanner emits while it reads. -/
structure Proper (t : Token) : Prop where
  ne_eof : t.kind ≠ .eof
  word : t.text.toList.head?.any Text.isWordStart = true → t.kind.isPlain = true

lemma proper_of_isPlain (h : t.kind.isPlain = true) : Proper t where
  ne_eof he := by
    rw [he] at h
    cases h
  word _ := h

lemma proper_newline : Proper ⟨.newline, "\n", position⟩ where
  ne_eof := nofun
  word (h : "\n".toList.head?.any Text.isWordStart = true) := absurd h (by decide +kernel)

lemma proper_dedent : Proper ⟨.dedent, "", position⟩ := ⟨nofun, nofun⟩

lemma proper_indent : Proper ⟨.indent, "", position⟩ := ⟨nofun, nofun⟩

/-- A step adds tokens, and opens no block without a width. -/
structure Extends (s s' : Scanner) : Prop where
  position : s'.position = s.position
  blocks : (∀ w ∈ s.blocks, 0 < w) → ∀ w ∈ s'.blocks, 0 < w
  emitted : ∃ out, s'.emitted = out ++ s.emitted ∧ ∀ t ∈ out, Proper t

lemma Extends.refl : s.Extends s := ⟨rfl, fun h => h, [], rfl, nofun⟩

lemma Extends.mode {mode : Mode} (h : s.Extends s') : s.Extends { s' with mode := mode } :=
  ⟨h.position, h.blocks, h.emitted⟩

lemma Extends.emit {mode : Mode} (ht : Proper t) (h : s.Extends s') :
    s.Extends { s' with mode := mode, emitted := t :: s'.emitted } := by
  obtain ⟨hposition, hblocks, out, hout, hproper⟩ := h
  refine ⟨hposition, hblocks, t :: out, congrArg (t :: ·) hout, ?_⟩
  exact forall_mem_cons.mpr ⟨ht, hproper⟩

lemma measure_extends {width : Nat} : s.Extends (s.measure width) := by
  unfold measure
  split
  next h =>
    refine ⟨rfl, fun hpos => forall_mem_cons.mpr
      ⟨Nat.lt_of_le_of_lt (Nat.zero_le _) h, hpos⟩, [_], rfl, ?_⟩
    exact forall_mem_singleton.mpr proper_indent
  · rw [emitDedents_eq]
    refine ⟨rfl, fun hpos w hw => hpos w ((dropWhile_sublist _).subset hw), _, rfl, fun t ht => ?_⟩
    rw [(mem_replicate.mp ht).2]
    exact proper_dedent

lemma Begins.extends (h : s'.Begins c next (e, s'')) (hs : s.Extends s') : s.Extends s'' := by
  cases h with
  | blank | comment | hold | problem => exact hs.mode
  | newline => exact hs.emit proper_newline
  | token ht => exact hs.emit (proper_of_isPlain ht)

lemma Reacts.extends (h : s.Reacts c next (e, s')) : s.Extends s' := by
  cases h with
  | margin | hold => exact Extends.refl.mode
  | comment => exact .refl
  | fresh _ hb => exact hb.extends .refl
  | measure _ _ hb => exact hb.extends measure_extends
  | token _ ht => exact Extends.refl.emit (proper_of_isPlain ht)
  | tokenFresh _ ht hb => exact hb.extends (Extends.refl.emit (proper_of_isPlain ht))

lemma Begins.fits (h : s.Begins c next (e, s')) : s'.mode.Fits next := by
  cases h with
  | hold _ hm => exact hm
  | _ => trivial

lemma Reacts.fits (h : s.Reacts c next (e, s')) : s'.mode.Fits next := by
  cases h with
  | margin => trivial
  | comment hm =>
    rw [hm]
    trivial
  | fresh _ hb | measure _ _ hb => exact hb.fits
  | hold _ _ hm => exact hm
  | token => trivial
  | tokenFresh _ _ hb => exact hb.fits

/-- The scanner that has read the end of a line. -/
def atLineStart (s : Scanner) : Scanner :=
  { s with mode := .lineStart 0, emitted := ⟨.newline, "\n", s.position⟩ :: s.emitted }

lemma react_newline_of_not_holds (hs : s.mode.holds = false) :
    s.react '\n' next = (none, s.atLineStart) := by
  unfold react
  cases hmode : s.mode with
  | between | lineStart _ | comment => rfl
  | _ =>
    rw [hmode] at hs
    cases hs

/-- A line break begins a line, or belongs to a string. -/
lemma react_newline (hs : s.mode.Fits (some '\n')) :
    (∀ next, s.react '\n' next = (none, s.atLineStart)) ∨
    (s.react '\n' none).2.mode.inString = true := by
  have hword : Text.isWordChar '\n' = false := by decide +kernel
  cases hmode : s.mode with
  | between | lineStart _ | comment =>
    exact .inl fun _ => react_newline_of_not_holds (by rw [hmode]; rfl)
  | word =>
    rw [hmode] at hs
    exact absurd (hword.symm.trans hs) Bool.false_ne_true
  | whole | fraction =>
    rw [hmode] at hs
    cases hs
  | pair =>
    rw [hmode] at hs
    exact absurd (Option.some.inj hs) (by decide)
  | quoted start quote read =>
    rw [hmode] at hs
    simp only [react, hmode]
    rcases hs with rfl | rfl <;> exact .inr rfl
  | escaped =>
    simp only [react, hmode]
    exact .inr rfl

end Invariants

section Runs

variable {s s' : Scanner} {c : Char} {text rest : List Char} {p : Position}

lemma readAll_cons_inv (h : s.readAll (c :: rest) = (none, s')) :
    ∃ s1, s.react c rest.head? = (none, s1) ∧ (s1.past c rest).readAll rest = (none, s') := by
  unfold readAll at h
  rcases hreact : s.react c rest.head? with ⟨_ | e, s1⟩ <;> rw [hreact] at h
  · exact ⟨s1, rfl, h⟩
  · cases (Prod.mk.inj h).1

lemma readAll_cons (h : s.react c rest.head? = (none, s')) :
    s.readAll (c :: rest) = (s'.past c rest).readAll rest := by
  simp only [readAll, h]

/-- What holds at the start and is kept by every step holds at the end. -/
lemma readAll_run {P : Scanner → List Char → Prop}
    (hstep : ∀ {s c rest s'}, P s (c :: rest) → s.Reacts c rest.head? (none, s') →
      P (s'.past c rest) rest)
    (hs : s.mode.Fits text.head?) (hp : P s text) (h : s.readAll text = (none, s')) :
    s'.mode.Fits none ∧ ∃ s0, P s0 [] ∧ s' = { s0 with unread := [] } := by
  induction text generalizing s with
  | nil =>
    obtain ⟨_, rfl⟩ := Prod.mk.inj h
    exact ⟨hs, s, hp, rfl⟩
  | cons c rest ih =>
    obtain ⟨s1, hreact, h⟩ := readAll_cons_inv h
    have hr : s.Reacts c rest.head? (none, s1) := hreact ▸ react_reacts hs
    exact ih (s := s1.past c rest) hr.fits (hstep hp hr) h

/-- Blocks have a width, and the tokens are those of a text that has not ended. -/
structure Sound (s : Scanner) : Prop where
  blocks : ∀ w ∈ s.blocks, 0 < w
  emitted : ∀ t ∈ s.emitted, Proper t

lemma start_sound {source : List Char} : (start source).Sound := ⟨nofun, nofun⟩

lemma Extends.sound (h : s.Extends s') (hs : s.Sound) : s'.Sound where
  blocks := h.blocks hs.blocks
  emitted := by
    obtain ⟨out, hout, hproper⟩ := h.emitted
    rw [hout]
    exact forall_mem_append.mpr ⟨hproper, hs.emitted⟩

lemma readAll_sound (hf : s.mode.Fits text.head?) (hs : s.Sound) (h : s.readAll text = (none, s')) :
    s'.Sound := by
  obtain ⟨_, s0, hs0, rfl⟩ := readAll_run (P := fun s _ => s.Sound)
    (fun hs hr => ⟨(hr.extends.sound hs).blocks, (hr.extends.sound hs).emitted⟩) hf hs h
  exact ⟨hs0.blocks, hs0.emitted⟩

lemma readAll_emitted (hf : s.mode.Fits text.head?) (h : s.readAll text = (none, s')) :
    ∃ out, s'.emitted = out ++ s.emitted := by
  obtain ⟨_, s0, hs0, rfl⟩ := readAll_run (P := fun s1 _ => ∃ out, s1.emitted = out ++ s.emitted)
    (fun {s1 c rest s2} hp hr => by
      obtain ⟨out, hout⟩ := hp
      obtain ⟨more, hmore, _⟩ := hr.extends.emitted
      refine ⟨more ++ out, ?_⟩
      rw [append_assoc, ← hout]
      exact hmore) hf ⟨[], rfl⟩ h
  exact hs0

lemma readAll_congr {t : Scanner} (h : s.react c rest.head? = t.react c rest.head?) :
    s.readAll (c :: rest) = t.readAll (c :: rest) := by
  unfold readAll
  rw [h]

lemma line_after : (p.after c).line + rest.count '\n' = p.line + (c :: rest).count '\n' := by
  unfold Position.after
  by_cases hc : c = '\n'
  · rw [if_pos hc, hc, count_cons_self]
    exact Nat.add_right_comm p.line 1 (rest.count '\n')
  · rw [if_neg hc, count_cons_of_ne hc]

lemma offset_after : (p.after c).offset + rest.length = p.offset + (c :: rest).length := by
  rw [length_cons]
  unfold Position.after
  split <;> simp only <;> omega

/-- A scan counts lines and characters. -/
lemma readAll_position (hf : s.mode.Fits text.head?) (h : s.readAll text = (none, s')) :
    s'.position.line = s.position.line + text.count '\n' ∧
    s'.position.offset = s.position.offset + text.length := by
  obtain ⟨_, s0, ⟨hline, hoffset⟩, rfl⟩ := readAll_run
    (P := fun s1 rest => s1.position.line + rest.count '\n' = s.position.line + text.count '\n' ∧
      s1.position.offset + rest.length = s.position.offset + text.length)
    (fun {s1 c rest s2} hp hr => by
      rw [show (s2.past c rest).position =
        s1.position.after c from congrArg (·.after c) hr.extends.position, line_after, offset_after]
      exact hp) hf ⟨rfl, rfl⟩ h
  exact ⟨hline, hoffset⟩

/-- A text with complete lines ends at the beginning of a line. -/
lemma readAll_line {line : List Char} (hs : s.mode.Fits (line ++ ['\n']).head?)
    (h : s.readAll (line ++ ['\n']) = (none, s')) (hstring : s'.mode.inString = false) :
    s'.mode = .lineStart 0 ∧ s'.position.column = 1 ∧
    (∃ t out, s'.emitted = t :: out ∧ t.kind = .newline) ∧
      ∀ rest, s.readAll (line ++ '\n' :: rest) = s'.readAll rest := by
  induction line generalizing s with
  | nil =>
    obtain ⟨s1, hreact, h⟩ := readAll_cons_inv h
    obtain ⟨_, rfl⟩ := Prod.mk.inj h
    rcases react_newline hs with hnewline | hopen
    · obtain ⟨_, rfl⟩ := Prod.mk.inj (hreact.symm.trans (hnewline none))
      refine ⟨rfl, rfl, ⟨_, _, rfl, rfl⟩, fun rest => ?_⟩
      exact (readAll_cons (hnewline rest.head?)).trans readAll_unread.symm
    · -- a string would go on, but none is open at the end
      rw [show s.react '\n' none = (none, s1) from hreact] at hopen
      exact absurd (hstring.symm.trans hopen) Bool.false_ne_true
  | cons c line ih =>
    obtain ⟨s1, hreact, h⟩ := readAll_cons_inv h
    have hr : s.Reacts c (line ++ ['\n']).head? (none, s1) := hreact ▸ react_reacts hs
    obtain ⟨hmode, hcolumn, hemitted, hrest⟩ := ih (s := s1.past c (line ++ ['\n'])) hr.fits h
    refine ⟨hmode, hcolumn, hemitted, fun rest => ?_⟩
    -- what comes after the line break is not seen before it
    have hnext : (line ++ '\n' :: rest).head? = (line ++ ['\n']).head? := by
      rw [List.head?_append, List.head?_append]
      rfl
    rw [cons_append, readAll_cons (hnext ▸ hreact), ← hrest rest]
    exact readAll_unread (s := s1.past c (line ++ ['\n']))

end Runs

end Scanner

end Colloquy
