import Colloquy.Proofs.Token.Order

/-!
# Blank lines and comments

A blank line or a remark at the end of a line has no token of its own, so that only places change if
one is put in. What a scanner does with a character is the same whether the line ends after it or a
blank comes (`Inert`), and outside tokens it reads blanks and comments without doing anything
(`readAll_blankLine`).
-/

namespace Colloquy

open List Token

/-- A line of blanks, and a comment after them if there is one. -/
def IsBlankLine (line : List Char) : Prop :=
  ∃ blanks note, line = blanks ++ note ∧ (∀ c ∈ blanks, c = ' ' ∨ c = '\t') ∧
  (note = [] ∨ OpensComment note) ∧ '\n' ∉ note

/-- A comment with at least one blank in front of it. -/
def IsRemark (text : List Char) : Prop :=
  ∃ blanks note, text = blanks ++ note ∧ blanks ≠ [] ∧
  (∀ c ∈ blanks, c = ' ' ∨ c = '\t') ∧ OpensComment note ∧ '\n' ∉ note

/-- Whether tokens of this kind are strings. -/
def TokenKind.isString : TokenKind → Bool
  | .string _ => true
  | _ => false

/-- The character at an offset of a text is part of a string. -/
def InString (source : String) (i : Nat) : Prop :=
  ∃ tokens, tokenize source = .ok tokens ∧ ∃ t ∈ tokens, t.kind.isString = true ∧ t.Covers i

instance {t : Token} {i : Nat} : Decidable (t.Covers i) := inferInstanceAs (Decidable (_ ∧ _))

/-- A place in a string is covered by it. -/
lemma inString_iff {source : String} {i : Nat} :
    InString source i ↔ ∃ t ∈ (tokenize source).toOption.getD [], t.kind.isString =
      true ∧ t.Covers i := by
  unfold InString
  rcases tokenize source with e | tokens
  · constructor
    · rintro ⟨_, h, _⟩
      cases h
    · rintro ⟨_, ht, _⟩
      cases ht
  · constructor
    · rintro ⟨_, h, hex⟩
      cases h
      exact hex
    · intro hex
      exact ⟨tokens, rfl, hex⟩

instance {source : String} {i : Nat} : Decidable (InString source i) :=
  decidable_of_iff' _ inString_iff

lemma OpensComment.append {note rest : List Char} (h : OpensComment note) :
    OpensComment (note ++ rest) :=
  h.imp (·.trans (prefix_append note rest)) (·.trans (prefix_append note rest))

lemma IsRemark.isBlankLine {text : List Char} (h : IsRemark text) : IsBlankLine text := by
  obtain ⟨blanks, note, rfl, _, hblanks, hnote, hn⟩ := h
  exact ⟨blanks, note, rfl, hblanks, .inr hnote, hn⟩

namespace Mode

variable {mode : Mode} {c : Char} {blanks : List Char}

/-- The mode after a blank, where no token has begun. -/
def afterBlank (mode : Mode) (c : Char) : Mode :=
  match mode with
  | .lineStart width =>
    if c = ' ' then .lineStart (width + 1)
    else if c = '\t' then .lineStart (width + Scanner.tabWidth)
    else .between
  | mode => mode

/-- The mode after some blanks. -/
def afterBlanks (mode : Mode) (blanks : List Char) : Mode := blanks.foldl afterBlank mode

lemma afterBlanks_between : between.afterBlanks blanks = between := by
  induction blanks with
  | nil => rfl
  | cons c blanks ih => exact ih

lemma holds_afterBlank (h : mode.holds = false) : (mode.afterBlank c).holds = false := by
  cases mode with
  | lineStart width =>
    simp only [afterBlank]
    split
    · rfl
    · split <;> rfl
  | _ => exact h

lemma holds_afterBlanks (h : mode.holds = false) : (mode.afterBlanks blanks).holds = false := by
  induction blanks generalizing mode with
  | nil => exact h
  | cons c blanks ih => exact ih (holds_afterBlank h)

end Mode

namespace Token

variable {m m' : Displacement}

lemma moved_comp_moved : moved m' ∘ moved m = moved ⟨m.lines + m'.lines, m.offset + m'.offset⟩ := by
  funext t
  simp only [Function.comp_apply, moved, Position.moved, Nat.add_assoc]

lemma map_moved_comm {tokens : List Token} :
    (tokens.map (moved m)).map (moved m') = (tokens.map (moved m')).map (moved m) := by
  rw [map_map, map_map, moved_comp_moved, moved_comp_moved,
    Nat.add_comm m.lines, Nat.add_comm m.offset]

end Token

namespace Scanner

section Inert

variable {s s' : Scanner} {c : Char} {next : Option Char} {source front back : List Char}

/-- A character, or the end, with which no token goes on. -/
def Inert (next : Option Char) : Prop :=
  next = none ∨ next = some '\n' ∨ next = some ' ' ∨ next = some '\t'

lemma Inert.remark {text rest : List Char} (h : IsRemark text) : Inert (text ++ rest).head? := by
  obtain ⟨blanks, note, rfl, hne, hblanks, _, _⟩ := h
  obtain ⟨c, blanks, rfl⟩ := exists_cons_of_ne_nil hne
  rcases (forall_mem_cons.mp hblanks).1 with rfl | rfl
  · exact .inr (.inr (.inl rfl))
  · exact .inr (.inr (.inr rfl))

section

variable (h : Inert next)
include h

lemma Inert.isWordChar : next.any Text.isWordChar = false := by
  rcases h with rfl | rfl | rfl | rfl <;> decide +kernel

lemma Inert.isDigit : next.any Char.isDigit = false := by
  rcases h with rfl | rfl | rfl | rfl <;> rfl

lemma Inert.isNumeral : next.any (fun c => c.isDigit || c == '.') = false := by
  rcases h with rfl | rfl | rfl | rfl <;> rfl

lemma Inert.ne_equals : next ≠ some '=' := by
  rcases h with rfl | rfl | rfl | rfl <;> decide

lemma Inert.beginsComment : beginsComment c next = Scanner.beginsComment c none := by
  rcases h with rfl | rfl | rfl | rfl <;> rfl

lemma fresh_inert : s.fresh c next = s.fresh c none := by
  unfold fresh
  simp only [h.beginsComment, inWhole, inWord, h.isNumeral,
    h.isWordChar, h.ne_equals, Option.any_none, reduceCtorEq]

lemma react_inert : s.react c next = s.react c none := by
  unfold react
  cases s.mode <;> simp only [fresh_inert h, h.beginsComment,
    inWhole, inWord, inFraction, h.isNumeral, h.isWordChar, h.isDigit, Option.any_none]

end

/-- A scan can be cut where no token goes on. -/
lemma Scanning.split (h : Scanning source s) (hunread : s.unread = front ++ back)
    (hr : s.readAll (front ++ back) = (none, s')) (hback : Inert back.head?) :
    ∃ s1, Scanning source s1 ∧ s1.unread = back ∧ s1.readAll back = (none, s') ∧
      ∀ back', Inert back'.head? → s.readAll (front ++ back') = s1.readAll back' := by
  induction front generalizing s with
  | nil => exact ⟨s, h, hunread, hr, fun _ _ => rfl⟩
  | cons c front ih =>
    obtain ⟨s0, hreact, hr⟩ := readAll_cons_inv hr
    obtain ⟨s1, hs1, hunread1, hr1, hmore⟩ := ih (.step h hunread hreact) rfl hr
    refine ⟨s1, hs1, hunread1, hr1, fun back' hback' => ?_⟩
    have hreact' : s.react c (front ++ back').head? = (none, s0) := by
      cases front with
      | nil => exact (react_inert hback').trans ((react_inert hback).symm.trans hreact)
      | cons => exact hreact
    rw [cons_append, readAll_cons hreact', ← hmore back' hback']
    exact readAll_unread (s := s0.past c (front ++ back))

/-- No token is under way there, unless it is a string. -/
lemma not_holds_of_inert (hf : s.mode.Fits next) (hn : Inert next) (hs : s.mode.inString = false) :
    s.mode.holds = false := by
  cases hm : s.mode with
  | between | lineStart | comment => rfl
  | quoted | escaped =>
    rw [hm] at hs
    cases hs
  | word =>
    rw [hm] at hf
    cases hn.isWordChar.symm.trans hf
  | whole =>
    rw [hm] at hf
    cases hn.isNumeral.symm.trans hf
  | fraction =>
    rw [hm] at hf
    cases hn.isDigit.symm.trans hf
  | pair =>
    rw [hm] at hf
    exact absurd hf hn.ne_equals

lemma holds_of_inString {mode : Mode} (h : mode.inString = true) : mode.holds = true := by
  cases mode with
  | quoted | escaped => rfl
  | _ => cases h

lemma inString_of_not_holds {mode : Mode} (h : mode.holds = false) : mode.inString = false := by
  cases mode with
  | quoted | escaped => cases h
  | _ => rfl

end Inert

section Idle

variable {s : Scanner} {mode : Mode} {c : Char} {next : Option Char}
  {text rest blanks note : List Char} {k : Nat}

/-- The scanner so many characters further on in its line. -/
def idled (s : Scanner) (mode : Mode) (k : Nat) : Scanner :=
  { s with
    mode := mode, position := ⟨s.position.line, s.position.column + k, s.position.offset + k⟩ }

lemma readAll_idle (h : s.react c rest.head? = (none, { s with mode := mode })) (hc : c ≠ '\n') :
    s.readAll (c :: rest) = (s.idled mode 1).readAll rest := by
  have hposition : s.position.after c =
    ⟨s.position.line, s.position.column + 1, s.position.offset + 1⟩ := if_neg hc
  rw [readAll_cons h, past, hposition]
  exact readAll_unread (s := s.idled mode 1)

lemma idled_idled {mode' : Mode} : (s.idled mode 1).idled mode' k = s.idled mode' (k + 1) := by
  unfold idled
  simp only [Nat.add_assoc, Nat.add_comm 1 k]

lemma react_in_comment (hmode : s.mode = .comment) (hc : c ≠ '\n') :
    s.react c next = (none, { s with mode := .comment }) := by
  obtain ⟨unread, position, mode, blocks, emitted⟩ := s
  obtain rfl : mode = .comment := hmode
  exact if_neg hc

lemma ne_newline_of_blank (hc : c = ' ' ∨ c = '\t' ∨ c = '\r') : c ≠ '\n' := by
  rcases hc with rfl | rfl | rfl <;> decide

lemma react_blank (hs : s.mode.holds = false) (hc : c = ' ' ∨ c = '\t' ∨ c = '\r') :
    s.react c next = (none, { s with mode := s.mode.afterBlank c }) := by
  obtain ⟨unread, position, mode, blocks, emitted⟩ := s
  cases mode with
  | between => exact if_pos hc
  | lineStart width => rcases hc with rfl | rfl | rfl <;> rfl
  | comment => exact react_in_comment rfl (ne_newline_of_blank hc)
  | _ => cases hs

/-- Blanks are read without doing anything. -/
lemma readAll_blanks (hs : s.mode.holds = false)
    (hb : ∀ c ∈ blanks, c = ' ' ∨ c = '\t' ∨ c = '\r') :
    s.readAll (blanks ++ rest) =
      (s.idled (s.mode.afterBlanks blanks) blanks.length).readAll rest := by
  induction blanks generalizing s with
  | nil => rfl
  | cons c blanks ih =>
    obtain ⟨hc, hb⟩ := forall_mem_cons.mp hb
    have hmode : (s.idled (s.mode.afterBlank c) 1).mode.holds = false := Mode.holds_afterBlank hs
    rw [cons_append, readAll_idle (react_blank hs hc) (ne_newline_of_blank hc),
      ih hmode hb, idled_idled]
    rfl

/-- A comment begins. -/
lemma react_comment (hs : s.mode.holds = false) (h : beginsComment c next = true) (hc : c ≠ '\n') :
    s.react c next = (none, { s with mode := .comment }) := by
  have hblank : c ≠ ' ' ∧ c ≠ '\t' := by
    refine ⟨?_, ?_⟩ <;> rintro rfl <;> cases h
  cases hmode : s.mode with
  | between =>
    simp only [react, hmode]
    exact fresh_comment h
  | lineStart width =>
    simp only [react, hmode, hblank.1, hblank.2, h, or_true, if_true, if_false]
    exact fresh_comment h
  | comment => exact react_in_comment hmode hc
  | _ =>
    rw [hmode] at hs
    cases hs

/-- So are comments. -/
lemma readAll_comment (hmode : s.mode = .comment) (hnote : '\n' ∉ note) :
    s.readAll (note ++ rest) = (s.idled .comment note.length).readAll rest := by
  induction note generalizing s with
  | nil =>
    rw [length_nil, idled, ← hmode]
    rfl
  | cons c note ih =>
    have hc : c ≠ '\n' := fun hc => hnote (hc ▸ mem_cons_self)
    have hnote : '\n' ∉ note := fun hmem => hnote (mem_cons_of_mem c hmem)
    rw [cons_append, readAll_idle (react_in_comment hmode hc) hc, ih rfl hnote, idled_idled]
    rfl

/-- So are blanks with a comment. -/
lemma readAll_blankLine (h : IsBlankLine text) (hs : s.mode.holds = false) :
    ∃ mode, mode.holds = false ∧ ∀ rest, s.readAll (text ++ rest) =
      (s.idled mode text.length).readAll rest := by
  obtain ⟨blanks, note, rfl, hb, hnote, hn⟩ := h
  have hblanks (rest : List Char) :
      s.readAll (blanks ++ rest) =
        (s.idled (s.mode.afterBlanks blanks) blanks.length).readAll rest :=
    readAll_blanks hs fun c hc => (hb c hc).imp_right .inl
  have hmode : (s.mode.afterBlanks blanks).holds = false := Mode.holds_afterBlanks hs
  cases note with
  | nil =>
    refine ⟨s.mode.afterBlanks blanks, hmode, fun rest => ?_⟩
    rw [append_nil]
    exact hblanks rest
  | cons c note =>
    refine ⟨.comment, rfl, fun rest => ?_⟩
    have hc : c ≠ '\n' := fun hc => hn (hc ▸ mem_cons_self)
    have hn : '\n' ∉ note := fun hmem => hn (mem_cons_of_mem c hmem)
    have hopens : OpensComment (c :: note) := hnote.resolve_left (cons_ne_nil c note)
    have hbegins : beginsComment c (note ++ rest).head? = true := opensComment_iff.mpr hopens.append
    have hreact :=
      react_comment (s := s.idled (s.mode.afterBlanks blanks) blanks.length) hmode hbegins hc
    rw [append_assoc, hblanks, cons_append, readAll_idle hreact hc, readAll_comment rfl hn]
    simp only [idled, length_append, length_cons, Nat.add_assoc, Nat.add_comm 1]

end Idle

section Margins

variable {s s' : Scanner} {c : Char} {next : Option Char}

lemma inMargin_of_holds {mode : Mode} (h : mode.holds = true) : mode.inMargin = false := by
  cases mode with
  | lineStart => cases h
  | _ => rfl

lemma Begins.inMargin (h : s.Begins c next (none, s')) (hc : c ≠ '\n') :
    s'.mode.inMargin = false := by
  cases h with
  | newline hn => exact (hc hn).elim
  | hold hm _ => exact inMargin_of_holds hm
  | _ => rfl

lemma inMargin_of_inString {mode : Mode} (h : mode.inString = true) : mode.inMargin = false := by
  cases mode with
  | lineStart => cases h
  | _ => rfl

/-- Strings go on over line breaks. -/
lemma inString_react_newline (hfits : s.mode.Fits (some '\n')) (hs : s.mode.inString = true)
    (next : Option Char) :
    (s.react '\n' next).2.mode.inString = true := by
  cases hmode : s.mode with
  | quoted start quote read =>
    rw [hmode] at hfits
    simp only [react, hmode]
    rcases hfits with rfl | rfl <;> rfl
  | escaped =>
    simp only [react, hmode]
    rfl
  | _ =>
    rw [hmode] at hs
    cases hs

/-- No line begins but after a break outside strings. -/
lemma inMargin_react (hfits : s.mode.Fits (some c)) (hmargin : s.mode.inMargin = false)
    (hc : c = '\n' → s.mode.inString = true) (h : s.react c next = (none, s')) :
    s'.mode.inMargin = false := by
  by_cases hn : c = '\n'
  · subst hn
    have hstring := inString_react_newline hfits (hc rfl) next
    rw [h] at hstring
    exact inMargin_of_inString hstring
  · have hr : s.Reacts c next (none, s') := h ▸ react_reacts hfits
    cases hr with
    | margin hm | measure hm _ _ =>
      rw [hm] at hmargin
      cases hmargin
    | comment => exact hmargin
    | fresh _ hb => exact hb.inMargin hn
    | hold _ hm _ => exact inMargin_of_holds hm
    | token => rfl
    | tokenFresh _ _ hb => exact hb.inMargin hn

end Margins

section Strings

variable {s s' : Scanner} {source text read : List Char} {start : Position} {quote : Char}
  {tokens : List Token}

/-- A string under way becomes a token over all of it. -/
lemma readAll_string (hs : s.mode = .quoted start quote read ∨ s.mode = .escaped start quote read)
    (h : s.readAll text = (none, s')) (hend : s'.mode.inString = false) :
    ∃ t ∈ s'.emitted, t.kind.isString = true ∧ t.position = start ∧
    start.offset + 1 + read.length < t.stop := by
  induction text generalizing s read with
  | nil =>
    obtain ⟨_, rfl⟩ := Prod.mk.inj h
    change s.mode.inString = false at hend
    rcases hs with hs | hs <;> rw [hs] at hend <;> cases hend
  | cons c text ih =>
    obtain ⟨s1, hreact, h⟩ := readAll_cons_inv h
    have hmore (hs1 : s1.mode = .quoted start quote (c :: read) ∨
      s1.mode = .escaped start quote (c :: read)) :
        ∃ t ∈ s'.emitted, t.kind.isString = true ∧ t.position = start ∧
        start.offset + 1 + read.length < t.stop := by
      obtain ⟨t, ht, hk, hp, hstop⟩ := ih (s := s1.past c text) hs1 h
      rw [length_cons] at hstop
      exact ⟨t, ht, hk, hp, by omega⟩
    rcases hs with hs | hs
    · simp only [react, hs] at hreact
      split at hreact
      · cases hreact
        have hfits : Mode.between.Fits text.head? := trivial
        obtain ⟨out, hout⟩ := readAll_emitted hfits h
        refine ⟨_, hout ▸ mem_append_right out mem_cons_self, rfl, rfl, ?_⟩
        rw [stop_ofList, length_append, length_cons, length_reverse, length_singleton]
        omega
      split at hreact
      · cases hreact
        exact hmore (.inr rfl)
      · cases hreact
        exact hmore (.inl rfl)
    · simp only [react, hs] at hreact
      cases hreact
      exact hmore (.inl rfl)

/-- What a scan has read is woven from its tokens. -/
lemma Scanning.weaves (h : Scanning source s) :
    ∃ front held, s.Stands front held s.unread ∧ front ++ held ++ s.unread = source ∧
      ∀ more, Woven front (held ++ s.unread) more →
      Woven [] source (s.emitted.reverse ++ more) := by
  induction h with
  | start => exact ⟨[], [], ⟨rfl, rfl⟩, rfl, fun _ h => h⟩
  | @step s s' c rest h hunread hreact ih =>
    obtain ⟨front, held, hs, hsource, hweave⟩ := ih
    rw [hunread] at hs hsource hweave
    have hfits := h.tidy.1
    rw [hunread] at hfits
    have hr : s.Reacts c rest.head? (none, s') := hreact ▸ react_reacts hfits
    obtain ⟨out, front', held', hout, hfront, hkeeps, hmore⟩ := react_weaves hs hreact
    refine ⟨front', held', ⟨?_, hkeeps⟩, ?_, fun more hw => ?_⟩
    · rw [hfront, Position.behind_concat, ← hs.position, ← hr.extends.position]
      rfl
    · rw [hfront, append_assoc _ [c]]
      exact hsource
    · have hall := hweave _ (hmore more hw)
      rw [← append_assoc] at hall
      change Woven [] source (s'.emitted.reverse ++ more)
      rw [hout, reverse_append, reverse_reverse]
      exact hall

lemma Scanning.stands (h : Scanning source s) :
    ∃ front held, s.Stands front held s.unread ∧ front ++ held ++ s.unread = source := by
  obtain ⟨front, held, hs, hsource, _⟩ := h.weaves
  exact ⟨front, held, hs, hsource⟩

/-- Tokens that a scan ends with. -/
def Scans (s : Scanner) (text : List Char) (tokens : List Token) : Prop :=
  ∃ s', s.readAll text = (none, s') ∧ s'.finish.1 = .ok tokens

/-- The string under way covers the place. -/
lemma Scanning.covers (h : Scanning source s) (hscan : s.Scans text tokens)
    (hs : s.mode.inString = true) :
    ∃ t ∈ tokens, t.kind.isString = true ∧ t.Covers s.position.offset := by
  obtain ⟨s', hread, hfinish⟩ := hscan
  obtain ⟨hend, rfl⟩ := finish_iff.mp hfinish
  obtain ⟨front, held, ⟨hposition, hkeeps⟩, _⟩ := h.stands
  obtain ⟨start, quote, read, hmode⟩ : ∃ start quote read, s.mode = .quoted start quote read ∨
      s.mode = .escaped start quote read := by
    cases hmode : s.mode with
    | quoted start quote read => exact ⟨start, quote, read, .inl rfl⟩
    | escaped start quote read => exact ⟨start, quote, read, .inr rfl⟩
    | _ =>
      rw [hmode] at hs
      cases hs
  obtain ⟨rfl, rfl⟩ : start = .behind front ∧ held = quote :: read.reverse := by
    rcases hmode with hmode | hmode <;> rw [hmode] at hkeeps <;> exact hkeeps
  obtain ⟨t, ht, hw, hp, hstop⟩ := readAll_string hmode hread hend
  have hoffset : s.position.offset = (Position.behind front).offset + 1 + read.length := by
    rw [hposition]
    simp only [Position.behind, length_append, length_cons, length_reverse]
    omega
  refine ⟨t, mem_append_left _ (mem_reverse.mpr ht), hw, ?_, hoffset ▸ hstop⟩
  rw [hp, hoffset, Nat.add_assoc]
  exact Nat.le_add_right _ _

end Strings

section Breaks

variable {s : Scanner} {m : Displacement} {before tokens : List Token} {u text : List Char}

lemma scans_congr {t : Scanner} {text' : List Char} (h : s.readAll text = t.readAll text') :
    s.Scans text tokens ↔ t.Scans text' tokens := by
  unfold Scans
  rw [h]

/-- Scans can be moved. -/
lemma scans_moved : (s.moved m before u).Scans text tokens ↔
    ∃ out, s.Scans text out ∧ tokens = before.reverse ++ out.map (Token.moved m) := by
  constructor
  · rintro ⟨s', hread, hfinish⟩
    rw [readAll_moved] at hread
    rcases hs : s.readAll text with ⟨_ | e, z⟩ <;> rw [hs] at hread
    · obtain ⟨_, rfl⟩ := Prod.mk.inj hread
      have hstring : z.mode.inString = false := by
        rw [← Mode.inString_moved]
        exact (finish_iff.mp hfinish).1
      have hz : z.finish.1 = .ok (z.emitted.reverse ++ z.closing) := finish_iff.mpr ⟨hstring, rfl⟩
      exact ⟨_, ⟨z, hs, hz⟩, Except.ok.inj (hfinish.symm.trans (finish_moved hz))⟩
    · cases (Prod.mk.inj hread).1
  · rintro ⟨out, ⟨z, hread, hfinish⟩, rfl⟩
    refine ⟨z.moved m before z.unread, ?_, finish_moved hfinish⟩
    rw [readAll_moved, hread]
    rfl

/-- The scanner at the beginning of a line, inside some blocks. -/
def onLine (blocks : List Nat) : Scanner := { start [] with mode := .lineStart 0, blocks := blocks }

/-- The token of a line break. -/
def lineBreak (position : Position) : Token := ⟨.newline, "\n", position⟩

/-- After a line break a scan goes on as on a line of its own. -/
lemma scans_break (hs : s.mode.holds = false) : s.Scans ('\n' :: text) tokens ↔
    ∃ out, (onLine s.blocks).Scans text out ∧ tokens = s.emitted.reverse ++
      lineBreak s.position :: out.map (Token.moved ⟨s.position.line, s.position.offset + 1⟩) := by
  have hline : s.atLineStart.past '\n' text =
      (onLine s.blocks).moved ⟨s.position.line, s.position.offset + 1⟩
        (lineBreak s.position :: s.emitted) text := by
    have hposition :
        s.position.after '\n' = Position.start.moved ⟨s.position.line, s.position.offset + 1⟩ := by
      simp only [Position.after, if_true, Position.moved,
        Position.start, Nat.zero_add, Nat.add_comm 1]
    simp only [past, atLineStart, moved, onLine, start, ← hposition]
    rfl
  rw [scans_congr ((readAll_cons (react_newline_of_not_holds hs)).trans
    (congrArg (readAll · text) hline)), scans_moved]
  simp only [reverse_cons, append_assoc, cons_append, nil_append]

end Breaks

section Texts

variable {source : String} {tokens : List Token} {before after back text : List Char}

/-- A scan of any text that begins like this comes to this scanner. -/
def Reached (before : List Char) (s : Scanner) : Prop :=
  ∀ back tokens, Inert back.head? → s.Scans back tokens →
  Colloquy.tokenize (String.ofList (before ++ back)) = .ok tokens

/-- A scan of a text can be cut where no token goes on. -/
lemma tokenize_split (h : Colloquy.tokenize source = .ok tokens)
    (hsource : source.toList = before ++ back) (hback : Inert back.head?) :
    ∃ s, Scanning source.toList s ∧ s.unread = back ∧ s.position = .behind before ∧
    s.Scans back tokens ∧ Reached before s := by
  obtain ⟨s', hread, hfinish⟩ := tokenize_iff.mp h
  have hunread : (start source.toList).unread = before ++ back := hsource
  have hread : (start source.toList).readAll (before ++ back) = (none, s') := hsource ▸ hread
  obtain ⟨s, hs, hrest, hread, hmore⟩ := Scanning.start.split hunread hread hback
  obtain ⟨front, held, hstands, hall⟩ := hs.stands
  have hfront : front ++ held = before := by
    rw [hrest, hsource] at hall
    exact append_cancel_right hall
  refine ⟨s, hs, hrest, hfront ▸ hstands.position, ⟨s', hread, hfinish⟩, ?_⟩
  rintro back' tokens' hback' ⟨z, hz, hzfinish⟩
  refine tokenize_iff.mpr ⟨z, ?_, hzfinish⟩
  rw [String.toList_ofList]
  calc (start (before ++ back')).readAll (before ++ back')
      = (start source.toList).readAll (before ++ back') := readAll_unread (s := start source.toList)
    _ = s.readAll back' := hmore back' hback'
    _ = (none, z) := hz

/-- A scan is outside tokens at a line break outside strings. -/
lemma tokenize_break (h : Colloquy.tokenize source = .ok tokens)
    (hsource : source.toList = before ++ '\n' :: after) (hout : ¬ InString source before.length) :
    ∃ s : Scanner, s.mode.holds = false ∧ s.position = .behind before ∧
    s.Scans ('\n' :: after) tokens ∧ Reached before s := by
  have hinert : Inert ('\n' :: after).head? := .inr (.inl rfl)
  obtain ⟨s, hs, hunread, hposition, hscans, hreached⟩ := tokenize_split h hsource hinert
  have hoffset : s.position.offset = before.length := congrArg Position.offset hposition
  have hstring : s.mode.inString = false := by
    refine Bool.eq_false_iff.mpr fun hstring => hout ⟨tokens, h, ?_⟩
    rw [← hoffset]
    exact hs.covers hscans hstring
  exact ⟨s, not_holds_of_inert hs.tidy.1 (hunread ▸ hinert) hstring, hposition, hscans, hreached⟩

/-- A break in a string is covered. -/
lemma Scanning.inString_break {s : Scanner} (h : Scanning source.toList s)
    (hunread : s.unread = '\n' :: after) (htokens : Colloquy.tokenize source = .ok tokens)
    (hscans : s.Scans ('\n' :: after) tokens) :
    InString source s.position.offset ↔ s.mode.inString = true := by
  refine ⟨fun hin => ?_, fun hs => ⟨tokens, htokens, h.covers hscans hs⟩⟩
  obtain ⟨_, hrow, t, ht, hk, hcovers⟩ := hin
  obtain rfl := Except.ok.inj (htokens.symm.trans hrow)
  cases hs : s.mode.inString with
  | true => rfl
  | false =>
    have hholds : s.mode.holds = false :=
      not_holds_of_inert h.tidy.1 (by rw [hunread]; exact .inr (.inl rfl)) hs
    obtain ⟨out, _, rfl⟩ := (scans_break hholds).mp hscans
    have hbreak : (lineBreak s.position).Covers s.position.offset :=
      ⟨Nat.le_refl _, by simp [Token.stop, lineBreak]⟩
    rw [(tokenize_woven htokens).faithful.eq_of_covers ht
      (mem_append_right _ mem_cons_self) hcovers hbreak] at hk
    cases hk

section

variable (h : Colloquy.tokenize source = .ok tokens)
  (hsource : source.toList = before ++ '\n' :: after)
  (hout : ¬ InString source before.length)
include h hsource hout

/-- A blank line moves down the tokens after it. -/
lemma tokenize_blankLine (hline : IsBlankLine text) :
    ∃ front rest p, tokens = front ++ lineBreak (.behind before) :: rest ∧
      Colloquy.tokenize (String.ofList (before ++ '\n' :: (text ++ '\n' :: after))) =
        .ok (front ++ lineBreak (.behind before) :: lineBreak p ::
          rest.map (Token.moved ⟨1, text.length + 1⟩)) := by
  obtain ⟨s, hs, hposition, hscans, hreached⟩ := tokenize_break h hsource hout
  obtain ⟨out, hscan, rfl⟩ := (scans_break hs).mp hscans
  -- the blank line is read at the margin, inside the same blocks
  obtain ⟨mode, hmode, hidle⟩ := readAll_blankLine (s := onLine s.blocks) hline rfl
  have hnext :=
    (scans_break (s := (onLine s.blocks).idled mode text.length) hmode).mpr ⟨out, hscan, rfl⟩
  have hall := (scans_break hs).mpr ⟨_, (scans_congr (hidle _)).mpr hnext, rfl⟩
  rw [← hposition]
  refine ⟨s.emitted.reverse, _,
    ((onLine s.blocks).idled mode text.length).position.moved
      ⟨s.position.line, s.position.offset + 1⟩, rfl,
    (hreached _ _ (.inr (.inl rfl)) hall).trans ?_⟩
  have hoffset : ((onLine s.blocks).idled mode text.length).position.offset = text.length :=
    Nat.zero_add _
  rw [map_moved_comm, hoffset]
  rfl

/-- A remark before a line break moves no line. -/
lemma tokenize_remark (hremark : IsRemark text) :
    ∃ front rest p, p.line = (Position.behind before).line ∧
    tokens = front ++ lineBreak (.behind before) :: rest ∧
      Colloquy.tokenize (String.ofList (before ++ (text ++ '\n' :: after))) =
        .ok (front ++ lineBreak p :: rest.map (Token.moved ⟨0, text.length⟩)) := by
  obtain ⟨s, hs, hposition, hscans, hreached⟩ := tokenize_break h hsource hout
  obtain ⟨out, hscan, rfl⟩ := (scans_break hs).mp hscans
  obtain ⟨mode, hmode, hidle⟩ := readAll_blankLine hremark.isBlankLine hs
  have hnext := (scans_break (s := s.idled mode text.length) hmode).mpr ⟨out, hscan, rfl⟩
  rw [← hposition]
  refine ⟨s.emitted.reverse, _, (s.idled mode text.length).position, rfl, rfl,
    (hreached _ _ (.remark hremark) ((scans_congr (hidle _)).mpr hnext)).trans ?_⟩
  rw [map_map, moved_comp_moved]
  simp only [idled, Nat.add_zero, Nat.add_right_comm _ 1]

end

/-- Nor does one at the end. -/
lemma tokenize_remark_end (h : Colloquy.tokenize source = .ok tokens) (hremark : IsRemark text) :
    ∃ front rest p, rest ≠ [] ∧ (∀ t ∈ rest, t.line = p.line) ∧ tokens = front ++ rest ∧
      Colloquy.tokenize (String.ofList (source.toList ++ text)) =
        .ok (front ++ rest.map fun t => { t with position := p }) := by
  obtain ⟨s, hs, hunread, _, ⟨s', hread, hfinish⟩, hreached⟩ :=
    tokenize_split h (append_nil _).symm (.inl rfl)
  obtain ⟨_, rfl⟩ := Prod.mk.inj hread
  obtain ⟨hstring, rfl⟩ := finish_iff.mp hfinish
  have hholds : s.mode.holds = false :=
    not_holds_of_inert hs.tidy.1 (by rw [hunread]; exact .inl rfl) hstring
  obtain ⟨mode, hmode, hidle⟩ := readAll_blankLine hremark.isBlankLine hholds
  have hend : (s.idled mode text.length).Scans []
      (s.emitted.reverse ++ (s.idled mode text.length).closing) :=
    ⟨_, rfl, finish_iff.mpr ⟨inString_of_not_holds hmode, rfl⟩⟩
  have hinert : Inert (text ++ []).head? := .remark hremark
  have hall := (scans_congr (hidle [])).mpr hend
  rw [append_nil] at hinert hall
  refine ⟨s.emitted.reverse, s.closing, (s.idled mode text.length).position,
    by simp [closing], fun t ht => ?_, rfl, (hreached _ _ hinert hall).trans ?_⟩
  · rcases mem_append.mp ht with ht | ht
    · rw [(mem_replicate.mp ht).2]
      rfl
    · rw [mem_singleton.mp ht]
      rfl
  · simp only [closing, map_append, map_replicate]
    rfl

end Texts

end Scanner

end Colloquy
