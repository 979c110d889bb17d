import Colloquy.Proofs.Grammar.Padding
import Mathlib.Order.Monotone.Basic

/-!
# Other margins

The lines of a text get other margins, wider ones to wider ones. A line is only compared with the
widths of open blocks, so the blocks stay: a scanner of the new text keeps `Beside` one of the old.
Lines that begin inside a string keep their blanks.
-/

namespace Colloquy

open Scanner List

/-- The width of a margin with one more blank in it. -/
def widened (width : Nat) (c : Char) : Option Nat :=
  if c = ' ' then some (width + 1) else if c = '\t' then some (width + tabWidth) else none

/-- What is written for a margin, if there is one. -/
def spacesFor (f : Nat → Nat) : Option Nat → List Char
  | none => []
  | some width => List.replicate (f width) ' '

/-- A text from some offset on with other margins. At the beginning of a line, `margin` is the width
of the blanks that have been read and left out; the new margin is written before the first other
character. No line begins after a break `inside` a string. -/
def reindented (f : Nat → Nat) (inside : Nat → Bool) : Nat → Option Nat → List Char → List Char
  | _, margin, [] => spacesFor f margin
  | i, margin, c :: rest =>
    match margin.bind (widened · c) with
    | some width => reindented f inside (i + 1) (some width) rest
    | none => spacesFor f margin ++
        c :: reindented f inside (i + 1) (if c = '\n' ∧ inside i = false then some 0 else none) rest

/-- The text with as many spaces in front of a line as a function gives for its margin. A line that
begins inside a string has none. -/
def reindent (f : Nat → Nat) (source : String) : String :=
  String.ofList (reindented f (fun i => decide (InString source i)) 0 (some 0) source.toList)

example : reindent (2 * ·) "  if x:\n\tsay 'a\n b'\n \n" =
    "    if x:\n        say 'a\n b'\n  \n" := by decide +kernel

/-- The place, known only up to its line. -/
def Position.coarse (p : Position) : Position := ⟨p.line, 0, 0⟩

namespace Scanner

section Spaces

variable {s : Scanner} {rest : List Char} {n : Nat}

lemma afterBlanks_spaces {width : Nat} :
    (Mode.lineStart width).afterBlanks (List.replicate n ' ') = .lineStart (width + n) := by
  induction n generalizing width with
  | zero => rfl
  | succ n ih =>
    rw [replicate_succ, ← Nat.succ_add_eq_add_succ]
    exact ih

lemma readAll_spaces (hs : s.mode.holds = false) : s.readAll (List.replicate n ' ' ++ rest) =
    (s.idled (s.mode.afterBlanks (List.replicate n ' ')) n).readAll rest := by
  rw [readAll_blanks hs fun c hc => .inl (mem_replicate.mp hc).2, length_replicate]

end Spaces

section Beside

variable {f : Nat → Nat} {s s' t t' : Scanner} {c : Char} {next : Option Char} {width : Nat}

/-- Two scanners at the same line with the same tokens; the blocks of the second have the new
widths. -/
structure Beside (f : Nat → Nat) (s t : Scanner) : Prop where
  line : t.position.line = s.position.line
  blocks : t.blocks = s.blocks.map f
  emitted : t.emitted.map Token.sight = s.emitted.map Token.sight

lemma sight_placed {out : List Token} :
    (out.map (Token.placed .coarse)).map Token.sight = out.map Token.sight := by
  rw [map_map]
  rfl

lemma Beside.together (h : Beside f s t) (hs : Together .coarse s t s' t') : Beside f s' t' where
  line := (Position.mk.inj hs.abreast.position).1
  blocks := by rw [hs.blocks.1, hs.blocks.2, h.blocks]
  emitted := by
    obtain ⟨out, out', hout, hout', hsame⟩ := hs.emitted
    rw [hout, hout', map_append, map_append, h.emitted, ← sight_placed, hsame, sight_placed]

lemma Beside.past {rest rest' : List Char} (h : Beside f s t) :
    Beside f (s.past c rest) (t.past c rest') where
  line := by
    change (t.position.after c).line = (s.position.after c).line
    unfold Position.after
    split
    · exact congrArg (· + 1) h.line
    · exact h.line
  blocks := h.blocks
  emitted := h.emitted

/-- Both scanners open and close the same blocks. -/
lemma Beside.measure (hf : StrictMono f) (hzero : f 0 = 0) (h : Beside f s t) :
    Beside f (s.measure width) (t.measure (f width)) := by
  have hhead : (s.blocks.map f).headD 0 = f (s.blocks.headD 0) := by
    cases s.blocks with
    | nil => exact hzero.symm
    | cons => rfl
  have hwider : (fun w => decide (f width < w)) ∘ f = fun w => decide (width < w) := by
    funext w
    exact decide_eq_decide.mpr hf.lt_iff_lt
  unfold Scanner.measure
  rw [h.blocks, hhead]
  by_cases hlt : s.blocks.headD 0 < width
  · rw [if_pos hlt, if_pos (hf hlt)]
    refine ⟨h.line, rfl, ?_⟩
    simp only [emit, map_cons, Token.sight, Token.line, h.line]
    exact congrArg _ h.emitted
  · rw [if_neg hlt, if_neg (hf.lt_iff_lt.not.mpr hlt),
      emitDedents_eq, emitDedents_eq, takeWhile_map,
      dropWhile_map, hwider, length_map]
    refine ⟨h.line, rfl, ?_⟩
    simp only [map_append, map_replicate, Token.sight, Token.line, h.line]
    exact congrArg _ h.emitted

/-- What two scanners are amid when the second has read the new margin. -/
inductive Level (f : Nat → Nat) : Mode → Mode → Prop where
  | inside {a b} :
    a.inMargin = false →
    b.placed .coarse = a.placed .coarse →
    Level f a b
  | margin {w} :
    Level f (.lineStart w) (.lineStart (f w))

lemma Level.inString {a b : Mode} (h : Level f a b) : b.inString = a.inString := by
  cases h with
  | inside _ hsame =>
    have hplaced {mode : Mode} : (mode.placed Position.coarse).inString = mode.inString := by
      cases mode <;> rfl
    rw [← hplaced, hsame, hplaced]
  | margin => rfl

lemma Level.holds {a b : Mode} (h : Level f a b) : b.holds = a.holds := by
  cases h with
  | inside _ hsame =>
    have hplaced {mode : Mode} : (mode.placed Position.coarse).holds = mode.holds := by
      cases mode <;> rfl
    rw [← hplaced, hsame, hplaced]
  | margin => rfl

lemma coarse_of_line {p q : Position} (h : q.line = p.line) : q.coarse = p.coarse := by
  unfold Position.coarse
  rw [h]

/-- Both read a character outside margins that ends no line. -/
lemma Level.step (hf : StrictMono f) (hzero : f 0 = 0) (hb : Beside f s t)
    (hl : Level f s.mode t.mode) (hfits : s.mode.Fits (some c))
    (hc : c = '\n' → s.mode.inString = true) (hblank : s.mode.inMargin = true → c ≠ ' ' ∧ c ≠ '\t')
    (h : s.react c next = (none, s')) :
    ∃ t', t.react c next = (none, t') ∧ Beside f s' t' ∧ s'.mode.inMargin = false ∧
      t'.mode.placed .coarse = s'.mode.placed .coarse := by
  generalize hs : s.mode = a at hl
  generalize ht : t.mode = b at hl
  cases hl with
  | inside hmargin hsame =>
    subst hs ht
    obtain ⟨t', hreact, htogether⟩ := react_together ⟨coarse_of_line hb.line, hsame⟩ hmargin h
    exact ⟨t', hreact, hb.together htogether, inMargin_react hfits hmargin hc h,
      htogether.abreast.mode⟩
  | @margin w =>
    obtain ⟨hspace, htab⟩ := hblank (hs ▸ rfl)
    have hn : c ≠ '\n' := by
      intro hn
      have := hc hn
      rw [hs] at this
      cases this
    have hfresh {s t : Scanner} (hb : Beside f s t) (h : s.fresh c next = (none, s')) :
        ∃ t', t.fresh c next = (none, t') ∧ Beside f s' t' ∧ s'.mode.inMargin = false ∧
          t'.mode.placed .coarse = s'.mode.placed .coarse := by
      obtain ⟨t', ht', htogether⟩ := fresh_together (coarse_of_line hb.line) h
      have hbegins : s.Begins c next (none, s') := h ▸ fresh_begins
      exact ⟨t', ht', hb.together htogether, hbegins.inMargin hn, htogether.abreast.mode⟩
    simp only [react, hs, hspace, htab, if_false] at h
    simp only [react, ht, hspace, htab, if_false]
    by_cases hbare : c = '\n' ∨ c = '\r' ∨ beginsComment c next = true
    · rw [if_pos hbare] at h ⊢
      exact hfresh hb h
    · rw [if_neg hbare] at h ⊢
      exact hfresh (hb.measure hf hzero) h

end Beside

section Runs

variable {f : Nat → Nat} {source : String} {tokens : List Token} {s t z : Scanner}
  {margin : Option Nat} {text : List Char} {c : Char} {width : Nat}

/-- What two scanners are amid while the second awaits the end of the old margin. -/
inductive Awaiting : Option Nat → Mode → Mode → Prop where
  | inside {a b} :
    a.inMargin = false →
    b.placed .coarse = a.placed .coarse →
    Awaiting none a b
  | first {w} :
    Awaiting (some w) .between .between
  | margin {w} :
    Awaiting (some w) (.lineStart w) (.lineStart 0)

/-- The second scanner reads the new margin. -/
lemma Awaiting.catch_up (hb : Beside f s t) (hm : Awaiting margin s.mode t.mode) :
    ∃ t', Beside f s t' ∧ Level f s.mode t'.mode ∧
      ∀ rest, t.readAll (spacesFor f margin ++ rest) = t'.readAll rest := by
  generalize hs : s.mode = a at hm
  generalize ht : t.mode = b at hm
  cases hm with
  | inside hmargin hsame => exact ⟨t, hb, .inside hmargin (ht ▸ hsame), fun rest => rfl⟩
  | @first w =>
    refine ⟨t.idled .between (f w), ⟨hb.line, hb.blocks, hb.emitted⟩,
      .inside rfl rfl, fun rest => ?_⟩
    rw [spacesFor, readAll_spaces (ht ▸ rfl), ht, Mode.afterBlanks_between]
  | @margin w =>
    refine ⟨t.idled (.lineStart (f w)) (f w), ⟨hb.line, hb.blocks, hb.emitted⟩,
      .margin, fun rest => ?_⟩
    rw [spacesFor, readAll_spaces (ht ▸ rfl), ht, afterBlanks_spaces, Nat.zero_add]

lemma widened_some {w : Nat} (h : widened w c = some width) :
    c = ' ' ∧ width = w + 1 ∨ c = '\t' ∧ width = w + tabWidth := by
  unfold widened at h
  split at h
  · exact .inl ⟨‹_›, (Option.some.inj h).symm⟩
  split at h
  · exact .inr ⟨‹_›, (Option.some.inj h).symm⟩
  · cases h

/-- Both measure a blank. -/
lemma Awaiting.react_blank (hm : Awaiting margin s.mode t.mode)
    (hw : margin.bind (widened · c) = some width) :
    ∃ mode, (∀ next, s.react c next = (none, { s with mode := mode })) ∧
    Awaiting (some width) mode t.mode ∧ c ≠ '\n' := by
  obtain ⟨unread, position, mode, blocks, emitted⟩ := s
  generalize t.mode = b at hm
  cases hm with
  | inside => cases hw
  | first =>
    rcases widened_some hw with ⟨rfl, _⟩ | ⟨rfl, _⟩ <;>
      exact ⟨.between, fun _ => rfl, .first, by decide⟩
  | @margin w =>
    rcases widened_some hw with ⟨rfl, rfl⟩ | ⟨rfl, rfl⟩
    · exact ⟨.lineStart (w + 1), fun _ => rfl, .margin, by decide⟩
    · exact ⟨.lineStart (w + tabWidth), fun _ => rfl, .margin, by decide⟩

lemma Awaiting.not_blank (hm : Awaiting margin s.mode t.mode)
    (hw : margin.bind (widened · c) = none) (hs : s.mode.inMargin = true) : c ≠ ' ' ∧ c ≠ '\t' := by
  generalize s.mode = a at hm hs
  generalize t.mode = b at hm
  cases hm with
  | inside hmargin _ => cases hmargin.symm.trans hs
  | first => cases hs
  | margin => constructor <;> rintro rfl <;> cases hw

lemma Beside.atLineStart (h : Beside f s t) : Beside f s.atLineStart t.atLineStart where
  line := h.line
  blocks := h.blocks
  emitted := by
    simp only [Scanner.atLineStart, map_cons, Token.sight, Token.line, h.line]
    exact congrArg _ h.emitted

lemma head?_reindented {inside : Nat → Bool} {i : Nat} :
    (reindented f inside i none text).head? = text.head? := by
  cases text <;> rfl

/-- Both scanners come to the end of their texts beside each other. -/
lemma Awaiting.readAll (hf : StrictMono f) (hzero : f 0 = 0)
    (htokens : Colloquy.tokenize source = .ok tokens) (h : Scanning source.toList s)
    (hunread : s.unread = text) (hread : s.readAll text = (none, z))
    (hfinish : z.finish.1 = .ok tokens) (hb : Beside f s t) (hm : Awaiting margin s.mode t.mode) :
    ∃ z', t.readAll (reindented f (fun i =>
    decide (InString source i)) s.position.offset margin text) = (none, z') ∧
      Beside f z z' ∧ z'.mode.inString = false := by
  induction text generalizing s t margin with
  | nil =>
    obtain ⟨_, rfl⟩ := Prod.mk.inj hread
    obtain ⟨t', hb', hl, hcatch⟩ := hm.catch_up hb
    refine ⟨{ t' with unread := [] }, ?_, ⟨hb'.line, hb'.blocks, hb'.emitted⟩, ?_⟩
    · have hend := hcatch []
      rw [append_nil] at hend
      exact hend
    · have hstring : s.mode.inString = false := (finish_iff.mp hfinish).1
      exact hl.inString.trans hstring
  | cons c rest ih =>
    obtain ⟨s1, hreact, hread'⟩ := readAll_cons_inv hread
    have hnext : Scanning source.toList (s1.past c rest) := .step h hunread hreact
    have hfits : s.mode.Fits (some c) := by
      have hfits := h.tidy.1
      rw [hunread] at hfits
      exact hfits
    have hr : s.Reacts c rest.head? (none, s1) := hreact ▸ react_reacts hfits
    have hoffset : (s1.past c rest).position.offset = s.position.offset + 1 := by
      change (s1.position.after c).offset = _
      rw [hr.extends.position, Position.after]
      split <;> rfl
    unfold reindented
    cases hw : margin.bind (widened · c) with
    | some width =>
      obtain ⟨mode, hblank, hm', hc⟩ := hm.react_blank hw
      obtain ⟨_, rfl⟩ := Prod.mk.inj (hreact.symm.trans (hblank _))
      have hline : (s.position.after c).line = s.position.line := by rw [Position.after, if_neg hc]
      have hb' : Beside f ({ s with mode := mode }.past c rest) t :=
        ⟨hb.line.trans hline.symm, hb.blocks, hb.emitted⟩
      rw [← hoffset]
      exact ih hnext rfl hread' hb' hm'
    | none =>
      obtain ⟨t1, hb1, hl, hcatch⟩ := hm.catch_up hb
      dsimp only
      rw [hcatch, ← hoffset]
      by_cases hbreak : c = '\n' ∧ decide (InString source s.position.offset) = false
      · rw [if_pos hbreak]
        obtain ⟨rfl, hout⟩ := hbreak
        have hstring : s.mode.inString = false := by
          have hout :=
            (h.inString_break hunread htokens ⟨z, hread, hfinish⟩).not.mp (of_decide_eq_false hout)
          exact Bool.eq_false_iff.mpr hout
        have hholds := not_holds_of_inert hfits (.inr (.inl rfl)) hstring
        obtain ⟨_, rfl⟩ := Prod.mk.inj (hreact.symm.trans (react_newline_of_not_holds hholds))
        rw [readAll_cons (react_newline_of_not_holds (hl.holds.trans hholds))]
        exact ih hnext rfl hread' hb1.atLineStart.past .margin
      · rw [if_neg hbreak]
        have hc : c = '\n' → s.mode.inString = true := by
          rintro rfl
          rw [← h.inString_break hunread htokens ⟨z, hread, hfinish⟩]
          simpa using hbreak
        obtain ⟨t', hreact', hb', hmargin, hsame⟩ :=
          hl.step hf hzero hb1 hfits hc (hm.not_blank hw) hreact
        rw [readAll_cons (head?_reindented.symm ▸ hreact')]
        exact ih hnext rfl hread' hb'.past (.inside hmargin hsame)

end Runs

lemma Beside.closing {f : Nat → Nat} {s t : Scanner} (h : Beside f s t) :
    t.closing.map Token.sight = s.closing.map Token.sight := by
  simp only [Scanner.closing, map_append, map_replicate,
    map_cons, Token.sight, Token.line, h.line, h.blocks, length_map]

end Scanner

section Texts

variable {f : Nat → Nat} {source source' : String} {tokens tokens' : List Token}

/-- A text with other margins has the same tokens. -/
lemma tokenize_reindent (hf : StrictMono f) (hzero : f 0 = 0) (h : tokenize source = .ok tokens) :
    ∃ again, tokenize (reindent f source) = .ok again ∧
    again.map Token.sight = tokens.map Token.sight := by
  obtain ⟨z, hread, hfinish⟩ := tokenize_iff.mp h
  have hb (text : List Char) : Beside f (start source.toList) (start text) := ⟨rfl, rfl, rfl⟩
  obtain ⟨z', hread', hb', hstring⟩ :=
    Awaiting.readAll hf hzero h .start rfl hread hfinish (hb (reindent f source).toList)
    (.first (w := 0))
  refine ⟨_, tokenize_iff.mpr ⟨z', ?_, finish_iff.mpr ⟨hstring, rfl⟩⟩, ?_⟩
  · rw [reindent, String.toList_ofList] at hread' ⊢
    exact hread'
  · rw [(finish_iff.mp hfinish).2, map_append, map_append,
      map_reverse, map_reverse, hb'.emitted, hb'.closing]

/-- Rows that look alike are padded. -/
lemma Scanner.Complete.padded_of_sights (h : Complete tokens)
    (hs : tokens'.map Token.sight = tokens.map Token.sight) :
    Padded id tokens tokens' := by
  obtain ⟨inner, last, rfl, hinner, hlast, htext⟩ := h
  have hmatches {t u : Token} (ht : t.text.toList.head?.any Text.isWordStart = true →
    t.kind.isPlain = true) (h : u.sight = t.sight) : t.Matches id u := by
    obtain ⟨hkind, h⟩ := Prod.mk.inj h
    obtain ⟨htext, hline⟩ := Prod.mk.inj h
    exact ⟨hkind, htext, hline, ht⟩
  induction inner generalizing tokens' with
  | nil =>
    obtain ⟨u, us, rfl, hu, hus⟩ := map_eq_cons_iff.mp hs
    obtain rfl := map_eq_nil_iff.mp hus
    refine .eof (hmatches ?_ hu) hlast
    rw [htext]
    rintro ⟨⟩
  | cons t inner ih =>
    obtain ⟨ht, hinner⟩ := forall_mem_cons.mp hinner
    obtain ⟨u, us, rfl, hu, hus⟩ := map_eq_cons_iff.mp hs
    by_cases hk : t.kind = .newline
    · have hnewline : Padded id (t :: (inner ++ [last])) (u :: ([] ++ us)) :=
        .newline (hmatches ht.word hu) hk (forall_mem_nil _) (ih hus hinner)
      exact hnewline
    · exact .cons (hmatches ht.word hu) ht.ne_eof hk (ih hus hinner)

/-- Texts with the same tokens on the same lines have the same tree. -/
lemma compile_sights (h : tokenize source = .ok tokens) (h' : tokenize source' = .ok tokens')
    (hs : tokens'.map Token.sight = tokens.map Token.sight) :
    (compile source').toOption = (compile source).toOption := by
  have hthere {p : Program} (hp : compile source = .ok p) : compile source' = .ok p :=
    compile_padded_id hp h h' ((complete_of_tokenize h).padded_of_sights hs)
  have hback {p : Program} (hp : compile source' = .ok p) : compile source = .ok p :=
    compile_padded_id hp h' h ((complete_of_tokenize h').padded_of_sights hs.symm)
  cases hp : compile source with
  | ok p => rw [hthere hp]
  | error e =>
    cases hp' : compile source' with
    | ok p => cases hp.symm.trans (hback hp')
    | error => rfl

end Texts

/-- With another margin in front of every line that does not begin inside a string, wider where it
was wider, equal where it was equal, and none where there was none, a text can still be read, has
the same tokens on the same lines, and the same tree if it has one. -/
theorem reindent_preserves {f : Nat → Nat} (hf : StrictMono f) (hzero : f 0 = 0) {source : String}
    {tokens : List Token} (h : tokenize source = .ok tokens) :
    (∃ again, tokenize (reindent f source) = .ok again ∧
      again.map Token.sight = tokens.map Token.sight) ∧
      (compile (reindent f source)).toOption = (compile source).toOption := by
  obtain ⟨again, hagain, hs⟩ := tokenize_reindent hf hzero h
  exact ⟨⟨again, hagain, hs⟩, compile_sights h hagain hs⟩

/-- A text with a margin at its beginning, a tab, a string over two lines, a comment, and a last
line narrower than all blocks. -/
def ragged : String := " if x:\n  if y:\n\tsay 'a\n b'\n  # c\n say 2"

/-- The square of a width is a width to use. -/
theorem reindent_preserves_ragged : ∃ tokens again, tokenize ragged = .ok tokens ∧
    reindent (fun width => width * width) ragged =
      " if x:\n    if y:\n                say 'a\n b'\n    # c\n say 2" ∧
    tokenize (reindent (fun width => width * width) ragged) = .ok again ∧
    again.map Token.sight = tokens.map Token.sight ∧
    (compile (reindent (fun width => width * width) ragged)).toOption = (compile ragged).toOption ∧
    (compile ragged).toOption.map (fun p => p.body.map Stmt.line) = some [1, 6] := by
  have hwider : StrictMono fun width : Nat => width * width :=
    fun _ _ h => Nat.mul_self_lt_mul_self h
  have hread : (tokenize ragged).toOption.map List.isEmpty = some false := by decide +kernel
  obtain ⟨tokens, htokens, _⟩ := exists_ok hread
  obtain ⟨⟨again, hagain, hs⟩, hcompile⟩ := reindent_preserves hwider rfl htokens
  exact ⟨tokens, again, htokens, by decide +kernel, hagain, hs, hcompile, by decide +kernel⟩

end Colloquy
