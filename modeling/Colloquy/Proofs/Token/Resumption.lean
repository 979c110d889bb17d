import Colloquy.Proofs.Token.Standing

/-!
# Going on after a problem

A scanner that has met a problem can be called again. Each call goes on behind the problem of the
last, keeps tokens and blocks, and so comes to the end after finitely many calls. Between calls a
scanner is `Resting`, and in one `Underway`; a call fails further on or hands out everything
(`Resting.call`).
-/

namespace Colloquy

open List

/-- Tokens between two offsets of a text, one behind the other, each with its characters and at its
place. -/
structure Ranks (source : List Char) (low high : Nat) (tokens : List Token) : Prop where
  le : low ≤ high
  above : ∀ t ∈ tokens, low ≤ t.position.offset
  below : ∀ t ∈ tokens, t.stop ≤ high
  ordered : tokens.Pairwise fun t u => t.stop ≤ u.position.offset
  written : ∀ t ∈ tokens, t.kind.isMark = false → t.position.offset < t.stop
  text : ∀ t ∈ tokens, (source.drop t.position.offset).take t.text.toList.length = t.text.toList
  place : ∀ t ∈ tokens, t.position = .behind (source.take t.position.offset)

section Ranks

variable {source front front' rest rest' : List Char} {low mid high : Nat}
  {tokens more inner : List Token} {last : Token}

lemma Ranks.nil (h : low ≤ high) : Ranks source low high [] := by
  have hnone {p : Token → Prop} : ∀ t ∈ [], p t := forall_mem_nil p
  exact ⟨h, hnone, hnone, .nil, hnone, hnone, hnone⟩

lemma Ranks.append (h : Ranks source low mid tokens) (hmore : Ranks source mid high more) :
    Ranks source low high (tokens ++ more) where
  le := Nat.le_trans h.le hmore.le
  above := forall_mem_append.mpr ⟨h.above, fun t ht => Nat.le_trans h.le (hmore.above t ht)⟩
  below :=
  forall_mem_append.mpr ⟨fun t ht => Nat.le_trans (h.below t ht) hmore.le, hmore.below⟩
  ordered := pairwise_append.mpr
    ⟨h.ordered, hmore.ordered, fun t ht u hu => Nat.le_trans (h.below t ht) (hmore.above u hu)⟩
  written := forall_mem_append.mpr ⟨h.written, hmore.written⟩
  text := forall_mem_append.mpr ⟨h.text, hmore.text⟩
  place := forall_mem_append.mpr ⟨h.place, hmore.place⟩

lemma Ranks.widen (h : Ranks source low mid tokens) (hle : mid ≤ high) :
    Ranks source low high tokens := by
  have happend := h.append (.nil hle)
  rw [append_nil] at happend
  exact happend

/-- What is woven is in order. -/
lemma Ranks.of_woven (hsource : front ++ rest = source)
    (h : ∀ more, Woven front' rest' more → Woven front rest (tokens ++ more)) :
    Ranks source front.length front'.length tokens := by
  subst hsource
  -- a mark at the front and one token for all that comes behind it
  have hrest : ∃ more, Woven front' rest' (⟨.eof, "", .behind front'⟩ :: more) := by
    by_cases hnil : rest' = []
    · subst hnil
      exact ⟨[], .mark rfl .nil⟩
    · have hall : Woven front' (rest' ++ []) [⟨.newline, String.ofList rest', .behind front'⟩] :=
        .token rfl hnil .nil
      rw [append_nil] at hall
      exact ⟨_, .mark rfl hall⟩
  obtain ⟨more, hmore⟩ := hrest
  have hwoven := h _ hmore
  have hin {t : Token} (ht : t ∈ tokens) : t ∈ tokens ++ ⟨.eof, "", .behind front'⟩ :: more :=
    mem_append_left _ ht
  obtain ⟨hordered, _, hbelow⟩ := pairwise_append.mp hwoven.ordered
  exact ⟨hwoven.offset_le _ (mem_append_right _ mem_cons_self), fun t ht =>
    hwoven.offset_le t (hin ht),
    fun t ht => hbelow t ht _ mem_cons_self, hordered, fun t ht => hwoven.written t (hin ht),
    fun t ht => hwoven.text t (hin ht), fun t ht => hwoven.place t (hin ht)⟩

/-- Tokens apart from layout stand further and further on. -/
lemma Ranks.ascending (h : Ranks source low high (inner ++ [last]))
    (hne : ∀ t ∈ inner, t.kind ≠ .eof) :
    ((inner ++ [last]).filter (!·.kind.isLayout)).Pairwise
      (·.position.offset < ·.position.offset) := by
  have hlt {t u : Token} (ht : t ∈ inner) (hlayout : (!t.kind.isLayout) = true)
    (hle : t.stop ≤ u.position.offset) : t.position.offset < u.position.offset := by
    have hmark : t.kind.isMark = false := by
      cases hk : t.kind with
      | newline | indent | dedent =>
        rw [hk] at hlayout
        cases hlayout
      | eof => exact absurd hk (hne t ht)
      | _ => rfl
    exact Nat.lt_of_lt_of_le (h.written t (mem_append_left _ ht) hmark) hle
  obtain ⟨hinner, _, hlast⟩ := pairwise_append.mp h.ordered
  refine pairwise_filter.mpr (pairwise_append.mpr ⟨?_, pairwise_singleton _ _, ?_⟩)
  · exact hinner.imp_of_mem fun ht _ hle hlayout _ => hlt ht hlayout hle
  · exact fun t ht u hu hlayout _ => hlt ht hlayout (hlast t ht u hu)

end Ranks

namespace Scanner

/-- The scanner after so many calls. -/
def resumed : Nat → Scanner → Scanner
  | 0, s => s
  | n + 1, s => resumed n s.tokenize.2

/-- The tokens that a call reads, apart from those that close the text. -/
def scanned (s : Scanner) : List Token :=
  ({ s with emitted := [] }.readAll s.unread).2.emitted.reverse

/-- The scanner that has handed out a whole text. -/
def exhausted (source : List Char) : Scanner := ⟨[], .behind source, .between, [], []⟩

/-- In a call: the text up to the front is scanned, some of it is held back, and the rest is to
come. -/
structure Underway (source front held rest : List Char) (s : Scanner) : Prop where
  whole : front ++ held ++ rest = source
  stands : s.Stands front held rest
  fits : s.mode.Fits rest.head?
  ranks : Ranks source 0 front.length s.emitted.reverse
  stacked : s.Stacked
  sound : s.Sound

/-- Between two calls. -/
structure Resting (source : List Char) (s : Scanner) : Prop where
  mode : s.mode = .between
  underway : ∃ front, Underway source front [] s.unread s

/-- The tokens of a text in order, each at its place, with blocks that all end and one end of the
text. -/
structure Told (source : List Char) (tokens : List Token) : Prop where
  ranks : Ranks source 0 source.length tokens
  ascending : (tokens.filter (!·.kind.isLayout)).Pairwise (·.position.offset < ·.position.offset)
  balanced : opens tokens = closes tokens
  nested : ∀ front, front <+: tokens → closes front ≤ opens front
  ended : ∃ inner last, tokens = inner ++ [last] ∧ last.kind = .eof ∧ ∀ t ∈ inner, t.kind ≠ .eof

section Steps

variable {source front held rest text : List Char} {s s' : Scanner} {c : Char}
  {next : Option Char} {e : ScanError}

lemma start_resting : (start source).Resting source where
  mode := rfl
  underway := ⟨[], rfl, ⟨rfl, rfl⟩, trivial, .nil (Nat.le_refl _), start_stacked, start_sound⟩

lemma fresh_problem (h : s.fresh c next = (some e, s')) : s' = { s with mode := .between } := by
  have hbegins : s.Begins c next (some e, s') := h ▸ fresh_begins
  cases hbegins
  rfl

/-- Where a character cannot be read nothing is held back, and only layout has been noted. -/
lemma react_problem (hs : s.Stands front held (c :: rest)) (hf : s.mode.Fits (some c))
    (h : s.react c rest.head? = (some e, s')) :
    held = [] ∧ s'.mode = .between ∧ ∃ marks, s'.emitted = marks.reverse ++ s.emitted ∧
      ∀ rest more, Woven front rest more → Woven front rest (marks ++ more) := by
  obtain ⟨hp, hk⟩ := hs
  cases hmode : s.mode with
  | between =>
    rw [hmode] at hk
    simp only [react, hmode] at h
    obtain rfl := fresh_problem h
    exact ⟨hk, rfl, [], rfl, fun _ _ hw => hw⟩
  | lineStart width =>
    rw [hmode] at hk
    obtain rfl : held = [] := hk
    rw [append_nil] at hp
    simp only [react, hmode] at h
    split at h
    · cases (Prod.mk.inj h).1
    split at h
    · cases (Prod.mk.inj h).1
    split at h
    · obtain rfl := fresh_problem h
      exact ⟨rfl, rfl, [], rfl, fun _ _ hw => hw⟩
    · obtain rfl := fresh_problem h
      exact ⟨rfl, rfl, measure_marks width hp⟩
  | comment =>
    by_cases hc : c = '\n'
    · subst hc
      rw [react_newline_of_not_holds (by rw [hmode]; rfl)] at h
      cases (Prod.mk.inj h).1
    · simp only [react, hmode, if_neg hc] at h
      cases (Prod.mk.inj h).1
  | whole start read =>
    rw [hmode] at hf
    simp only [react, hmode] at h
    split at h
    · cases (Prod.mk.inj h).1
    split at h
    · cases (Prod.mk.inj h).1
    · -- the only other character that such a number waits for is a point, which is a token
      rename_i hdigit _
      have hdot : c = '.' := by simpa [Mode.Fits, hdigit] using hf
      rw [hdot, fresh_dot] at h
      cases (Prod.mk.inj h).1
  | quoted start quote read =>
    simp only [react, hmode] at h
    split at h
    · cases (Prod.mk.inj h).1
    split at h <;> cases (Prod.mk.inj h).1
  | _ =>
    simp only [react, hmode] at h
    cases (Prod.mk.inj h).1

/-- A character that can be read leads on. -/
lemma Underway.step (h : Underway source front held (c :: rest) s)
    (hreact : s.react c rest.head? = (none, s')) :
    ∃ front' held', Underway source front' held' rest (s'.past c rest) := by
  have hr : s.Reacts c rest.head? (none, s') := hreact ▸ react_reacts h.fits
  obtain ⟨out, front', held', hout, hfront, hkeeps, hmore⟩ := react_weaves h.stands hreact
  have hsource : front' ++ held' ++ rest = source := by
    rw [hfront, append_assoc, ← h.whole]
    rfl
  have hranks : Ranks source front.length front'.length out := by
    refine .of_woven ?_ hmore
    rw [← append_assoc]
    exact h.whole
  have hstacked := hr.stacked h.stacked
  have hsound := hr.extends.sound h.sound
  refine ⟨front', held', hsource, ⟨?_, hkeeps⟩, hr.fits,
    ?_, ⟨hstacked.positive, hstacked.widening, hstacked.nested⟩, ⟨hsound.blocks, hsound.emitted⟩⟩
  · rw [hfront, Position.behind_concat, ← h.stands.position, ← hr.extends.position]
    rfl
  · change Ranks _ _ _ s'.emitted.reverse
    rw [hout, reverse_append, reverse_reverse]
    exact h.ranks.append hranks

/-- One that cannot is passed, and nothing is held back. -/
lemma Underway.problem (h : Underway source front held (c :: rest) s)
    (hreact : s.react c rest.head? = (some e, s')) :
    s'.mode = .between ∧ Underway source (front ++ [c]) [] rest (s'.past c rest) := by
  have hr : s.Reacts c rest.head? (some e, s') := hreact ▸ react_reacts h.fits
  obtain ⟨rfl, hmode, marks, hmarks, hmore⟩ := react_problem h.stands h.fits hreact
  have hsource := h.whole
  have hposition := h.stands.position
  rw [append_nil] at hsource hposition
  have hranks : Ranks source front.length front.length marks := .of_woven hsource (hmore _)
  have hstacked := hr.stacked h.stacked
  have hsound := hr.extends.sound h.sound
  refine ⟨hmode, ?_, ⟨?_, ?_⟩, hr.fits, ?_, ⟨hstacked.positive, hstacked.widening, hstacked.nested⟩,
    ⟨hsound.blocks, hsound.emitted⟩⟩
  · rw [append_nil, ← hsource, append_assoc]
    rfl
  · rw [append_nil, Position.behind_concat, ← hposition, ← hr.extends.position]
    rfl
  · change s'.mode.Keeps _ _ _
    rw [hmode]
    rfl
  · change Ranks _ _ _ s'.emitted.reverse
    rw [hmarks, reverse_append, reverse_reverse, length_append]
    exact h.ranks.append (hranks.widen (Nat.le_add_right _ _))

/-- A call reads the whole text or fails further on. -/
lemma Underway.readAll (h : Underway source front held text s) :
    (∃ s' front' held', s.readAll text = (none, s') ∧ s'.unread = [] ∧
      Underway source front' held' [] s') ∨
      ∃ e s', s.readAll text = (some e, s') ∧ s'.unread.length < text.length ∧
      s'.Resting source := by
  induction text generalizing s front held with
  | nil =>
    exact .inl ⟨_, front, held, rfl, rfl, h.whole,
      ⟨h.stands.position, h.stands.keeps⟩, h.fits, h.ranks,
      ⟨h.stacked.positive, h.stacked.widening, h.stacked.nested⟩, ⟨h.sound.blocks, h.sound.emitted⟩⟩
  | cons c rest ih =>
    rcases hreact : s.react c rest.head? with ⟨_ | e, s'⟩
    · rw [readAll_cons hreact]
      obtain ⟨front', held', hnext⟩ := h.step hreact
      rcases ih hnext with hall | ⟨e, s'', hread, hlength, hresting⟩
      · exact .inl hall
      · exact .inr ⟨e, s'', hread, Nat.lt_succ_of_lt hlength, hresting⟩
    · obtain ⟨hmode, hnext⟩ := h.problem hreact
      refine .inr ⟨e, s'.past c rest, ?_, Nat.lt_succ_self _, hmode, _, hnext⟩
      simp only [Scanner.readAll, hreact]

lemma readAll_scanned :
    (s.readAll s.unread).2.emitted.reverse = s.emitted.reverse ++ s.scanned := by
  have hmoved : ({ s with emitted := [] }.moved ⟨0, 0⟩ s.emitted s.unread).readAll s.unread =
      movedOutcome ⟨0, 0⟩ s.emitted _ ({ s with emitted := [] }.readAll s.unread) := readAll_moved
  rw [moved_stay] at hmoved
  have hread : s.readAll s.unread = _ := hmoved
  rw [hread]
  simp only [movedOutcome, moved, map_stay, reverse_append]
  rfl

lemma Resting.offset (h : s.Resting source) :
    s.position.offset + s.unread.length = source.length := by
  obtain ⟨front, hfront⟩ := h.underway
  rw [hfront.stands.position, ← hfront.whole, length_append]
  rfl

/-- A scanner that gives up rests. -/
lemma Underway.giveUp (h : Underway source front held [] s) (hunread : s.unread = []) :
    { s with mode := .between }.Resting source where
  mode := rfl
  underway := by
    have hsource := h.whole
    rw [append_nil] at hsource
    refine ⟨source, by simp [hunread], ⟨?_, rfl⟩, trivial,
      ?_, h.stacked.mode, ⟨h.sound.blocks, h.sound.emitted⟩⟩
    · rw [append_nil, ← hsource]
      exact h.stands.position
    · refine h.ranks.widen ?_
      rw [← hsource, length_append]
      exact Nat.le_add_right _ _

/-- At the end all tokens are in order. -/
lemma Underway.told (h : Underway source front held [] s) :
    Told source (s.emitted.reverse ++ s.closing) := by
  have hsource := h.whole
  rw [append_nil] at hsource
  have hposition := h.stands.position
  rw [hsource] at hposition
  have hclosing : Ranks source source.length source.length s.closing := by
    refine .of_woven (append_nil source) fun more (hmore : Woven source [] more) => ?_
    unfold closing
    rw [hposition, append_assoc]
    exact (Woven.mark rfl hmore).dedents _
  have hle : front.length ≤ source.length := by
    rw [← hsource, length_append]
    exact Nat.le_add_right _ _
  have hranks := (h.ranks.widen hle).append hclosing
  obtain ⟨inner, last, htokens, hproper, hlast, _⟩ := h.sound.complete
  have hne : ∀ t ∈ inner, t.kind ≠ .eof := fun t ht => (hproper t ht).ne_eof
  obtain ⟨hbalanced, hnested⟩ := h.stacked.nested_closing.balanced
  refine ⟨hranks, ?_, hbalanced, hnested, inner, last, htokens, hlast, hne⟩
  rw [htokens] at hranks ⊢
  exact hranks.ascending hne

end Steps

section Calls

variable {source : List Char} {s : Scanner}

/-- The tokens at the end of a text. -/
def textEnd (source : List Char) (blocks : Nat) : List Token :=
  List.replicate blocks ⟨.dedent, "", .behind source⟩ ++ [⟨.eof, "", .behind source⟩]

/-- A call fails further on in the text, or hands out everything and leaves nothing. -/
inductive Call (source : List Char) (s : Scanner) :
    Except ScanError (List Token) × Scanner → Prop where
  | failed {e s'} :
    s'.Resting source →
    s'.unread.length < s.unread.length →
    s'.emitted.reverse = s.emitted.reverse ++ s.scanned →
    Call source s (.error e, s')
  | done {tokens blocks} :
    tokens = s.emitted.reverse ++ s.scanned ++ textEnd source blocks →
    Told source tokens →
    Call source s (.ok tokens, exhausted source)

/-- Every call fails further on or hands out everything. -/
lemma Resting.call (h : s.Resting source) : Call source s s.tokenize := by
  obtain ⟨front, hfront⟩ := h.underway
  have hscanned := readAll_scanned (s := s)
  unfold tokenize
  rcases hfront.readAll with ⟨s', front', held', hread,
    hunread, hend⟩ | ⟨e, s', hread, hlength, hresting⟩
  · rw [hread] at hscanned ⊢
    have hposition : s'.position = .behind source := by
      rw [hend.stands.position, ← hend.whole, append_nil]
    cases hstring : s'.mode.inString with
    | false =>
      have htold := hend.told
      have htokens : s'.emitted.reverse ++ s'.closing =
          s.emitted.reverse ++ s.scanned ++ textEnd source s'.blocks.length := by
        unfold closing textEnd
        rw [← hscanned, hposition]
      have hfinish : s'.finish = (.ok (s'.emitted.reverse ++ s'.closing), exhausted source) := by
        refine Prod.ext (finish_iff.mpr ⟨hstring, rfl⟩) ?_
        unfold finish exhausted
        rw [← hposition, ← hunread]
        cases hmode : s'.mode <;> rw [hmode] at hstring <;>
          cases hstring <;> simp only [close, emitDedents_eq, emit]
      dsimp only
      rw [hfinish]
      exact .done htokens htold
    | true =>
      -- a string has begun since the call, so that there was something to read
      have hne : s.unread ≠ [] := by
        intro hnil
        rw [hnil] at hread
        obtain ⟨_, rfl⟩ := Prod.mk.inj hread
        have hbetween : s.mode.inString = true := hstring
        rw [h.mode] at hbetween
        cases hbetween
      have hfinish : ∃ e, s'.finish = (.error e, { s' with mode := .between }) := by
        unfold finish
        cases hmode : s'.mode <;> rw [hmode] at hstring <;> cases hstring <;> exact ⟨_, rfl⟩
      obtain ⟨e, hfinish⟩ := hfinish
      dsimp only
      rw [hfinish]
      refine .failed (hend.giveUp hunread) ?_ hscanned
      change s'.unread.length < _
      rw [hunread]
      exact length_pos_iff.mpr hne
  · rw [hread] at hscanned ⊢
    exact .failed hresting hlength hscanned

lemma tokenize_exhausted :
    (exhausted source).tokenize = (.ok [⟨.eof, "", .behind source⟩], exhausted source) := rfl

lemma attempts_exhausted (more : Nat) :
    (exhausted source).attempts more = List.replicate more (.ok [⟨.eof, "", .behind source⟩]) := by
  induction more with
  | zero => rfl
  | succ more ih =>
    rw [attempts, tokenize_exhausted, ih]
    rfl

/-- The calls up to the end of a text: the problems of those that fail and the tokens of the
last. -/
structure Resumption (source : List Char) (s : Scanner) (errors : List ScanError)
    (tokens : List Token) : Prop where
  bounded : errors.length ≤ s.unread.length
  calls : ∀ more, s.attempts (errors.length + 1 + more) =
    errors.map .error ++ .ok tokens :: List.replicate more (.ok [⟨.eof, "", .behind source⟩])
  advancing : ∀ i < errors.length, (s.resumed i).position.offset <
    (s.resumed (i + 1)).position.offset
  complete : ∃ blocks, tokens = s.emitted.reverse ++
    ((List.range (errors.length + 1)).flatMap fun i => (s.resumed i).scanned) ++
      textEnd source blocks
  told : Told source tokens

/-- The last call hands out all tokens. -/
lemma Resumption.done {tokens : List Token} {blocks : Nat}
    (hcall : s.tokenize = (.ok tokens, exhausted source))
    (htokens : tokens = s.emitted.reverse ++ s.scanned ++ textEnd source blocks)
    (htold : Told source tokens) :
    Resumption source s [] tokens where
  bounded := Nat.zero_le _
  calls more := by
    rw [length_nil, Nat.zero_add, Nat.add_comm, attempts, hcall, attempts_exhausted]
    rfl
  advancing := nofun
  complete := by
    refine ⟨blocks, ?_⟩
    rw [htokens]
    simp [resumed]
  told := htold

/-- One more call fails before the others. -/
lemma Resumption.failed {s' : Scanner} {e : ScanError} {errors : List ScanError}
    {tokens : List Token} (hcall : s.tokenize = (.error e, s'))
    (hlength : s'.unread.length < s.unread.length)
    (hoffset : s.position.offset < s'.position.offset)
    (hscanned : s'.emitted.reverse = s.emitted.reverse ++ s.scanned)
    (h : Resumption source s' errors tokens) : Resumption source s (e :: errors) tokens where
  bounded := Nat.le_trans (Nat.succ_le_succ h.bounded) hlength
  calls more := by
    rw [length_cons, Nat.add_right_comm _ 1 1, Nat.add_right_comm _ 1 more,
      attempts, hcall, h.calls]
    rfl
  advancing := by
    rintro (_ | i) hi
    · simp only [resumed, hcall]
      exact hoffset
    · simp only [resumed, hcall]
      exact h.advancing i (Nat.lt_of_succ_lt_succ hi)
  complete := by
    obtain ⟨blocks, htokens⟩ := h.complete
    refine ⟨blocks, ?_⟩
    rw [htokens, hscanned, length_cons, range_succ_eq_map (n := errors.length + 1),
      flatMap_cons, flatMap_map]
    simp only [resumed, hcall, append_assoc]
  told := h.told

/-- A scanner that is called again and again comes to the end. -/
lemma Resting.resumption (h : s.Resting source) :
    ∃ errors tokens, Resumption source s errors tokens := by
  induction hn : s.unread.length using Nat.strong_induction_on generalizing s with
  | _ n ih =>
    have hcall := h.call
    generalize htokenize : s.tokenize = r at hcall
    cases hcall with
    | done htokens htold => exact ⟨[], _, .done htokenize htokens htold⟩
    | @failed e s' hresting hlength hscanned =>
      obtain ⟨errors, tokens, hrest⟩ := ih _ (hn ▸ hlength) hresting rfl
      have hoffset : s.position.offset < s'.position.offset := by
        have := h.offset
        have := hresting.offset
        omega
      exact ⟨e :: errors, tokens, .failed htokenize hlength hoffset hscanned hrest⟩

end Calls

end Scanner

open Scanner in
/-- **A text can be read in spite of its problems.** No more calls fail than the text has
characters, and each stops further on than the last one. The first call that does not fail hands out
the tokens of all calls once, in order, with blocks that all end and one end of the text; after that
there is only the end. -/
theorem tokenize_resumption (source : String) :
    ∃ errors tokens, Resumption source.toList (start source.toList) errors tokens :=
  start_resting.resumption

/-- Two characters that cannot be read and a string without an end; the third call is the last that
fails. -/
example : ((Scanner.start "say $ 1\n  = b 'c".toList).attempts 5).map
    (fun r => r.toOption.map (·.map Token.text)) =
    [none, none, none, some ["say", "1", "\n", "", "b", "", ""], some [""]] := by decide +kernel

end Colloquy
