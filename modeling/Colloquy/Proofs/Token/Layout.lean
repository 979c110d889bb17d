import Colloquy.Proofs.Token.Continuation

/-!
# The layout of a text

The marks of blocks are balanced, because each end takes one width off the stack of open blocks and
each beginning puts one onto it (`Stacked`). They stand at the beginning of a line that has a token
(`Lined`), apart from the ends at the end of the text.
-/

namespace Colloquy

open Scanner List

section Nesting

/-- How many blocks begin. -/
def opens (ts : List Token) : Nat := ts.countP (·.kind = .indent)

/-- How many blocks end. -/
def closes (ts : List Token) : Nat := ts.countP (·.kind = .dedent)

/-- Tokens, the last one first, that leave so many blocks open and end none that has not begun. -/
inductive Nested : Nat → List Token → Prop where
  | nil :
    Nested 0 []
  | other {d t ts} :
    t.kind ≠ .indent →
    t.kind ≠ .dedent →
    Nested d ts →
    Nested d (t :: ts)
  | indent {d t ts} :
    t.kind = .indent →
    Nested d ts →
    Nested (d + 1) (t :: ts)
  | dedent {d t ts} :
    t.kind = .dedent →
    Nested (d + 1) ts →
    Nested d (t :: ts)

variable {d : Nat} {t : Token} {ts : List Token}

lemma Nested.count (h : Nested d ts) : d + closes ts = opens ts := by
  induction h with
  | nil => rfl
  | other hi hd _ ih =>
    simp only [opens, closes, countP_cons, hi, hd,
      decide_false, Bool.false_eq_true, if_false] at ih ⊢
    omega
  | indent hk _ ih | dedent hk _ ih =>
    simp only [opens, closes, countP_cons, hk, decide_true, if_true] at ih ⊢
    simp only [reduceCtorEq, decide_false, Bool.false_eq_true, if_false]
    omega

/-- The same holds of fewer tokens. -/
lemma Nested.suffix {older : List Token} (h : Nested d ts) (hs : older <:+ ts) :
    ∃ d', Nested d' older := by
  induction h with
  | nil =>
    obtain rfl := suffix_nil.mp hs
    exact ⟨0, .nil⟩
  | other hi hd h ih =>
    rcases suffix_cons_iff.mp hs with rfl | hs
    · exact ⟨_, .other hi hd h⟩
    · exact ih hs
  | indent hk h ih =>
    rcases suffix_cons_iff.mp hs with rfl | hs
    · exact ⟨_, .indent hk h⟩
    · exact ih hs
  | dedent hk h ih =>
    rcases suffix_cons_iff.mp hs with rfl | hs
    · exact ⟨_, .dedent hk h⟩
    · exact ih hs

lemma Nested.plain (hk : t.kind.isPlain = true) (h : Nested d ts) : Nested d (t :: ts) := by
  apply Nested.other _ _ h
  all_goals
    intro he
    rw [he] at hk
    cases hk

lemma Nested.dedents {n : Nat} {position : Position} (h : Nested (d + n) ts) :
    Nested d (List.replicate n ⟨.dedent, "", position⟩ ++ ts) := by
  induction n generalizing d with
  | zero => exact h
  | succ n ih =>
    apply Nested.dedent rfl
    apply ih
    rw [Nat.succ_add_eq_add_succ]
    exact h

end Nesting

section Stack

variable {s s' : Scanner} {c : Char} {next : Option Char} {e : Option ScanError}

/-- The widths of the margin and of the open blocks. -/
def Scanner.stack (s : Scanner) : List Nat := 0 :: s.blocks.reverse

/-- The open blocks, each wider than those around it, are those that the tokens leave open. -/
structure Scanner.Stacked (s : Scanner) : Prop where
  positive : ∀ w ∈ s.blocks, 0 < w
  widening : s.blocks.Pairwise (· > ·)
  nested : Nested s.blocks.length s.emitted

lemma Scanner.start_stacked {source : List Char} : (start source).Stacked := ⟨nofun, .nil, .nil⟩

lemma Scanner.Stacked.mode {mode : Mode} (hs : s.Stacked) : { s with mode := mode }.Stacked :=
  ⟨hs.positive, hs.widening, hs.nested⟩

lemma Scanner.Stacked.emit {mode : Mode} {t : Token} (hs : s.Stacked) (ht : t.kind.isPlain = true) :
    { s with mode := mode, emitted := t :: s.emitted }.Stacked :=
  ⟨hs.positive, hs.widening, .plain ht hs.nested⟩

/-- The innermost block is the widest. -/
lemma Scanner.Stacked.le_head {w : Nat} (hs : s.Stacked) (hw : w ∈ s.blocks) :
    w ≤ s.blocks.headD 0 := by
  have hwide := hs.widening
  cases hb : s.blocks with
  | nil =>
    rw [hb] at hw
    cases hw
  | cons v blocks =>
    rw [hb] at hw hwide
    rcases mem_cons.mp hw with rfl | hw
    · exact Nat.le_refl _
    · exact Nat.le_of_lt (rel_of_pairwise_cons hwide hw)

/-- Measuring a line keeps the stack. -/
lemma Scanner.Stacked.measure {width : Nat} (hs : s.Stacked) : (s.measure width).Stacked := by
  unfold Scanner.measure
  split
  · rename_i hlt
    have hpos : 0 < width := Nat.lt_of_le_of_lt (Nat.zero_le _) hlt
    have hwide : ∀ w ∈ s.blocks, width > w := fun w hw => Nat.lt_of_le_of_lt (hs.le_head hw) hlt
    exact ⟨forall_mem_cons.mpr ⟨hpos, hs.positive⟩, .cons hwide hs.widening, .indent rfl hs.nested⟩
  · rw [emitDedents_eq]
    have hsub := dropWhile_sublist (l := s.blocks) (decide <| width < ·)
    refine ⟨fun w hw => hs.positive w (hsub.subset hw), hs.widening.sublist hsub, ?_⟩
    -- as many blocks end as widths are taken off the stack
    apply Nested.dedents
    have hlength :=
      congrArg List.length (takeWhile_append_dropWhile (p := (decide <| width < ·)) (l := s.blocks))
    rw [length_append, Nat.add_comm] at hlength
    rw [hlength]
    exact hs.nested

lemma Scanner.Begins.stacked (h : s.Begins c next (e, s')) (hs : s.Stacked) : s'.Stacked := by
  cases h with
  | blank | comment | hold | problem => exact hs.mode
  | newline => exact ⟨hs.positive, hs.widening, .other nofun nofun hs.nested⟩
  | token ht => exact hs.emit ht

lemma Scanner.Reacts.stacked (h : s.Reacts c next (e, s')) (hs : s.Stacked) : s'.Stacked := by
  cases h with
  | margin | hold => exact hs.mode
  | comment => exact hs
  | fresh _ hb => exact hb.stacked hs
  | measure _ _ hb => exact hb.stacked hs.measure
  | token _ ht => exact hs.emit ht
  | tokenFresh _ ht hb => exact hb.stacked (hs.emit ht)

lemma Scanner.Stacked.stack (hs : s.Stacked) : s.stack.Pairwise (· < ·) := by
  apply List.Pairwise.cons
  · intro w hw
    exact hs.positive w (mem_reverse.mp hw)
  · exact pairwise_reverse.mpr hs.widening

lemma Scanner.Stacked.height (hs : s.Stacked) :
    s.stack.length + closes s.emitted = 1 + opens s.emitted := by
  have hcount := hs.nested.count
  rw [Scanner.stack, length_cons, length_reverse]
  omega

end Stack

section Lines

/-- The layout of one line: a block begins, or some end. -/
def IsMargin (run : List Token) : Prop :=
  (∃ t, t.kind = .indent ∧ run = [t]) ∨ ∀ t ∈ run, t.kind = .dedent

/-- Tokens, the last one first, with layout only before tokens of a line. -/
inductive Lined : List Token → Prop where
  | nil :
    Lined []
  | newline {t ts} :
    t.kind = .newline →
    Lined ts →
    Lined (t :: ts)
  | plain {t ts} :
    t.kind.isPlain = true →
    Lined ts →
    Lined (t :: ts)
  | margin {x run t ts} :
    x.kind.isPlain = true →
    IsMargin run →
    t.kind = .newline →
    Lined (t :: ts) →
    Lined (x :: (run ++ t :: ts))

/-- Tokens, the last one first, after which one inside a line may come. -/
inductive Awaits : List Token → Prop where
  | lined {ts} :
    Lined ts →
    Awaits ts
  | margin {run t ts} :
    IsMargin run →
    t.kind = .newline →
    Lined (t :: ts) →
    Awaits (run ++ t :: ts)

variable {t : Token} {ts newer older : List Token} {s s' : Scanner} {c : Char}
  {next : Option Char} {width : Nat}

lemma Awaits.plain (h : Awaits ts) (ht : t.kind.isPlain = true) : Lined (t :: ts) := by
  cases h with
  | lined h => exact .plain ht h
  | margin hrun hn h => exact .margin ht hrun hn h

/-- Inside a token, the layout of its line may come last; otherwise a token follows it. At the start
of a line the last token is the end of the line before. -/
structure Scanner.Tidy (s : Scanner) : Prop where
  awaits : Awaits s.emitted
  lined : s.mode.holds = false → Lined s.emitted
  fresh : ∀ width, s.mode = .lineStart width → ∃ t ts, s.emitted = t :: ts ∧ t.kind = .newline

lemma Scanner.start_tidy {source : List Char} : (start source).Tidy :=
  ⟨.lined .nil, fun _ => .nil, nofun⟩

lemma Scanner.tidy_of_lined (h : Lined s.emitted)
    (hm : ∀ width, s.mode = .lineStart width → ∃ t ts, s.emitted = t :: ts ∧
      t.kind = .newline) : s.Tidy :=
  ⟨.lined h, fun _ => h, hm⟩

lemma lineStart_not_holds {mode : Mode} (h : mode.holds = true) : mode ≠ .lineStart width := by
  rintro rfl
  cases h

/-- A token may begin behind layout. -/
lemma Scanner.Begins.tidy (h : s.Begins c next (none, s'))
    (hs : Significant c next ∧ Awaits s.emitted ∨ Lined s.emitted) :
    s'.Tidy := by
  have ha : Awaits s.emitted := by
    rcases hs with ⟨_, ha⟩ | hl
    · exact ha
    · exact .lined hl
  cases h with
  | blank hn | comment hn =>
    rcases hs with ⟨hsig, _⟩ | hl
    · exact (hn hsig).elim
    · exact tidy_of_lined hl nofun
  | newline hc =>
    rcases hs with ⟨hsig, _⟩ | hl
    · exact (hsig.2.2.2.1 hc).elim
    · exact tidy_of_lined (.newline rfl hl) fun _ _ => ⟨_, _, rfl, rfl⟩
  | hold hm =>
    refine ⟨ha, fun hn => ?_, fun _ hw => (lineStart_not_holds hm hw).elim⟩
    rw [hm] at hn
    cases hn
  | token ht => exact tidy_of_lined (ha.plain ht) nofun

/-- Behind its layout a line awaits a token. -/
lemma Scanner.measure_awaits (hl : Lined s.emitted)
    (hn : ∃ t ts, s.emitted = t :: ts ∧ t.kind = .newline) : Awaits (s.measure width).emitted := by
  obtain ⟨t, ts, he, ht⟩ := hn
  rw [he] at hl
  unfold measure
  split
  · simp only [emit, he]
    have hrun : IsMargin [⟨.indent, "", s.position⟩] := .inl ⟨_, rfl, rfl⟩
    exact .margin hrun ht hl
  · simp only [emitDedents_eq, he]
    apply Awaits.margin (.inr ?_) ht hl
    intro x hx
    rw [(mem_replicate.mp hx).2]

/-- Every step keeps the tokens tidy. -/
lemma Scanner.Reacts.tidy (h : s.Reacts c next (none, s')) (hs : s.Tidy) : s'.Tidy := by
  cases h with
  | margin hm =>
    have hl : Lined s.emitted := hs.lined (by rw [hm]; rfl)
    exact tidy_of_lined hl fun _ _ => hs.fresh _ hm
  | comment => exact hs
  | fresh hm hb => exact hb.tidy (.inr (hs.lined hm))
  | measure hm hsig hb =>
    have hl : Lined s.emitted := hs.lined (by rw [hm]; rfl)
    exact hb.tidy (.inl ⟨hsig, measure_awaits hl (hs.fresh _ hm)⟩)
  | hold hm hm' =>
    refine ⟨hs.awaits, fun hn => ?_, fun _ hw => (lineStart_not_holds hm' hw).elim⟩
    rw [hm'] at hn
    cases hn
  | token _ ht => exact tidy_of_lined (hs.awaits.plain ht) nofun
  | tokenFresh _ ht hb => exact hb.tidy (.inr (hs.awaits.plain ht))

/-- The token between these rows is layout of a line with a token: only ends of blocks are between
it and the end of the line before, and between it and the next token inside a line. -/
def OfMargin (front back : List Token) : Prop :=
  ∃ before t closed closed' x after, front = before ++ t :: closed ∧ t.kind = .newline ∧
    (∀ y ∈ closed, y.kind = .dedent) ∧ back = closed' ++ x :: after ∧ x.kind.isPlain = true ∧
    ∀ y ∈ closed', y.kind = .dedent

lemma OfMargin.append {front back more : List Token} (h : OfMargin front back) :
    OfMargin front (back ++ more) := by
  obtain ⟨before, t, closed, closed', x, after, hfront, ht, hclosed, rfl, hx, hclosed'⟩ := h
  refine ⟨before, t, closed, closed', x, after ++ more, hfront, ht, hclosed, ?_, hx, hclosed'⟩
  rw [append_assoc, cons_append]

lemma IsMargin.split (h : IsMargin (newer ++ t :: older)) :
    (∀ y ∈ newer, y.kind = .dedent) ∧ ∀ y ∈ older, y.kind = .dedent := by
  rcases h with ⟨i, _, hi⟩ | hall
  · obtain ⟨rfl, _, rfl⟩ | ⟨_, rfl, hnil⟩ := append_eq_cons_iff.mp hi
    · exact ⟨forall_mem_nil _, nofun⟩
    · cases (append_eq_nil_iff.mp hnil.symm).2
  · exact ⟨fun y hy => hall y (mem_append_left _ hy),
      fun y hy => hall y (mem_append_right _ (mem_cons_of_mem t hy))⟩

/-- A token neither inside a line nor the end of one is layout of a line with a token. -/
lemma Lined.ofMargin (h : Lined ts) (he : ts = newer ++ t :: older)
    (hp : t.kind.isPlain = false) (hn : t.kind ≠ .newline) :
    OfMargin older.reverse newer.reverse := by
  induction h generalizing newer with
  | nil => cases (append_eq_nil_iff.mp he.symm).2
  | newline hk _ ih =>
    obtain ⟨rfl, hhead⟩ | ⟨newer', rfl, hrest⟩ := cons_eq_append_iff.mp he
    · obtain ⟨rfl, _⟩ := List.cons.inj hhead
      exact (hn hk).elim
    · rw [reverse_cons]
      exact (ih hrest).append
  | plain hk _ ih =>
    obtain ⟨rfl, hhead⟩ | ⟨newer', rfl, hrest⟩ := cons_eq_append_iff.mp he
    · obtain ⟨rfl, _⟩ := List.cons.inj hhead
      cases hp.symm.trans hk
    · rw [reverse_cons]
      exact (ih hrest).append
  | @margin x run n ts hx hrun hk _ ih =>
    obtain ⟨rfl, hhead⟩ | ⟨newer', rfl, hrest⟩ := cons_eq_append_iff.mp he
    · obtain ⟨rfl, _⟩ := List.cons.inj hhead
      cases hp.symm.trans hx
    · rw [reverse_cons]
      obtain ⟨more, rfl, hbefore⟩ | ⟨more, rfl, hafter⟩ := append_eq_append_iff.mp hrest
      · -- the token stands before the end of the line
        rw [reverse_append, append_assoc]
        exact (ih hbefore).append
      · obtain ⟨rfl, hhead⟩ | ⟨older', rfl, rfl⟩ := cons_eq_append_iff.mp hafter
        · obtain ⟨rfl, _⟩ := List.cons.inj hhead
          exact (hn hk).elim
        · obtain ⟨hnewer, holder⟩ := hrun.split
          refine ⟨ts.reverse, n, older'.reverse, newer'.reverse, x, [], ?_, hk, ?_, rfl, hx, ?_⟩
          · rw [reverse_append, reverse_cons, append_assoc]
            rfl
          · exact fun y hy => holder y (mem_reverse.mp hy)
          · exact fun y hy => hnewer y (mem_reverse.mp hy)

end Lines

section Scans

variable {source text : List Char} {s s' : Scanner}

/-- The scanners that a scan goes through, character by character. -/
inductive Scanner.Scanning (source : List Char) : Scanner → Prop where
  | start :
    Scanning source (Scanner.start source)
  | step {s s' c rest} :
    Scanning source s →
    s.unread = c :: rest →
    s.react c rest.head? = (none, s') →
    Scanning source (s'.past c rest)

/-- What holds at the start and is kept by every step holds all through a scan. -/
lemma Scanner.Scanning.invariant {P : Scanner → Prop} (hstart : P (.start source))
    (hstep : ∀ {s c rest s'}, P s → s.Reacts c rest.head? (none, s') → P (s'.past c rest))
    (h : Scanning source s) : s.mode.Fits s.unread.head? ∧ P s := by
  induction h with
  | start => exact ⟨trivial, hstart⟩
  | @step s s' c rest _ hunread hreact ih =>
    obtain ⟨hfits, hp⟩ := ih
    rw [hunread] at hfits
    have hr : s.Reacts c rest.head? (none, s') := hreact ▸ react_reacts hfits
    exact ⟨hr.fits, hstep hp hr⟩

lemma Scanner.Scanning.stacked (h : Scanning source s) : s.Stacked :=
  (h.invariant (P := Stacked) start_stacked fun hs hr =>
    ⟨(hr.stacked hs).positive, (hr.stacked hs).widening, (hr.stacked hs).nested⟩).2

lemma Scanner.Scanning.tidy (h : Scanning source s) : s.mode.Fits s.unread.head? ∧ s.Tidy :=
  h.invariant (P := Tidy) start_tidy fun hs hr =>
  ⟨(hr.tidy hs).awaits, (hr.tidy hs).lined, (hr.tidy hs).fresh⟩

lemma Scanner.Scanning.readAll (h : Scanning source s) (hunread : s.unread = text)
    (hr : s.readAll text = (none, s')) : Scanning source s' ∧ s'.unread = [] := by
  induction text generalizing s with
  | nil =>
    obtain ⟨_, rfl⟩ := Prod.mk.inj hr
    have hs : { s with unread := [] } = s := by rw [← hunread]
    rw [hs]
    exact ⟨h, hunread⟩
  | cons c rest ih =>
    obtain ⟨s1, hreact, hr⟩ := readAll_cons_inv hr
    exact ih (.step h hunread hreact) rfl hr

end Scans

section Rows

variable {source : String} {tokens front back : List Token} {s : Scanner} {t : Token}

/-- Only ends of blocks are left before the end of the text. -/
def AtTextEnd (back : List Token) : Prop :=
  ∃ closed last, back = closed ++ [last] ∧ (∀ y ∈ closed, y.kind = .dedent) ∧ last.kind = .eof

/-- The layout of a whole text. Every block ends, and none before it begins; layout stands before
the tokens of a line, apart from the ends of blocks at the end; and the text ends once. -/
structure LaidOut (tokens : List Token) : Prop where
  balanced : opens tokens = closes tokens
  nested : ∀ front, front <+: tokens → closes front ≤ opens front
  indents : ∀ front t back, tokens = front ++ t :: back → t.kind = .indent → OfMargin front back
  dedents : ∀ front t back, tokens = front ++ t :: back →
  t.kind = .dedent → AtTextEnd back ∨ OfMargin front back
  ended : ∃ inner last, tokens = inner ++ [last] ∧ last.kind = .eof ∧ ∀ t ∈ inner, t.kind ≠ .eof

/-- A text closes with ends of blocks. -/
lemma Scanner.closing_split (h : s.closing = front ++ t :: back) (hk : t.kind ≠ .eof) :
    t.kind = .dedent ∧ AtTextEnd back := by
  unfold closing at h
  generalize s.blocks.length = n at h
  induction n generalizing front with
  | zero =>
    obtain ⟨rfl, hhead⟩ | ⟨_, rfl, hrest⟩ := cons_eq_append_iff.mp h
    · obtain ⟨rfl, _⟩ := List.cons.inj hhead
      exact (hk rfl).elim
    · cases (append_eq_nil_iff.mp hrest.symm).2
  | succ n ih =>
    rw [replicate_succ, cons_append] at h
    obtain ⟨rfl, hhead⟩ | ⟨front', rfl, hrest⟩ := cons_eq_append_iff.mp h
    · obtain ⟨rfl, rfl⟩ := List.cons.inj hhead
      refine ⟨rfl, _, _, rfl, fun y hy => ?_, rfl⟩
      rw [(mem_replicate.mp hy).2]
    · exact ih hrest

/-- Layout is of a line, or closes the text. -/
lemma Scanner.layout_split (hs : Lined s.emitted)
    (h : s.emitted.reverse ++ s.closing = front ++ t :: back)
    (hk : t.kind = .indent ∨ t.kind = .dedent) :
    t.kind = .dedent ∧ AtTextEnd back ∨ OfMargin front back := by
  have hne : t.kind ≠ .eof := by rcases hk with hk | hk <;> rw [hk] <;> rintro ⟨⟩
  have hp : t.kind.isPlain = false := by rcases hk with hk | hk <;> rw [hk] <;> rfl
  have hn : t.kind ≠ .newline := by rcases hk with hk | hk <;> rw [hk] <;> rintro ⟨⟩
  obtain ⟨more, rfl, he⟩ | ⟨more, he, hback⟩ := append_eq_append_iff.mp h
  · exact .inl (closing_split he hne)
  · obtain ⟨rfl, hclosing⟩ | ⟨back', rfl, rfl⟩ := cons_eq_append_iff.mp hback
    · have hall : s.closing = [] ++ t :: back := hclosing
      exact .inl (closing_split hall hne)
    · have hsplit : s.emitted = back'.reverse ++ t :: front.reverse := by
        rw [← reverse_reverse s.emitted, he]
        simp
      have hmargin := hs.ofMargin hsplit hp hn
      rw [reverse_reverse, reverse_reverse] at hmargin
      exact .inr hmargin.append

lemma Scanner.Stacked.nested_closing (hs : s.Stacked) :
    Nested 0 (s.emitted.reverse ++ s.closing).reverse := by
  have he : (s.emitted.reverse ++ s.closing).reverse =
      ⟨.eof, "", s.position⟩ ::
        (List.replicate s.blocks.length ⟨.dedent, "", s.position⟩ ++ s.emitted) := by
    simp [closing]
  rw [he]
  apply Nested.other (by rintro ⟨⟩) (by rintro ⟨⟩)
  apply Nested.dedents
  rw [Nat.zero_add]
  exact hs.nested

/-- Blocks that end have begun. -/
lemma Nested.balanced (h : Nested 0 tokens.reverse) :
    opens tokens = closes tokens ∧ ∀ front, front <+: tokens → closes front ≤ opens front := by
  have hcount (ts : List Token) : opens ts.reverse = opens ts ∧ closes ts.reverse = closes ts :=
    ⟨countP_reverse, countP_reverse⟩
  constructor
  · have := h.count
    rw [(hcount tokens).1, (hcount tokens).2] at this
    omega
  · intro front hfront
    obtain ⟨d, hd⟩ := h.suffix (reverse_suffix.mpr hfront)
    have := hd.count
    rw [(hcount front).1, (hcount front).2] at this
    omega

/-- The layout of a text that can be read is balanced and stands where lines begin, and all through
its scan the stack of widths grows inwards from the margin and is as high as blocks are open. -/
theorem tokenize_laidOut (h : tokenize source = .ok tokens) :
    LaidOut tokens ∧ ∀ s, Scanning source.toList s →
      s.stack.head? = some 0 ∧ s.stack.Pairwise (· < ·) ∧
        s.stack.length + closes s.emitted = 1 + opens s.emitted := by
  constructor
  · obtain ⟨s, hread, hfinish⟩ := tokenize_iff.mp h
    obtain ⟨hstring, rfl⟩ := finish_iff.mp hfinish
    obtain ⟨hscan, hunread⟩ := Scanning.readAll .start rfl hread
    obtain ⟨hfits, htidy⟩ := hscan.tidy
    rw [hunread] at hfits
    have hlined : Lined s.emitted := htidy.lined (not_holds_of_fits hfits hstring)
    obtain ⟨hbalanced, hnested⟩ := hscan.stacked.nested_closing.balanced
    refine ⟨hbalanced, hnested, ?_, ?_, ?_⟩
    · intro front t back he hk
      rcases layout_split hlined he (.inl hk) with ⟨hd, _⟩ | hmargin
      · cases hk.symm.trans hd
      · exact hmargin
    · intro front t back he hk
      exact (layout_split hlined he (.inr hk)).imp_left And.right
    · have hsound : s.Sound := readAll_sound (s := start source.toList) trivial start_sound hread
      obtain ⟨inner, last, he, hproper, hlast, _⟩ := hsound.complete
      exact ⟨inner, last, he, hlast, fun t ht => (hproper t ht).ne_eof⟩
  · intro s hs
    exact ⟨rfl, hs.stacked.stack, hs.stacked.height⟩

end Rows

/-- A tab, a comment between two blocks, a width between those of two blocks, and a block open at
the end. -/
def uneven : String := "if a:\n\tif b:\n        say 1\n  # note\n      say 2\n"

/-- The wider line closes the innermost block only; the other ends with the text. -/
theorem uneven_laidOut : ∃ tokens, tokenize uneven = .ok tokens ∧
    (tokens.map Token.kind).filter (!·.isPlain) =
      [.newline, .indent, .newline, .indent, .newline, .newline, .dedent, .newline, .dedent, .eof] ∧
    LaidOut tokens ∧ ∀ s, Scanning uneven.toList s →
      s.stack.head? = some 0 ∧ s.stack.Pairwise (· < ·) ∧
        s.stack.length + closes s.emitted = 1 + opens s.emitted := by
  have hread :
    (tokenize uneven).toOption.map (fun tokens => (tokens.map Token.kind).filter (!·.isPlain)) =
      some [.newline, .indent, .newline, .indent, .newline,
      .newline, .dedent, .newline, .dedent, .eof] := by
    decide +kernel
  obtain ⟨tokens, htokens, hkinds⟩ := exists_ok hread
  obtain ⟨hlaid, hscan⟩ := tokenize_laidOut htokens
  exact ⟨tokens, htokens, hkinds, hlaid, hscan⟩

end Colloquy
