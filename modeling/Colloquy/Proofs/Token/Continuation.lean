import Colloquy.Proofs.Token.Reading
import Mathlib.Data.List.TakeWhile

/-!
# A text that follows another

The tokens of two texts, one after the other, are those of the first up to the ends of its blocks,
the blank lines with which the second begins, the ends of the blocks, and the rest. Until the first
token of the second, a scanner of both keeps the blocks of the first open (`Leading`).
-/

namespace Colloquy

open List Mode

lemma Mode.lineStart_ne_between {width : Nat} : Mode.lineStart width ≠ .between := nofun

lemma Mode.comment_ne_between : Mode.comment ≠ .between := nofun

namespace Scanner

section Leading

variable {m : Displacement} {before s t : Scanner} {c : Char} {next : Option Char}
  {text rest : List Char} {a b : Mode}

/-- What both scanners are amid, before the first token of the second text. -/
inductive Leads : Mode → Mode → Prop where
  | first : Leads .between (.lineStart 0)
  | margin {width} : Leads (.lineStart width) (.lineStart width)
  | comment : Leads .comment .comment

/-- A scanner of the second text and one of both, before its first token. -/
structure Leading (m : Displacement) (before s t : Scanner) : Prop where
  mode : Leads s.mode t.mode
  position : t.position = s.position.moved m
  blocks : s.blocks = []
  kept : t.blocks = before.blocks
  newlines : ∀ x ∈ s.emitted, x.kind = .newline
  emitted : t.emitted = s.emitted.map (Token.moved m) ++ before.emitted

lemma Leading.withMode (h : Leading m before s t) (hab : Leads a b) :
    Leading m before { s with mode := a } { t with mode := b } :=
  ⟨hab, h.position, h.blocks, h.kept, h.newlines, h.emitted⟩

lemma Leading.atLineStart (h : Leading m before s t) :
    Leading m before s.atLineStart t.atLineStart where
  mode := .margin
  position := h.position
  blocks := h.blocks
  kept := h.kept
  newlines := forall_mem_cons.mpr ⟨rfl, h.newlines⟩
  emitted := by
    simp only [Scanner.atLineStart, h.position, h.emitted]
    rfl

lemma Leading.past (h : Leading m before s t) :
    Leading m before (s.past c rest) (t.past c rest) where
  mode := h.mode
  position := by
    simp only [Scanner.past, h.position, after_moved]
  blocks := h.blocks
  kept := h.kept
  newlines := h.newlines
  emitted := h.emitted

/-- The ends of the blocks that are open, at some place. -/
def dedents (s : Scanner) (position : Position) : List Token :=
  List.replicate s.blocks.length ⟨.dedent, "", position⟩

/-- A scanner at the same place that has emitted nothing. -/
def cleared (s : Scanner) : Scanner := { s with mode := .between, emitted := [] }

/-- With a character the scanners go on as before, or the first finds its line indented, or both
begin the first token. -/
inductive Onward (m : Displacement) (before s t : Scanner) (c : Char)
    (next : Option Char) : Prop where
  | still {s' t'} :
    s.react c next = (none, s') →
    t.react c next = (none, t') →
    s'.mode ≠ .between →
    Leading m before s' t' →
    Onward m before s t c next
  | indented {width} :
    0 < width →
    s.react c next = (s.measure width).fresh c next →
    Onward m before s t c next
  | begun :
    Significant c next →
    s.react c next = (s.cleared.moved ⟨0, 0⟩ s.emitted s.unread).fresh c next →
    t.react c next =
      (s.cleared.moved m (before.dedents t.position ++ t.emitted) t.unread).fresh c next →
    Onward m before s t c next

lemma fresh_comment (h : beginsComment c next = true) :
    s.fresh c next = (none, { s with mode := .comment }) := by
  have hc : c = '#' ∨ c = '/' := by
    simp only [beginsComment, Bool.or_eq_true, Bool.and_eq_true, beq_iff_eq] at h
    exact h.imp_right And.left
  have hblank : ¬(c = ' ' ∨ c = '\t' ∨ c = '\r') ∧ c ≠ '\n' := by
    rcases hc with rfl | rfl <;> decide
  simp only [fresh, hblank.1, hblank.2, h, if_true, if_false]

lemma measure_zero (hpos : ∀ w ∈ s.blocks, 0 < w) :
    s.measure 0 = { s with blocks := [], emitted := s.dedents s.position ++ s.emitted } := by
  have htake : s.blocks.takeWhile (0 < ·) = s.blocks :=
    takeWhile_eq_self_iff.mpr fun w hw => decide_eq_true (hpos w hw)
  have hdrop : s.blocks.dropWhile (0 < ·) = [] :=
    dropWhile_eq_nil_iff.mpr fun w hw => decide_eq_true (hpos w hw)
  simp only [measure, Nat.not_lt_zero, if_false, htake, hdrop, emitDedents_eq, dedents]

lemma measure_zero_of_nil (h : s.blocks = []) : s.measure 0 = s := by
  obtain ⟨unread, position, mode, blocks, emitted⟩ := s
  subst h
  rfl

lemma Leading.begun (h : Leading m before s t) (hpos : ∀ w ∈ before.blocks, 0 < w)
    (hsig : Significant c next) (hs : s.react c next = s.fresh c next)
    (ht : t.react c next = (t.measure 0).fresh c next) :
    Onward m before s t c next := by
  refine .begun hsig ?_ ?_
  · rw [hs, moved_stay]
    rfl
  · rw [ht, measure_zero (h.kept ▸ hpos)]
    simp only [moved, cleared, dedents, h.kept, h.position, h.blocks]
    rfl

lemma Leads.not_holds (h : Leads a b) : a.holds = false ∧ b.holds = false := by
  cases h <;> exact ⟨rfl, rfl⟩

/-- The same at the beginning of a line. -/
lemma Leading.onward_margin {width : Nat} (h : Leading m before s t)
    (hpos : ∀ w ∈ before.blocks, 0 < w) (hr : c ≠ '\r') (hn : c ≠ '\n')
    (hs : s.mode = .lineStart width) (ht : t.mode = .lineStart width) :
    Onward m before s t c next := by
  by_cases hspace : c = ' '
  · have hreact (x : Scanner) (hx : x.mode = .lineStart width) :
        x.react c next = (none, { x with mode := .lineStart (width + 1) }) := by
      simp only [react, hx, hspace, if_true]
    exact .still (hreact s hs) (hreact t ht) lineStart_ne_between (h.withMode .margin)
  by_cases htab : c = '\t'
  · have hreact (x : Scanner) (hx : x.mode = .lineStart width) :
        x.react c next = (none, { x with mode := .lineStart (width + tabWidth) }) := by
      rw [htab]
      simp only [react, hx]
      rfl
    exact .still (hreact s hs) (hreact t ht) lineStart_ne_between (h.withMode .margin)
  cases hcomment : beginsComment c next with
  | true =>
    have hreact (x : Scanner) (hx : x.mode = .lineStart width) :
        x.react c next = (none, { x with mode := .comment }) := by
      simp only [react, hx, hspace, htab, hcomment, or_true, if_true, if_false, fresh_comment]
    exact .still (hreact s hs) (hreact t ht) comment_ne_between (h.withMode .comment)
  | false =>
    have hreact (x : Scanner) (hx : x.mode = .lineStart width) :
        x.react c next = (x.measure width).fresh c next := by
      simp only [react, hx, hspace, htab, hr, hn, hcomment, Bool.false_eq_true, or_self, if_false]
    cases width with
    | zero =>
      refine h.begun hpos ⟨hspace, htab, hr, hn, hcomment⟩ ?_ (hreact t ht)
      rw [hreact s hs, measure_zero_of_nil h.blocks]
    | succ width => exact .indented (Nat.succ_pos width) (hreact s hs)

/-- Every character leads onward. -/
lemma Leading.onward (h : Leading m before s t) (hpos : ∀ w ∈ before.blocks, 0 < w) (hr : c ≠ '\r')
    (hfirst : s.mode = .between → c ≠ ' ' ∧ c ≠ '\t') : Onward m before s t c next := by
  by_cases hn : c = '\n'
  · subst hn
    obtain ⟨hs, ht⟩ := h.mode.not_holds
    exact .still (react_newline_of_not_holds hs)
      (react_newline_of_not_holds ht) lineStart_ne_between
      h.atLineStart
  obtain ⟨a, ha⟩ : ∃ a, s.mode = a := ⟨_, rfl⟩
  obtain ⟨b, hb⟩ : ∃ b, t.mode = b := ⟨_, rfl⟩
  have hab : Leads a b := ha ▸ hb ▸ h.mode
  cases hab with
  | first =>
    -- the first line of a text is not measured, but after another text it is
    obtain ⟨hspace, htab⟩ := hfirst ha
    have hs : s.react c next = s.fresh c next := by
      simp only [react, ha]
    cases hcomment : beginsComment c next with
    | true =>
      have ht : t.react c next = t.fresh c next := by
        simp only [react, hb, hspace, htab, hcomment, or_true, if_true, if_false]
      rw [fresh_comment hcomment] at hs ht
      exact .still hs ht comment_ne_between (h.withMode .comment)
    | false =>
      refine h.begun hpos ⟨hspace, htab, hr, hn, hcomment⟩ hs ?_
      simp only [react, hb, hspace, htab, hr, hn, hcomment, Bool.false_eq_true, or_self, if_false]
  | margin => exact h.onward_margin hpos hr hn ha hb
  | comment =>
    refine .still (?_ : _ = (none, s)) (?_ : _ = (none, t)) (ha ▸ comment_ne_between) h
    · simp only [react, ha, hn, if_false]
    · simp only [react, hb, hn, if_false]

/-- The second text has no token, or is indented, or from its first token on a scanner `z` that has
emitted nothing does what both do. -/
inductive Joined (m : Displacement) (before s t : Scanner) (text : List Char) : Prop where
  | blank {s' t' : Scanner} :
    s.readAll text = (none, s') →
    t.readAll text = (none, t') →
    Leading m before s' t' →
    Joined m before s t text
  | indented {s' : Scanner} {out newlines : List Token} {x : Token} :
    s.readAll text = (none, s') →
    s'.emitted = out ++ x :: newlines →
    x.kind = .indent →
    (∀ x ∈ newlines, x.kind = .newline) →
    Joined m before s t text
  | begun {z : Scanner} {c : Char} {rest : List Char} {newlines : List Token}
  {position : Position} :
    z.cleared = z →
    z.blocks = [] →
    Significant c rest.head? →
    (∀ x ∈ newlines, x.kind = .newline) →
    s.readAll text = (z.moved ⟨0, 0⟩ newlines []).readAll (c :: rest) →
    t.readAll text =
      (z.moved m (before.dedents position ++ (newlines.map (Token.moved m) ++ before.emitted))
        []).readAll (c :: rest) →
    Joined m before s t text

lemma readAll_indented {width : Nat} {s' : Scanner} (hblocks : s.blocks = []) (hwidth : 0 < width)
    (hreact : s.react c rest.head? = (s.measure width).fresh c rest.head?)
    (h : s.readAll (c :: rest) = (none, s')) :
    ∃ out x, s'.emitted = out ++ x :: s.emitted ∧ x.kind = .indent := by
  have hmeasure : s.measure width = { s with blocks := [width] }.emit .indent "" s.position := by
    simp only [measure, hblocks, headD_nil, hwidth, if_true]
  rw [readAll_congr (t := { s.measure width with mode := .between }) hreact] at h
  obtain ⟨out, hout⟩ := readAll_emitted (s := { s.measure width with mode := .between }) trivial h
  rw [hmeasure] at hout
  exact ⟨out, _, hout, rfl⟩

/-- The scans of the second text and of both are joined. -/
lemma Leading.joined {s' : Scanner} (h : Leading m before s t)
    (hpos : ∀ w ∈ before.blocks, 0 < w) (hr : '\r' ∉ text)
    (hfirst : s.mode = .between → ∀ c, text.head? = some c → c ≠ ' ' ∧ c ≠ '\t')
    (hs : s.readAll text = (none, s')) : Joined m before s t text := by
  induction text generalizing s t with
  | nil => exact .blank rfl rfl ⟨h.mode, h.position, h.blocks, h.kept, h.newlines, h.emitted⟩
  | cons c rest ih =>
    have hc : c ≠ '\r' := fun hc => hr (hc ▸ mem_cons_self)
    have hrest : '\r' ∉ rest := fun hrest => hr (mem_cons_of_mem c hrest)
    have honward : Onward m before s t c rest.head? := h.onward hpos hc fun hm => hfirst hm c rfl
    cases honward with
    | @still s1 t1 hs1 ht1 hmode h1 =>
      have hsr : s.readAll (c :: rest) = (s1.past c rest).readAll rest := readAll_cons hs1
      have htr : t.readAll (c :: rest) = (t1.past c rest).readAll rest := readAll_cons ht1
      cases ih h1.past hrest (fun hm => absurd hm hmode) (hsr ▸ hs) with
      | blank hs' ht' h' => exact .blank (hsr ▸ hs') (htr ▸ ht') h'
      | indented hs' hout hx hn => exact .indented (hsr ▸ hs') hout hx hn
      | begun hz hb hsig hn hs' ht' => exact .begun hz hb hsig hn (hsr ▸ hs') (htr ▸ ht')
    | indented hwidth hreact =>
      obtain ⟨out, x, hout, hx⟩ := readAll_indented h.blocks hwidth hreact hs
      exact .indented hs hout hx h.newlines
    | begun hsig hs1 ht1 =>
      -- from here on the two scans are one scan, moved in two ways
      have hsr : s.readAll (c :: rest) = _ :=
        readAll_congr (t := s.cleared.moved ⟨0, 0⟩ s.emitted s.unread) hs1
      have htr : t.readAll (c :: rest) = _ :=
        readAll_congr (t := s.cleared.moved m (before.dedents t.position ++ t.emitted) t.unread) ht1
      rw [h.emitted] at htr
      exact .begun (z := s.cleared) rfl h.blocks hsig h.newlines (hsr.trans readAll_unread.symm)
        (htr.trans readAll_unread.symm)

end Leading

section Opening

variable {s s' : Scanner} {c : Char} {next : Option Char} {text : List Char}

/-- The first token is not the end of a line, or has begun. -/
def Opened (s : Scanner) : Prop :=
  (∃ out x, s.emitted = out ++ [x] ∧ x.kind ≠ .newline) ∨ s.emitted = [] ∧ s.mode.holds = true

lemma Extends.opened (h : s.Extends s') (hs : ∃ out x, s.emitted = out ++ [x] ∧ x.kind ≠ .newline) :
    s'.Opened := by
  obtain ⟨out, x, hout, hx⟩ := hs
  obtain ⟨more, hmore, _⟩ := h.emitted
  exact .inl ⟨more ++ out, x, by rw [hmore, hout, append_assoc], hx⟩

lemma ne_newline_of_isPlain {kind : TokenKind} (h : kind.isPlain = true) : kind ≠ .newline := by
  rintro rfl
  cases h

lemma Begins.opened (h : s.Begins c next (none, s')) (hsig : Significant c next)
    (hs : s.emitted = []) : s'.Opened := by
  cases h with
  | blank hn | comment hn => exact (hn hsig).elim
  | newline hn => exact (hsig.2.2.2.1 hn).elim
  | hold hm => exact .inr ⟨hs, hm⟩
  | @token t ht => exact .inl ⟨[], t, congrArg (t :: ·) hs, ne_newline_of_isPlain ht⟩

/-- A first token that has begun stays the first. -/
lemma Reacts.opened (h : s.Reacts c next (none, s')) (hs : s.Opened) : s'.Opened := by
  rcases hs with hout | ⟨hnil, hholds⟩
  · exact h.extends.opened hout
  · -- a token is under way, so that no line begins here
    cases h with
    | margin hm | comment hm | measure hm | fresh hm =>
      rw [hm] at hholds
      cases hholds
    | hold _ hm => exact .inr ⟨hnil, hm⟩
    | @token t _ ht => exact .inl ⟨[], t, congrArg (t :: ·) hnil, ne_newline_of_isPlain ht⟩
    | @tokenFresh t _ _ ht hb =>
      exact (hb.extends .refl).opened ⟨[], t, congrArg (t :: ·) hnil, ne_newline_of_isPlain ht⟩

lemma not_holds_of_fits (h : s.mode.Fits none) (hs : s.mode.inString = false) :
    s.mode.holds = false := by
  cases hm : s.mode with
  | between | lineStart | comment => rfl
  | quoted | escaped =>
    rw [hm] at hs
    cases hs
  | _ =>
    rw [hm] at h
    cases h

/-- A text that begins with a token has it first. -/
lemma readAll_opened (hs : s.cleared = s) (hsig : Significant c text.head?)
    (h : s.readAll (c :: text) = (none, s')) (hstring : s'.mode.inString = false) :
    ∃ out x, s'.emitted = out ++ [x] ∧ x.kind ≠ .newline := by
  have hmode : s.mode = .between := (congrArg mode hs).symm
  have hb : s.Begins c text.head? (s.react c text.head?) := by
    simp only [react, hmode]
    exact fresh_begins
  obtain ⟨s1, hreact, h⟩ := readAll_cons_inv h
  rw [hreact] at hb
  have hopened : (s1.past c text).Opened := hb.opened hsig (congrArg Scanner.emitted hs).symm
  obtain ⟨hfits, s2, hs2, rfl⟩ := readAll_run (P := fun s _ => s.Opened) (fun hs hr => hr.opened hs)
    (s := s1.past c text) hb.fits hopened h
  rcases hs2 with hout | ⟨_, hholds⟩
  · exact hout
  · -- a token that is still under way would go on after the end
    exact absurd ((not_holds_of_fits hfits hstring).symm.trans hholds) Bool.false_ne_true

end Opening

section Tokens

variable {m : Displacement} {before s : Scanner} {text source : List Char} {tokens : List Token}
  {position : Position}

/-- Tokens up to the end of a text, which comes once. -/
def Complete (tokens : List Token) : Prop :=
  ∃ inner last, tokens = inner ++ [last] ∧ (∀ t ∈ inner, Proper t) ∧
  last.kind = .eof ∧ last.text = ""

lemma Sound.complete (hs : s.Sound) : Complete (s.emitted.reverse ++ s.closing) := by
  refine ⟨s.emitted.reverse ++ s.dedents s.position, ⟨.eof, "", s.position⟩, ?_, ?_, rfl, rfl⟩
  · rw [append_assoc]
    rfl
  · refine forall_mem_append.mpr ⟨fun t ht =>
      hs.emitted t (mem_reverse.mp ht), fun t ht => ?_⟩
    rw [(mem_replicate.mp ht).2]
    exact proper_dedent

lemma tokenize_iff : (start source).tokenize.1 = .ok tokens ↔
    ∃ s, (start source).readAll source = (none, s) ∧ s.finish.1 = .ok tokens := by
  unfold tokenize
  rw [show (start source).unread = source from rfl]
  rcases (start source).readAll source with ⟨_ | e, s⟩
  · exact ⟨fun h => ⟨s, rfl, h⟩, fun ⟨_, hs, h⟩ => (Prod.mk.inj hs).2 ▸ h⟩
  · exact ⟨nofun, fun ⟨_, hs, _⟩ => nomatch (Prod.mk.inj hs).1⟩

lemma complete_of_tokenize (h : (start source).tokenize.1 = .ok tokens) : Complete tokens := by
  obtain ⟨s, hread, hfinish⟩ := tokenize_iff.1 h
  have hsound : s.Sound := readAll_sound (s := start source) trivial start_sound hread
  exact (finish_iff.1 hfinish).2 ▸ hsound.complete

/-- The first of these tokens, apart from ends of lines, opens a block. -/
def Indented (tokens : List Token) : Prop :=
  ∃ newlines x rest, tokens = newlines ++ x :: rest ∧
  (∀ x ∈ newlines, x.kind = .newline) ∧ x.kind = .indent

/-- The tokens of a text, and of the text before it with it. -/
inductive Follows (m : Displacement) (before : Scanner) : List Token → List Token → Prop where
  | intro {newlines rest : List Token} {position : Position} :
    (∀ x ∈ newlines, x.kind = .newline) →
    Complete rest →
    (∀ x, rest.head? = some x → x.kind ≠ .newline) →
    Follows m before (newlines ++ rest)
      (before.emitted.reverse ++
        (newlines.map (Token.moved m) ++ (before.dedents position ++ rest.map (Token.moved m))))

lemma reverse_dedents : (before.dedents position).reverse = before.dedents position :=
  reverse_replicate

/-- The tokens of both texts follow each other. -/
lemma Leading.follows {t : Scanner} (h : Leading m before s t) (hf : s.finish.1 = .ok tokens) :
    ∃ both, t.finish.1 = .ok both ∧ Follows m before tokens both := by
  obtain ⟨_, rfl⟩ := finish_iff.mp hf
  have hstring : t.mode.inString = false := by
    have hmode := h.mode
    generalize s.mode = a at hmode
    generalize t.mode = b at hmode ⊢
    cases hmode <;> rfl
  have hs : s.closing = [⟨.eof, "", s.position⟩] := by
    simp only [closing, h.blocks]
    rfl
  have ht :
      t.closing = before.dedents t.position ++ [⟨.eof, "", s.position⟩].map (Token.moved m) := by
    simp only [closing, dedents, h.kept, h.position]
    rfl
  refine ⟨_, finish_iff.mpr ⟨hstring, rfl⟩, ?_⟩
  rw [hs, ht, h.emitted, reverse_append, append_assoc, ← map_reverse]
  refine .intro (fun x hx => h.newlines x (mem_reverse.mp hx))
    ⟨[], _, rfl, forall_mem_nil _, rfl, rfl⟩ ?_
  rintro x hx
  cases hx
  rintro ⟨⟩

/-- A first token: from it on both scans are alike. -/
lemma moved_follows {z : Scanner} {c : Char} {rest : List Char} {newlines : List Token}
    (hz : z.cleared = z) (hblocks : z.blocks = []) (hsig : Significant c rest.head?)
    (hn : ∀ x ∈ newlines, x.kind = .newline)
    (h : (z.moved ⟨0, 0⟩ newlines []).readAll (c :: rest) = (none, s))
    (hf : s.finish.1 = .ok tokens) :
    ∃ t both,
      (z.moved m (before.dedents position ++ (newlines.map (Token.moved m) ++ before.emitted))
        []).readAll (c :: rest) =
        (none, t) ∧ t.finish.1 = .ok both ∧ Follows m before tokens both := by
  have hmode : z.mode = .between := (congrArg mode hz).symm
  have hemitted : z.emitted = [] := (congrArg Scanner.emitted hz).symm
  have hfits : z.mode.Fits (c :: rest).head? := by
    rw [hmode]
    trivial
  rw [readAll_moved] at h ⊢
  rcases hread : z.readAll (c :: rest) with ⟨_ | e, z'⟩ <;> rw [hread] at h
  · obtain ⟨_, rfl⟩ := Prod.mk.inj h
    have hstring : z'.mode.inString = false := by
      rw [← inString_moved]
      exact (finish_iff.mp hf).1
    have hz' : z'.finish.1 = .ok (z'.emitted.reverse ++ z'.closing) := finish_iff.mpr ⟨hstring, rfl⟩
    have hsound : z'.Sound :=
      readAll_sound hfits ⟨by rw [hblocks]; nofun, by rw [hemitted]; nofun⟩ hread
    obtain ⟨out, x, hout, hx⟩ := readAll_opened hz hsig hread hstring
    refine ⟨_, _, rfl, finish_moved hz', ?_⟩
    rw [← Except.ok.inj ((finish_moved hz').symm.trans hf),
      map_stay, reverse_append, reverse_append,
      reverse_dedents, ← map_reverse, append_assoc, append_assoc]
    refine .intro (fun x hx => hn x (mem_reverse.mp hx)) hsound.complete fun y hy => ?_
    rw [hout, reverse_append] at hy
    cases hy
    exact hx
  · cases (Prod.mk.inj h).1

/-- A scan of the second text follows the first. -/
lemma readAll_follows (hsound : before.Sound) (hmode : before.mode = .lineStart 0)
    (hposition : before.position = Position.start.moved m) (hr : '\r' ∉ text)
    (hfirst : ∀ c, text.head? = some c → c ≠ ' ' ∧ c ≠ '\t')
    (h : (start text).readAll text = (none, s)) (hf : s.finish.1 = .ok tokens) :
    Indented tokens ∨ ∃ t both, before.readAll text = (none, t) ∧ t.finish.1 = .ok both ∧
      Follows m before tokens both := by
  have hleading : Leading m before (start text) before :=
    ⟨hmode ▸ .first, hposition, rfl, rfl, nofun, rfl⟩
  cases hleading.joined hsound.blocks hr (fun _ => hfirst) h with
  | blank hs ht hl =>
    obtain ⟨_, rfl⟩ := Prod.mk.inj (h.symm.trans hs)
    obtain ⟨both, hboth, hfollows⟩ := hl.follows hf
    exact .inr ⟨_, both, ht, hboth, hfollows⟩
  | @indented s' out newlines x hs hout hx hn =>
    obtain ⟨_, rfl⟩ := Prod.mk.inj (h.symm.trans hs)
    obtain ⟨_, rfl⟩ := finish_iff.mp hf
    refine .inl ⟨newlines.reverse, x, out.reverse ++ s.closing, ?_, fun x hx =>
      hn x (mem_reverse.mp hx), hx⟩
    simp only [hout, reverse_append, reverse_cons, append_assoc, cons_append, nil_append]
  | begun hz hb hsig hn hs ht =>
    obtain ⟨t, both, hread, hboth, hfollows⟩ := moved_follows hz hb hsig hn (hs ▸ h) hf
    exact .inr ⟨t, both, ht.trans hread, hboth, hfollows⟩

end Tokens

end Scanner

end Colloquy
