import Colloquy.Proofs.Token.Trivia

/-!
# Lines of the same width

Two lines of the same width would belong to the same block if a line were compared with the line
before it. It is compared with the innermost open block instead. After a line that was measured,
this block is at most as wide as the line, so that nothing ends before the next line of that width;
and it is just as wide unless the width of the line was between those of two blocks, in which case
the next line begins a block. The first line of a text and lines with a carriage return behind their
margin are not measured.
-/

namespace Colloquy

open Scanner List

/-- The width of a margin. -/
def marginWidth : List Char → Nat
  | [] => 0
  | c :: margin => (if c = '\t' then tabWidth else 1) + marginWidth margin

/-- The beginning of a line with a token: its margin, more blanks from a carriage return on, and the
first character. -/
structure LineHead where
  margin : List Char
  stray : List Char
  first : Char

namespace LineHead

/-- The characters of such a beginning. -/
def text (a : LineHead) : List Char := a.margin ++ (a.stray ++ [a.first])

/-- The width of the line. -/
def width (a : LineHead) : Nat := marginWidth a.margin

/-- A line can begin so if it goes on with this character. -/
structure Opens (a : LineHead) (next : Option Char) : Prop where
  margin : ∀ c ∈ a.margin, c = ' ' ∨ c = '\t'
  stray : ∀ c ∈ a.stray, c = ' ' ∨ c = '\t' ∨ c = '\r'
  returns : ∀ c ∈ a.stray.head?, c = '\r'
  first : Significant a.first next

end LineHead

instance {c : Char} {next : Option Char} : Decidable (Significant c next) :=
  inferInstanceAs (Decidable (_ ∧ _))

/-- A line without a token. -/
def IsBare (line : List Char) : Prop :=
  ∃ blanks note, line = blanks ++ note ∧ (∀ c ∈ blanks, c = ' ' ∨ c = '\t' ∨ c = '\r') ∧
    (note = [] ∨ OpensComment note) ∧ '\n' ∉ note

/-- Two lines with tokens one after the other, the first behind `front` with `body` after its
beginning, the second behind the lines `spare` without tokens. Neither begins inside a string, and
the first goes on where a string does. -/
structure Successive (source : String) (front : List Char) (a : LineHead) (body : List Char)
    (spare : List (List Char)) (b : LineHead) (rest : List Char) : Prop where
  text : source.toList =
    front ++ (a.text ++ (body ++ '\n' :: (spare.flatMap (· ++ ['\n']) ++ (b.text ++ rest))))
  begins : front = [] ∨ ∃ before, front = before ++ ['\n'] ∧ ¬ InString source before.length
  first : a.Opens (body ++ ['\n']).head?
  inside : ∀ before after, body = before ++ '\n' :: after →
  InString source (front ++ (a.text ++ before)).length
  ends : ¬ InString source (front ++ (a.text ++ body)).length
  spare : ∀ line ∈ spare, IsBare line
  second : b.Opens rest.head?

/-- The tokens between the last one inside a line before an offset and the next one. -/
def gapAt (tokens : List Token) (i : Nat) : List Token :=
  ((tokens.takeWhile (·.stop ≤ i)).reverse.takeWhile (!·.kind.isPlain)).reverse ++
    (tokens.dropWhile (·.stop ≤ i)).takeWhile (!·.kind.isPlain)

/-- No block begins or ends between lines of the same width one after the other. -/
def LevelSiblings (source : String) : Prop :=
  ∀ tokens front a body spare b rest, tokenize source = .ok tokens →
  Successive source front a body spare b rest →
    a.width = b.width → ∀ t ∈ gapAt tokens (front ++ (a.text ++ body)).length, t.kind ≠
      .indent ∧ t.kind ≠ .dedent

namespace Scanner

section Segments

variable {source rest blanks note line : List Char} {s s' s'' : Scanner} {mode mode' : Mode}
  {more more' tokens : List Token} {c : Char} {a : LineHead} {next : Option Char}

/-- A scan goes on up to some rest and into some mode, emitting these tokens with the same blocks
open. -/
structure GoesOn (source : List Char) (s s' : Scanner) (rest : List Char) (mode : Mode)
    (more : List Token) : Prop where
  scanning : Scanning source s'
  unread : s'.unread = rest
  mode : s'.mode = mode
  blocks : s'.blocks = s.blocks
  emitted : s'.emitted = more ++ s.emitted

lemma GoesOn.trans {rest' : List Char} (h : GoesOn source s s' rest mode more)
    (h' : GoesOn source s' s'' rest' mode' more') :
    GoesOn source s s'' rest' mode' (more' ++ more) :=
  ⟨h'.scanning, h'.unread, h'.mode, h'.blocks.trans h.blocks,
  by rw [h'.emitted, h.emitted, append_assoc]⟩

section

variable (h : Scanning source s)
include h

lemma Scanning.idle (hunread : s.unread = c :: rest)
    (hreact : s.react c rest.head? = (none, { s with mode := mode })) :
    GoesOn source s ({ s with mode := mode }.past c rest) rest mode [] :=
  ⟨.step h hunread hreact, rfl, rfl, rfl, rfl⟩

lemma Scanning.past_blanks (hunread : s.unread = blanks ++ rest)
    (hs : s.mode.holds = false) (hb : ∀ c ∈ blanks, c = ' ' ∨ c = '\t' ∨ c = '\r') :
    ∃ s', GoesOn source s s' rest (s.mode.afterBlanks blanks) [] := by
  induction blanks generalizing s with
  | nil => exact ⟨s, h, hunread, rfl, rfl, rfl⟩
  | cons c blanks ih =>
    obtain ⟨hc, hb⟩ := forall_mem_cons.mp hb
    have hgoes := h.idle hunread (react_blank hs hc)
    obtain ⟨s', hs'⟩ := ih hgoes.scanning hgoes.unread (hgoes.mode ▸ Mode.holds_afterBlank hs) hb
    rw [hgoes.mode] at hs'
    exact ⟨s', hgoes.trans hs'⟩

lemma Scanning.past_comment (hunread : s.unread = note ++ rest)
    (hs : s.mode = .comment) (hnote : '\n' ∉ note) : ∃ s', GoesOn source s s' rest .comment [] := by
  induction note generalizing s with
  | nil => exact ⟨s, h, hunread, hs, rfl, rfl⟩
  | cons c note ih =>
    have hc : c ≠ '\n' := fun hc => hnote (hc ▸ mem_cons_self)
    have hgoes := h.idle hunread (react_in_comment hs hc)
    obtain ⟨s', hs'⟩ :=
      ih hgoes.scanning hgoes.unread hgoes.mode fun hmem => hnote (mem_cons_of_mem c hmem)
    exact ⟨s', hgoes.trans hs'⟩

lemma Scanning.past_newline (hunread : s.unread = '\n' :: rest) (hs : s.mode.holds = false) :
    GoesOn source s (s.atLineStart.past '\n' rest) rest (.lineStart 0) [lineBreak s.position] :=
  ⟨.step h hunread (react_newline_of_not_holds hs), rfl, rfl, rfl, rfl⟩

/-- A line without tokens emits its end. -/
lemma Scanning.past_bare (hunread : s.unread = line ++ '\n' :: rest)
    (hs : s.mode.holds = false) (hline : IsBare line) :
    ∃ s' n, n.kind = .newline ∧ GoesOn source s s' rest (.lineStart 0) [n] := by
  obtain ⟨blanks, note, rfl, hb, hnote, hn⟩ := hline
  rw [append_assoc] at hunread
  obtain ⟨s1, h1⟩ := h.past_blanks hunread hs hb
  have hholds : s1.mode.holds = false := h1.mode ▸ Mode.holds_afterBlanks hs
  cases note with
  | nil =>
    have h2 := h1.scanning.past_newline h1.unread hholds
    exact ⟨_, _, rfl, h1.trans h2⟩
  | cons c note =>
    have hc : c ≠ '\n' := fun hc => hn (hc ▸ mem_cons_self)
    have hopens : OpensComment (c :: note) := hnote.resolve_left (cons_ne_nil c note)
    have hbegins : beginsComment c (note ++ '\n' :: rest).head? = true :=
      opensComment_iff.mpr hopens.append
    have h2 := h1.scanning.idle h1.unread (react_comment hholds hbegins hc)
    obtain ⟨s3, h3⟩ :=
      h2.scanning.past_comment h2.unread h2.mode fun hmem => hn (mem_cons_of_mem c hmem)
    have h4 := h3.scanning.past_newline h3.unread (h3.mode ▸ rfl)
    exact ⟨_, _, rfl, (h1.trans h2).trans (h3.trans h4)⟩

/-- So does each of several such lines. -/
lemma Scanning.past_bares {spare : List (List Char)}
    (hunread : s.unread = spare.flatMap (· ++ ['\n']) ++ rest) (hs : s.mode = .lineStart 0)
    (hspare : ∀ line ∈ spare, IsBare line) :
    ∃ s' more, (∀ t ∈ more, t.kind = .newline) ∧ GoesOn source s s' rest (.lineStart 0) more := by
  induction spare generalizing s with
  | nil => exact ⟨s, [], forall_mem_nil _, h, hunread, hs, rfl, rfl⟩
  | cons line spare ih =>
    obtain ⟨hline, hspare⟩ := forall_mem_cons.mp hspare
    have htext : s.unread = line ++ '\n' :: (spare.flatMap (· ++ ['\n']) ++ rest) := by
      rw [hunread]
      simp
    obtain ⟨s1, n, hn, h1⟩ := h.past_bare htext (hs ▸ rfl) hline
    obtain ⟨s2, more, hmore, h2⟩ := ih h1.scanning h1.unread h1.mode hspare
    exact ⟨s2, more ++ [n], forall_mem_append.mpr ⟨hmore, forall_mem_singleton.mpr hn⟩, h1.trans h2⟩

end

lemma afterBlanks_margin {margin : List Char} {width : Nat} (h : ∀ c ∈ margin, c = ' ' ∨ c = '\t') :
    (Mode.lineStart width).afterBlanks margin = .lineStart (width + marginWidth margin) := by
  induction margin generalizing width with
  | nil => rfl
  | cons c margin ih =>
    obtain ⟨hc, h⟩ := forall_mem_cons.mp h
    rw [marginWidth, ← Nat.add_assoc, ← ih h]
    rcases hc with rfl | rfl <;> rfl

/-- What a scanner is amid before the first token of a further line. -/
def atFirst (a : LineHead) : Mode := if a.stray = [] then .lineStart a.width else .between

lemma atFirst_cases : atFirst a = .between ∨ (atFirst a).inMargin = true := by
  unfold atFirst
  split
  · exact .inr rfl
  · exact .inl rfl

lemma afterBlanks_head (ha : a.Opens next) :
    (Mode.lineStart 0).afterBlanks (a.margin ++ a.stray) = atFirst a := by
  rw [Mode.afterBlanks, foldl_append]
  change ((Mode.lineStart 0).afterBlanks a.margin).afterBlanks a.stray = _
  rw [afterBlanks_margin ha.margin, Nat.zero_add, atFirst]
  cases hstray : a.stray with
  | nil => rfl
  | cons c stray =>
    -- after a carriage return the line is no longer measured
    obtain rfl : c = '\r' := ha.returns c (hstray ▸ rfl)
    exact Mode.afterBlanks_between

lemma Scanning.past_margin (h : Scanning source s)
    (hunread : s.unread = a.text ++ rest) (hs : s.mode.holds = false) (ha : a.Opens next) :
    ∃ s', GoesOn source s s' (a.first :: rest) (s.mode.afterBlanks (a.margin ++ a.stray)) [] := by
  have htext : s.unread = (a.margin ++ a.stray) ++ (a.first :: rest) := by
    rw [hunread, LineHead.text]
    simp
  refine h.past_blanks htext hs (forall_mem_append.mpr ⟨fun c hc => ?_, ha.stray⟩)
  exact (ha.margin c hc).imp_right .inl

end Segments

section Tokens

variable {source text rest : List Char} {s s' : Scanner} {c : Char} {next : Option Char}
  {tokens : List Token}

/-- The scanner that has measured its line, if it is at its beginning. -/
def measured (s : Scanner) : Scanner :=
  match s.mode with
  | .lineStart width => s.measure width
  | _ => s

/-- Before a token the line is measured. -/
lemma react_significant (hs : s.mode = .between ∨ s.mode.inMargin = true)
    (hc : Significant c next) :
    s.react c next = s.measured.fresh c next := by
  unfold react measured
  rcases hs with hs | hs
  · rw [hs]
  · obtain ⟨width, hs⟩ := Mode.inMargin_iff.mp hs
    obtain ⟨hspace, htab, hreturn, hnewline, hcomment⟩ := hc
    have hbare : ¬(c = '\n' ∨ c = '\r' ∨ beginsComment c next = true) := by
      rw [hcomment]
      simp [hnewline, hreturn]
    rw [hs]
    dsimp only
    rw [if_neg hspace, if_neg htab, if_neg hbare]

lemma Scanning.scans (h : Scanning source s)
    (htokens : (Scanner.start source).tokenize.1 = .ok tokens) :
    s.Scans s.unread tokens := by
  induction h with
  | start => exact tokenize_iff.mp htokens
  | step _ hunread hreact ih =>
    obtain ⟨z, hread, hfinish⟩ := ih
    rw [hunread, readAll_cons hreact] at hread
    exact ⟨z, hread, hfinish⟩

lemma Scans.emitted (h : s.Scans text tokens) (hf : s.mode.Fits text.head?) :
    ∃ more, tokens = s.emitted.reverse ++ more := by
  obtain ⟨z, hread, hfinish⟩ := h
  obtain ⟨out, hout⟩ := readAll_emitted hf hread
  refine ⟨out.reverse ++ z.closing, ?_⟩
  rw [(finish_iff.mp hfinish).2, hout, reverse_append, append_assoc]

/-- The token that is under way is the next one. -/
lemma Scans.holds (h : s.Scans text tokens) (hs : s.mode.holds = true)
    (hf : s.mode.Fits text.head?) :
    ∃ x more, tokens = s.emitted.reverse ++ x :: more ∧ x.kind.isPlain = true := by
  induction text generalizing s with
  | nil =>
    obtain ⟨z, hread, hfinish⟩ := h
    obtain ⟨_, rfl⟩ := Prod.mk.inj hread
    cases hs.symm.trans (not_holds_of_fits hf (finish_iff.mp hfinish).1)
  | cons c rest ih =>
    obtain ⟨z, hread, hfinish⟩ := h
    obtain ⟨s1, hreact, hread⟩ := readAll_cons_inv hread
    have hr : s.Reacts c rest.head? (none, s1) := hreact ▸ react_reacts hf
    have hmore : (s1.past c rest).Scans rest tokens := ⟨z, hread, hfinish⟩
    have hbegun {t : Token} {out : List Token} (ht : t.kind.isPlain = true)
      (hs1 : s1.emitted = out ++ t :: s.emitted) :
        ∃ x more, tokens = s.emitted.reverse ++ x :: more ∧ x.kind.isPlain = true := by
      obtain ⟨more, rfl⟩ := hmore.emitted hr.fits
      refine ⟨t, out.reverse ++ more, ?_, ht⟩
      rw [show (s1.past c rest).emitted = s1.emitted from rfl, hs1]
      simp
    cases hr with
    | margin hm | measure hm | comment hm =>
      rw [hm] at hs
      cases hs
    | fresh hm => cases hs.symm.trans hm
    | hold _ hm hfits => exact ih (s := { s with mode := _ }.past c rest) hmore hm hfits
    | token _ ht => exact hbegun ht (nil_append _).symm
    | @tokenFresh t r _ ht hb =>
      obtain ⟨out, hout, _⟩ := (hb.extends .refl).emitted
      exact hbegun ht hout

/-- The token that begins is the next one. -/
lemma Begins.next_plain (h : s.Begins c rest.head? (none, s')) (hc : Significant c rest.head?)
    (hscans : (s'.past c rest).Scans rest tokens) :
    ∃ x more, tokens = s.emitted.reverse ++ x :: more ∧ x.kind.isPlain = true := by
  cases h with
  | blank hn | comment hn => exact (hn hc).elim
  | newline hn => exact (hc.2.2.2.1 hn).elim
  | hold hm hfits => exact hscans.holds hm hfits
  | @token t ht =>
    obtain ⟨more, rfl⟩ := hscans.emitted trivial
    refine ⟨t, more, ?_, ht⟩
    simp [past]

end Tokens

section Bodies

variable {source : String} {body rest : List Char} {s s' : Scanner} {c : Char} {next : Option Char}
  {tokens : List Token}

/-- The last token is one inside a line, or one is under way. -/
def Trails (s : Scanner) : Prop :=
  s.mode.holds = true ∨ ∃ t ts, s.emitted = t :: ts ∧ t.kind.isPlain = true

lemma Trails.last (h : s.Trails) (hs : s.mode.holds = false) :
    ∃ t ts, s.emitted = t :: ts ∧ t.kind.isPlain = true := by
  refine h.resolve_left fun hholds => ?_
  cases hs.symm.trans hholds

lemma Begins.trails (h : s.Begins c next (none, s')) (hc : c ≠ '\n')
    (hs : Significant c next ∨ ∃ t ts, s.emitted = t :: ts ∧ t.kind.isPlain = true) :
    s'.Trails := by
  cases h with
  | blank hn | comment hn => exact .inr (hs.resolve_left hn)
  | newline hn => exact (hc hn).elim
  | hold hm => exact .inl hm
  | token ht => exact .inr ⟨_, _, rfl, ht⟩

/-- Inside a line the last token is one of the line. -/
lemma react_trails (hfits : s.mode.Fits (some c)) (hmargin : s.mode.inMargin = false)
    (hc : c = '\n' → s.mode.inString = true) (hs : s.Trails)
    (h : s.react c next = (none, s')) : s'.Trails := by
  by_cases hn : c = '\n'
  · subst hn
    have hstring := inString_react_newline hfits (hc rfl) next
    rw [h] at hstring
    exact .inl (holds_of_inString hstring)
  · have hr : s.Reacts c next (none, s') := h ▸ react_reacts hfits
    cases hr with
    | margin hm | measure hm =>
      rw [hm] at hmargin
      cases hmargin
    | comment => exact hs
    | fresh hm hb => exact hb.trails hn (.inr (hs.last hm))
    | hold _ hm => exact .inl hm
    | token _ ht => exact .inr ⟨_, _, rfl, ht⟩
    | tokenFresh _ ht hb => exact hb.trails hn (.inr ⟨_, _, rfl, ht⟩)

/-- The first token of a line comes after its layout. -/
lemma Scanning.past_first (h : Scanning source.toList s)
    (htokens : Colloquy.tokenize source = .ok tokens) (hunread : s.unread = c :: rest)
    (hmode : s.mode = .between ∨ s.mode.inMargin = true) (hc : Significant c rest.head?) :
    (∃ s', Scanning source.toList s' ∧ s'.unread = rest ∧
      s'.blocks = s.measured.blocks ∧ s'.mode.inMargin = false ∧
      s'.Trails) ∧ ∃ x more, tokens = s.measured.emitted.reverse ++ x :: more ∧
        x.kind.isPlain = true := by
  have hscans : s.Scans (c :: rest) tokens := hunread ▸ h.scans htokens
  obtain ⟨z, hread, hfinish⟩ := hscans
  obtain ⟨s', hreact, hread⟩ := readAll_cons_inv hread
  have hnext : Scanning source.toList (s'.past c rest) := .step h hunread hreact
  rw [react_significant hmode hc] at hreact
  have hbegins : s.measured.Begins c rest.head? (none, s') := hreact ▸ fresh_begins
  have hblocks : (s.measured.fresh c rest.head?).2.blocks = s.measured.blocks := blocks_fresh
  rw [hreact] at hblocks
  have hne : c ≠ '\n' := hc.2.2.2.1
  refine ⟨⟨s'.past c rest, hnext, rfl, hblocks, hbegins.inMargin hne, ?_⟩,
    hbegins.next_plain hc ⟨z, hread, hfinish⟩⟩
  exact hbegins.trails hne (.inl hc)

lemma Scanning.offset {source : List Char} (h : Scanning source s) :
    s.position.offset + s.unread.length = source.length := by
  obtain ⟨front, held, hs, rfl⟩ := h.stands
  rw [hs.position]
  simp [Position.behind, Nat.add_assoc]

/-- No block begins or ends inside a line, which has no break but in strings. -/
lemma Scanning.past_body (h : Scanning source.toList s)
    (htokens : Colloquy.tokenize source = .ok tokens) (hunread : s.unread = body ++ rest)
    (hmargin : s.mode.inMargin = false) (hs : s.Trails)
    (hinside : ∀ before after, body = before ++ '\n' :: after →
      InString source (s.position.offset + before.length)) :
    ∃ s', Scanning source.toList s' ∧ s'.unread = rest ∧ s'.blocks = s.blocks ∧ s'.Trails := by
  induction body generalizing s with
  | nil => exact ⟨s, h, hunread, rfl, hs⟩
  | cons c body ih =>
    rw [cons_append] at hunread
    have hscans : s.Scans (c :: (body ++ rest)) tokens := hunread ▸ h.scans htokens
    have hfits : s.mode.Fits (some c) := by
      have hfits := h.tidy.1
      rw [hunread] at hfits
      exact hfits
    obtain ⟨s1, hreact, _⟩ := readAll_cons_inv hscans.choose_spec.1
    have hc : c = '\n' → s.mode.inString = true := by
      rintro rfl
      rw [← h.inString_break hunread htokens hscans]
      exact hinside [] body rfl
    have hnext : Scanning source.toList (s1.past c (body ++ rest)) := .step h hunread hreact
    have hblocks : (s.react c (body ++ rest).head?).2.blocks = s.blocks := blocks_react hmargin
    rw [hreact] at hblocks
    have hmargin1 : s1.mode.inMargin = false := inMargin_react hfits hmargin hc hreact
    have htrails : s1.Trails := react_trails hfits hmargin hc hs hreact
    have hoffset : (s1.past c (body ++ rest)).position.offset = s.position.offset + 1 := by
      have hs := h.offset
      have hs1 := hnext.offset
      rw [hunread, length_cons] at hs
      change _ + (body ++ rest).length = _ at hs1
      omega
    obtain ⟨s', hs', hunread', hblocks', htrails'⟩ :=
      ih hnext rfl hmargin1 htrails fun before after he => by
        rw [hoffset, Nat.add_assoc, Nat.add_comm 1]
        exact hinside (c :: before) after (congrArg (List.cons c) he)
    exact ⟨s', hs', hunread', hblocks'.trans hblocks, htrails'⟩

end Bodies

section Blocks

variable {s : Scanner} {width : Nat}

/-- No block is wider than the line that was measured. -/
lemma headD_measure_le : (s.measure width).blocks.headD 0 ≤ width := by
  unfold measure
  split
  · exact Nat.le_refl _
  · rw [emitDedents_eq]
    change (s.blocks.dropWhile (decide <| width < ·)).headD 0 ≤ width
    have hnot := List.head?_dropWhile_not (decide <| width < ·) s.blocks
    cases hdrop : s.blocks.dropWhile (decide <| width < ·) with
    | nil => exact Nat.zero_le _
    | cons w blocks =>
      rw [hdrop] at hnot
      exact Nat.le_of_not_lt (of_decide_eq_false hnot)

/-- A measured line begins a block, or ends some. -/
lemma measure_run : ∃ run, (s.measure width).emitted = run ++ s.emitted ∧
    (∀ t ∈ run, t.kind = .indent ∨ t.kind = .dedent) ∧
    (s.blocks.headD 0 ≤ width → ∀ t ∈ run, t.kind = .indent) ∧
    (run = [] ↔ s.blocks.headD 0 = width) := by
  unfold measure
  split
  · rename_i hlt
    refine ⟨[_], rfl, forall_mem_singleton.mpr (.inl rfl), fun _ =>
      forall_mem_singleton.mpr rfl, ?_⟩
    exact iff_of_false (cons_ne_nil _ _) (Nat.ne_of_lt hlt)
  · rename_i hnot
    have hnone : s.blocks.takeWhile (decide <| width < ·) = [] ↔ s.blocks.headD 0 ≤ width := by
      cases s.blocks with
      | nil => exact iff_of_true rfl (Nat.zero_le _)
      | cons w blocks =>
        rw [takeWhile_cons]
        by_cases hlt : width < w
        · simp [hlt]
        · simp [hlt, Nat.le_of_not_lt hlt]
    rw [emitDedents_eq]
    refine ⟨_, rfl, fun t ht => ?_, fun hle t ht => ?_, ?_⟩
    · rw [(mem_replicate.mp ht).2]
      exact .inr rfl
    · rw [hnone.mpr hle] at ht
      cases ht
    · rw [replicate_eq_nil_iff, length_eq_zero_iff, hnone]
      exact ⟨fun hle => Nat.le_antisymm hle (Nat.le_of_not_lt hnot), Nat.le_of_eq⟩

/-- A line head emits only layout. -/
lemma measured_run {a : LineHead} (hs : s.mode = atFirst a) :
    ∃ run, s.measured.emitted = run ++ s.emitted ∧
    (∀ t ∈ run, t.kind = .indent ∨ t.kind = .dedent) ∧
      (s.blocks.headD 0 ≤ a.width → ∀ t ∈ run, t.kind = .indent) ∧
      (run = [] ↔ s.blocks.headD 0 = a.width ∨ a.stray ≠ []) := by
  unfold measured
  rw [hs, atFirst]
  by_cases hstray : a.stray = []
  · rw [if_pos hstray, or_iff_left (not_not_intro hstray)]
    exact measure_run
  · rw [if_neg hstray]
    exact ⟨[], rfl, forall_mem_nil _, fun _ =>
      forall_mem_nil _, iff_of_true rfl (.inr hstray)⟩

end Blocks

end Scanner

section Rows

variable {source : String} {tokens : List Token} {front body rest : List Char} {a b : LineHead}
  {spare : List (List Char)}

/-- The tokens between two tokens inside lines. -/
lemma gapAt_eq {x y : Token} {ts gap back : List Token} {p : Position}
    (hf : Faithful source.toList ((x :: ts).reverse ++ lineBreak p :: (gap ++ y :: back)))
    (hx : x.kind.isPlain = true) (hgap : ∀ t ∈ gap, t.kind.isPlain = false)
    (hy : y.kind.isPlain = true) :
    gapAt ((x :: ts).reverse ++ lineBreak p :: (gap ++ y :: back)) p.offset =
      lineBreak p :: gap := by
  obtain ⟨_, _, hbefore⟩ := pairwise_append.mp hf.ordered
  have hline : ∀ t ∈ (x :: ts).reverse, decide (t.stop ≤ p.offset) = true :=
    fun t ht => decide_eq_true (hbefore t ht _ mem_cons_self)
  have hbreak : decide ((lineBreak p).stop ≤ p.offset) = false := by simp [Token.stop, lineBreak]
  have hrest : (gap ++ y :: back).takeWhile (!·.kind.isPlain) = gap := by
    rw [takeWhile_append_of_pos fun t ht => by rw [hgap t ht]; rfl,
      takeWhile_cons_of_neg (by simp [hy]), append_nil]
  have hnewline : (lineBreak p).kind.isPlain = false := rfl
  unfold gapAt
  rw [takeWhile_append_of_pos hline, dropWhile_append_of_pos hline]
  simp only [takeWhile_cons, dropWhile_cons, hbreak, Bool.false_eq_true, if_false, append_nil,
    reverse_reverse, hx, Bool.not_true, reverse_nil,
    nil_append, hnewline, Bool.not_false, if_true, hrest]

section

variable (h : Successive source front a body spare b rest) (htokens : tokenize source = .ok tokens)
include h htokens

/-- A scan comes to the first token of the first line. -/
lemma Successive.scanning_first :
    ∃ s, Scanning source.toList s ∧
      s.unread = a.first :: (body ++ '\n' :: (spare.flatMap (· ++ ['\n']) ++ (b.text ++ rest))) ∧
      s.mode = if front = [] then .between else atFirst a := by
  rcases h.begins with rfl | ⟨before, rfl, hout⟩
  · obtain ⟨s, hs⟩ := Scanning.start.past_margin h.text rfl h.first
    refine ⟨s, hs.scanning, hs.unread, ?_⟩
    rw [hs.mode, if_pos rfl]
    exact Mode.afterBlanks_between
  · have htext := h.text
    rw [append_assoc] at htext
    obtain ⟨s, hs, hunread, hposition, hscans, _⟩ := tokenize_split htokens htext (.inr (.inl rfl))
    have hoffset : s.position.offset = before.length := congrArg Position.offset hposition
    have hstring : s.mode.inString = false := by
      rw [← hoffset, hs.inString_break hunread htokens hscans] at hout
      exact Bool.eq_false_iff.mpr hout
    have hholds := not_holds_of_inert hs.tidy.1 (by rw [hunread]; exact .inr (.inl rfl)) hstring
    have hbreak := hs.past_newline hunread hholds
    obtain ⟨s', hs'⟩ := hbreak.scanning.past_margin hbreak.unread (hbreak.mode ▸ rfl) h.first
    refine ⟨s', hs'.scanning, hs'.unread, ?_⟩
    rw [hs'.mode, hbreak.mode, if_neg (by simp)]
    exact afterBlanks_head h.first

/-- A scan comes to the end of a line. If it was measured, no wider block is open. -/
lemma Successive.scanning_end :
    ∃ s, Scanning source.toList s ∧ s.unread = '\n' ::
      (spare.flatMap (· ++ ['\n']) ++ (b.text ++ rest)) ∧
      s.position.offset = (front ++ (a.text ++ body)).length ∧ s.mode.holds = false ∧
      (∃ t ts, s.emitted = t :: ts ∧ t.kind.isPlain = true) ∧
      (front ≠ [] → a.stray = [] → s.blocks.headD 0 ≤ a.width) := by
  obtain ⟨s, hs, hunread, hmode⟩ := h.scanning_first htokens
  have hfirst : s.mode = .between ∨ s.mode.inMargin = true := by
    rw [hmode]
    split
    · exact .inl rfl
    · exact atFirst_cases
  have hsig :
      Significant a.first (body ++ '\n' ::
        (spare.flatMap (· ++ ['\n']) ++ (b.text ++ rest))).head? := by
    have hsig := h.first.first
    cases body <;> exact hsig
  have htext := congrArg List.length h.text
  simp only [length_append] at htext
  -- from the first token on through the line
  obtain ⟨⟨s1, hs1, hunread1, hblocks1, hmargin1, htrails1⟩, _⟩ :=
    hs.past_first htokens hunread hfirst hsig
  have hoffset1 : s1.position.offset = front.length + a.text.length := by
    have hoffset := hs1.offset
    rw [hunread1] at hoffset
    simp only [length_append] at hoffset
    omega
  obtain ⟨s2, hs2, hunread2, hblocks2, htrails2⟩ :=
    hs1.past_body htokens hunread1 hmargin1 htrails1 fun before after he => by
      have hinside := h.inside before after he
      rw [length_append, length_append, ← Nat.add_assoc, ← hoffset1] at hinside
      exact hinside
  have hoffset2 : s2.position.offset = (front ++ (a.text ++ body)).length := by
    have hoffset := hs2.offset
    rw [hunread2] at hoffset
    simp only [length_append, length_cons] at hoffset htext ⊢
    omega
  have hstring : s2.mode.inString = false := by
    have hends := h.ends
    have hscans : s2.Scans _ tokens := hunread2 ▸ hs2.scans htokens
    rw [← hoffset2, hs2.inString_break hunread2 htokens hscans] at hends
    exact Bool.eq_false_iff.mpr hends
  have hholds := not_holds_of_inert hs2.tidy.1 (by rw [hunread2]; exact .inr (.inl rfl)) hstring
  refine ⟨s2, hs2, hunread2, hoffset2, hholds, htrails2.last hholds, fun hfront hstray => ?_⟩
  rw [if_neg hfront, atFirst, if_pos hstray] at hmode
  rw [hblocks2, hblocks1, measured, hmode]
  exact headD_measure_le

/-- Between two lines with tokens stand ends of lines, and then the layout of the second. -/
lemma Successive.gap :
    ∃ s, Scanning source.toList s ∧ s.position.offset = (front ++ (a.text ++ body)).length ∧
      (front ≠ [] → a.stray = [] → s.blocks.headD 0 ≤ a.width) ∧
      ∃ newlines layout, gapAt tokens (front ++ (a.text ++ body)).length = newlines ++ layout ∧
        (∀ t ∈ newlines, t.kind = .newline) ∧ (∀ t ∈ layout, t.kind = .indent ∨ t.kind = .dedent) ∧
        (s.blocks.headD 0 ≤ b.width → ∀ t ∈ layout, t.kind = .indent) ∧
        (layout = [] ↔ s.blocks.headD 0 = b.width ∨ b.stray ≠ []) := by
  obtain ⟨s, hs, hunread, hoffset, hholds, ⟨x, ts, hlast, hx⟩, hblocks⟩ := h.scanning_end htokens
  refine ⟨s, hs, hoffset, hblocks, ?_⟩
  -- over the lines without tokens to the first token of the next line
  have h1 := hs.past_newline hunread hholds
  obtain ⟨s2, more, hmore, h2⟩ := h1.scanning.past_bares h1.unread h1.mode h.spare
  obtain ⟨s3, h3⟩ := h2.scanning.past_margin h2.unread (h2.mode ▸ rfl) h.second
  have hall := (h1.trans h2).trans h3
  rw [h2.mode, afterBlanks_head h.second, nil_append] at hall
  have hfirst : s3.mode = .between ∨ s3.mode.inMargin = true := by
    rw [hall.mode]
    exact atFirst_cases
  obtain ⟨_, y, back, rfl, hy⟩ := hall.scanning.past_first htokens hall.unread hfirst h.second.first
  obtain ⟨run, hrun, hlayout, hindent, hnone⟩ := measured_run hall.mode
  rw [hall.blocks] at hindent hnone
  have hrow : s3.measured.emitted.reverse ++ y :: back =
      (x :: ts).reverse ++ lineBreak s.position :: (more.reverse ++ run.reverse ++ y :: back) := by
    rw [hrun, hall.emitted, hlast]
    simp
  have hgap : ∀ t ∈ more.reverse ++ run.reverse, t.kind.isPlain = false := by
    refine forall_mem_append.mpr ⟨fun t ht => ?_, fun t ht => ?_⟩
    · rw [hmore t (mem_reverse.mp ht)]
      rfl
    · rcases hlayout t (mem_reverse.mp ht) with hk | hk <;> rw [hk] <;> rfl
  have hfaithful := (tokenize_woven htokens).faithful
  rw [hrow] at hfaithful ⊢
  rw [← hoffset]
  refine ⟨lineBreak s.position :: more.reverse, run.reverse,
    gapAt_eq hfaithful hx hgap hy, ?_, ?_, ?_, ?_⟩
  · exact forall_mem_cons.mpr ⟨rfl, fun t ht => hmore t (mem_reverse.mp ht)⟩
  · exact fun t ht => hlayout t (mem_reverse.mp ht)
  · exact fun hle t ht => hindent hle t (mem_reverse.mp ht)
  · rw [reverse_eq_nil_iff, hnone]

end

end Rows

/-- No block begins or ends between lines of the same width just if the innermost block that is open
after the first is as wide, or the second is not measured because a carriage return comes behind its
margin. If the first was measured, that is, if it is not the first line of the text and has no
carriage return behind its margin, then no block ends in any case, and none begins if the first is
as wide as some block that is open after it, or has no margin. -/
theorem siblings_level {source : String} {tokens : List Token}
    {front body rest : List Char} {a b : LineHead} {spare : List (List Char)}
    (h : tokenize source = .ok tokens) (hl : Successive source front a body spare b rest)
    (hw : a.width = b.width) :
    ∃ s, Scanning source.toList s ∧ s.position.offset = (front ++ (a.text ++ body)).length ∧
      ((∀ t ∈ gapAt tokens (front ++ (a.text ++ body)).length, t.kind ≠ .indent ∧
        t.kind ≠ .dedent) ↔ s.blocks.headD 0 = a.width ∨ b.stray ≠ []) ∧
      (front ≠ [] → a.stray = [] →
        (∀ t ∈ gapAt tokens (front ++ (a.text ++ body)).length, t.kind ≠ .dedent) ∧
        (a.width ∈ s.stack →
          ∀ t ∈ gapAt tokens (front ++ (a.text ++ body)).length, t.kind ≠ .indent ∧
          t.kind ≠ .dedent)) := by
  obtain ⟨s, hs, hoffset, hblocks, newlines, layout, hgap, hnewlines, hlayout, hindent, hnone⟩ :=
    hl.gap h
  have hnewline : ∀ t ∈ newlines, t.kind ≠ .indent ∧ t.kind ≠ .dedent := by
    intro t ht
    rw [hnewlines t ht]
    exact ⟨by rintro ⟨⟩, by rintro ⟨⟩⟩
  have hlevel : (∀ t ∈ newlines ++ layout, t.kind ≠ .indent ∧ t.kind ≠ .dedent) ↔
      s.blocks.headD 0 = a.width ∨ b.stray ≠ [] := by
    rw [hw, ← hnone]
    refine ⟨fun hall => List.eq_nil_iff_forall_not_mem.mpr fun t ht => ?_, ?_⟩
    · obtain ⟨hi, hd⟩ := hall t (List.mem_append_right _ ht)
      exact (hlayout t ht).elim hi hd
    · rintro rfl
      rw [List.append_nil]
      exact hnewline
  rw [hgap]
  refine ⟨s, hs, hoffset, hlevel, fun hfront hstray =>
    ⟨List.forall_mem_append.mpr ⟨?_, ?_⟩, fun hstack => ?_⟩⟩
  · exact fun t ht => (hnewline t ht).2
  · intro t ht
    rw [hindent (hw ▸ hblocks hfront hstray) t ht]
    rintro ⟨⟩
  · -- the innermost block is the widest, and not wider than the line
    refine hlevel.mpr (.inl (Nat.le_antisymm (hblocks hfront hstray) ?_))
    rcases List.mem_cons.mp hstack with hzero | hmem
    · rw [hzero]
      exact Nat.zero_le _
    · exact hs.stacked.le_head (List.mem_reverse.mp hmem)

/-- A line with a tab, a string over two lines and a comment, and two lines without tokens before
the next. -/
def paired : String := "if a:\n\tsay 'x\n y' # n\n \r\n  // c\n    say b"

/-- The tab is as wide as four spaces, and the block goes on. -/
theorem siblings_level_paired : ∃ tokens s, tokenize paired = .ok tokens ∧
    Successive paired "if a:\n".toList ⟨['\t'], [],
    's'⟩ "ay 'x\n y' # n".toList [[' ', '\r'], "  // c".toList]
      ⟨List.replicate 4 ' ', [], 's'⟩ "ay b".toList ∧
    (gapAt tokens 21).map Token.kind = [.newline, .newline, .newline] ∧
    Scanning paired.toList s ∧ s.position.offset = 21 ∧ s.blocks.headD 0 = 4 := by
  have hline : Successive paired "if a:\n".toList
    ⟨['\t'], [], 's'⟩ "ay 'x\n y' # n".toList [[' ', '\r'], "  // c".toList]
      ⟨List.replicate 4 ' ', [], 's'⟩ "ay b".toList := by
    refine ⟨by decide +kernel, .inr ⟨"if a:".toList, by decide +kernel, by decide +kernel⟩,
      ?_, ?_, by decide +kernel, ?_, ?_⟩
    · exact ⟨List.forall_mem_singleton.mpr (.inr rfl),
        List.forall_mem_nil _, by simp, by decide +kernel⟩
    · intro before after he
      have hall : ∀ i < 13, "ay 'x\n y' # n".toList[i]? = some '\n' → InString paired (8 + i) := by
        decide +kernel
      have hat : "ay 'x\n y' # n".toList[before.length]? = some '\n' := by rw [he]; simp
      have hlength : "ay 'x\n y' # n".toList.length = before.length + (after.length + 1) := by
        rw [he]; simp
      rw [show "ay 'x\n y' # n".toList.length = 13 by decide +kernel] at hlength
      have hinside := hall before.length (by omega) hat
      rw [List.length_append, List.length_append, ← Nat.add_assoc]
      exact hinside
    · refine List.forall_mem_cons.mpr ⟨?_, List.forall_mem_singleton.mpr ?_⟩
      · exact ⟨[' ', '\r'], [], rfl, by simp, .inl rfl, by simp⟩
      · exact ⟨[' ', ' '], "// c".toList, by decide +kernel,
          by simp, .inr (.inr (by decide +kernel)), by decide +kernel⟩
    · exact ⟨fun c hc => .inl (List.mem_replicate.mp hc).2,
        List.forall_mem_nil _, by simp, by decide +kernel⟩
  have hread : (tokenize paired).toOption.map (fun tokens => (gapAt tokens 21).map Token.kind) =
      some [.newline, .newline, .newline] := by decide +kernel
  obtain ⟨tokens, htokens, hgap⟩ := exists_ok hread
  obtain ⟨s, hs, hoffset, hlevel, _⟩ := siblings_level htokens hline rfl
  have hend :
      ("if a:\n".toList ++
        (LineHead.text ⟨['\t'], [], 's'⟩ ++ "ay 'x\n y' # n".toList)).length = 21 := by
    decide +kernel
  rw [hend] at hoffset hlevel
  have hnewlines : ∀ t ∈ gapAt tokens 21, t.kind ≠ .indent ∧ t.kind ≠ .dedent := by
    intro t ht
    have hk := List.mem_map_of_mem (f := Token.kind) ht
    rw [hgap] at hk
    simp only [List.mem_cons, List.not_mem_nil, or_false, or_self] at hk
    rw [hk]
    exact ⟨by rintro ⟨⟩, by rintro ⟨⟩⟩
  have hwide := (hlevel.mp hnewlines).resolve_right (not_not_intro rfl)
  exact ⟨tokens, s, htokens, hline, hgap, hs, hoffset, hwide⟩

/-- A line narrower than the innermost block and wider than the one around it, and another as
wide. -/
def lenient : String := "a\n        b\n    c\n    d\n"

/-- The first ends the innermost block, and the second begins one. -/
theorem not_levelSiblings_lenient : ¬ LevelSiblings lenient := by
  intro h
  have hline : Successive lenient "a\n        b\n".toList ⟨List.replicate 4 ' ', [], 'c'⟩ [] []
      ⟨List.replicate 4 ' ', [], 'd'⟩ ['\n'] := by
    have hmargin : ∀ c ∈ List.replicate 4 ' ', c = ' ' ∨ c = '\t' :=
      fun c hc => .inl (List.mem_replicate.mp hc).2
    refine ⟨by decide +kernel, .inr ⟨"a\n        b".toList, by decide +kernel, by decide +kernel⟩,
      ?_, ?_, by decide +kernel, ?_, ?_⟩
    · exact ⟨hmargin, List.forall_mem_nil _, by simp, by decide⟩
    · intro before after he
      cases (List.append_eq_nil_iff.mp he.symm).2
    · exact List.forall_mem_nil _
    · exact ⟨hmargin, List.forall_mem_nil _, by simp, by decide⟩
  have hread : (tokenize lenient).toOption.map (fun tokens => (gapAt tokens 17).map Token.kind) =
      some [.newline, .indent] := by decide +kernel
  obtain ⟨tokens, htokens, hgap⟩ := exists_ok hread
  have hoffset :
      ("a\n        b\n".toList ++
        (LineHead.text ⟨List.replicate 4 ' ', [], 'c'⟩ ++ [])).length = 17 := by
    decide +kernel
  have hlevel := h tokens _ _ _ _ _ _ htokens hline rfl
  rw [hoffset] at hlevel
  obtain ⟨t, ht, hk⟩ := List.mem_map.mp (hgap ▸ List.mem_cons_of_mem _ List.mem_cons_self)
  exact (hlevel t ht).1 hk

end Colloquy
