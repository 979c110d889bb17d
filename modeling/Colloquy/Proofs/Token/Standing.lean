import Colloquy.Proofs.Token.Siblings

/-!
# Between two tokens

A scan stands at every offset of its text in turn. Emitted tokens end before what it holds back, and
the others begin there or later (`Scanning.sides`). What it holds back belongs to the next token
(`Scans.span`) or to a comment (`Scans.comment`).
-/

namespace Colloquy

open List

/-- Where the token that has begun begins, and how much of it is read. -/
def Mode.span : Mode → Option (Position × Nat)
  | .word start read | .whole start read | .fraction start read => some (start, read.length)
  | .quoted start _ read | .escaped start _ read => some (start, read.length + 1)
  | .pair start _ _ => some (start, 1)
  | _ => none

lemma Mode.span_of_not_holds {mode : Mode} (h : mode.holds = false) : mode.span = none := by
  cases mode <;> first | rfl | cases h

namespace Scanner

section Standing

variable {source text rest front held : List Char} {s s' : Scanner} {c : Char} {next : Option Char}
  {tokens : List Token} {p : Position} {n : Nat}

/-- A token goes on with one more character, or ends with it, or has ended before a point. -/
inductive Ends (s : Scanner) (p : Position) (n : Nat) (s' : Scanner) : Prop where
  | later :
    s'.mode.span = some (p, n + 1) →
    s'.emitted = s.emitted →
    Ends s p n s'
  | here {w : Token} :
    s'.emitted = w :: s.emitted →
    w.position = p →
    w.stop = p.offset + (n + 1) →
    Ends s p n s'
  | point {w dot : Token} :
    s'.emitted = dot :: w :: s.emitted →
    w.position = p →
    w.stop = p.offset + n →
    (∃ value, w.kind = .number value) →
    dot.kind = .symbol .dot →
    Ends s p n s'

lemma Ends.of_text {kind : TokenKind} (h : s'.emitted = ⟨kind, String.ofList text, p⟩ :: s.emitted)
    (hlength : text.length = n + 1) : Ends s p n s' := by
  refine .here h rfl ?_
  rw [Token.stop_ofList, hlength]

lemma fresh_dot :
    s.fresh '.' next = (none, { s with mode := .between }.emit (.symbol .dot) "." s.position) := by
  have hpair : (if next = some '=' then pairSymbol? '.' else none) = none := by split <;> rfl
  unfold fresh
  simp only [hpair]
  rfl

/-- A token that has begun goes on or ends, case by case of the mode. -/
lemma react_span (hspan : s.mode.span = some (p, n)) (hfits : s.mode.Fits (some c))
    (h : s.react c next = (none, s')) :
    Ends s p n s' := by
  cases hmode : s.mode with
  | between | lineStart | comment =>
    rw [hmode] at hspan
    cases hspan
  | word start read =>
    rw [hmode] at hspan
    cases hspan
    simp only [react, hmode, inWord] at h
    split at h
    · cases h
      exact .later rfl rfl
    · cases h
      exact .of_text rfl (by simp)
  | whole start read =>
    rw [hmode] at hspan hfits
    cases hspan
    simp only [react, hmode, inWhole] at h
    split at h
    · split at h
      · cases h
        exact .later rfl rfl
      · cases h
        exact .of_text rfl (by simp)
    split at h
    · cases h
      exact .later rfl rfl
    · -- the only other character that such a number waits for is a point
      rename_i hdigit _
      have hdot : c = '.' := by simpa [Mode.Fits, hdigit] using hfits
      subst hdot
      rw [fresh_dot] at h
      cases h
      refine .point rfl rfl ?_ ⟨_, rfl⟩ rfl
      rw [Token.stop_ofList, length_reverse]
  | fraction start read =>
    rw [hmode] at hspan
    cases hspan
    simp only [react, hmode, inFraction] at h
    split at h
    · cases h
      exact .later rfl rfl
    · cases h
      exact .of_text rfl (by simp)
  | quoted start quote read =>
    rw [hmode] at hspan
    cases hspan
    simp only [react, hmode] at h
    split at h
    · cases h
      exact .of_text rfl (by simp)
    split at h
    · cases h
      exact .later rfl rfl
    · cases h
      exact .later rfl rfl
  | escaped start quote read =>
    rw [hmode] at hspan
    cases hspan
    simp only [react, hmode] at h
    cases h
    exact .later rfl rfl
  | pair start first sign =>
    rw [hmode] at hspan
    cases hspan
    simp only [react, hmode] at h
    cases h
    exact .of_text rfl rfl

/-- The token that has begun is the next one, and goes on unless it is a number before a point. -/
lemma Scans.span (h : s.Scans text tokens) (hfits : s.mode.Fits text.head?)
    (hspan : s.mode.span = some (p, n)) :
    ∃ w more, tokens = s.emitted.reverse ++ w :: more ∧ w.position = p ∧
      (p.offset + n < w.stop ∨ w.stop = p.offset + n ∧ (∃ value, w.kind = .number value) ∧
        ∃ dot rest, more = dot :: rest ∧ dot.kind = .symbol .dot) := by
  induction text generalizing s n with
  | nil =>
    obtain ⟨z, hread, hfinish⟩ := h
    obtain ⟨_, rfl⟩ := Prod.mk.inj hread
    have hholds : s.mode.holds = false := not_holds_of_fits hfits (finish_iff.mp hfinish).1
    rw [Mode.span_of_not_holds hholds] at hspan
    cases hspan
  | cons c rest ih =>
    obtain ⟨z, hread, hfinish⟩ := h
    obtain ⟨s1, hreact, hread⟩ := readAll_cons_inv hread
    have hr : s.Reacts c rest.head? (none, s1) := hreact ▸ react_reacts hfits
    have hscans : (s1.past c rest).Scans rest tokens := ⟨z, hread, hfinish⟩
    cases react_span hspan hfits hreact with
    | later hspan1 hemitted =>
      obtain ⟨w, more, htokens, hw, hstop⟩ := ih (s := s1.past c rest) hscans hr.fits hspan1
      rw [show (s1.past c rest).emitted = s.emitted from hemitted] at htokens
      refine ⟨w, more, htokens, hw, .inl ?_⟩
      rcases hstop with hstop | ⟨hstop, _⟩ <;> omega
    | @here w hemitted hw hstop =>
      obtain ⟨more, rfl⟩ := hscans.emitted hr.fits
      rw [show (s1.past c rest).emitted = w :: s.emitted from hemitted]
      exact ⟨w, more, by simp, hw, .inl (by omega)⟩
    | @point w dot hemitted hw hstop hnumber hdot =>
      obtain ⟨more, rfl⟩ := hscans.emitted hr.fits
      rw [show (s1.past c rest).emitted = dot :: w :: s.emitted from hemitted]
      exact ⟨w, dot :: more, by simp, hw, .inr ⟨hstop, hnumber, dot, more, rfl, hdot⟩⟩

/-- After a comment comes no token of its line. -/
lemma Scans.comment (h : s.Scans text tokens) (hmode : s.mode = .comment) :
    ∃ x more, tokens = s.emitted.reverse ++ x :: more ∧
    x.kind.isPlain = false ∧ s.position.offset ≤ x.position.offset := by
  induction text generalizing s with
  | nil =>
    obtain ⟨z, hread, hfinish⟩ := h
    obtain ⟨_, rfl⟩ := Prod.mk.inj hread
    rw [(finish_iff.mp hfinish).2]
    unfold closing
    cases s.blocks.length with
    | zero | succ n => exact ⟨_, _, rfl, rfl, Nat.le_refl _⟩
  | cons c rest ih =>
    by_cases hc : c = '\n'
    · subst hc
      obtain ⟨out, _, rfl⟩ := (scans_break (hmode ▸ rfl)).mp h
      exact ⟨_, _, rfl, rfl, Nat.le_refl _⟩
    · obtain ⟨z, hread, hfinish⟩ := h
      rw [readAll_cons (react_in_comment hmode hc)] at hread
      obtain ⟨x, more, htokens, hx, hle⟩ :=
        ih (s := { s with mode := .comment }.past c rest) ⟨z, hread, hfinish⟩ rfl
      refine ⟨x, more, htokens, hx, Nat.le_trans ?_ hle⟩
      change s.position.offset ≤ (s.position.after c).offset
      rw [Position.after, if_neg hc]
      exact Nat.le_succ _

/-- What is held back outside comments is a token. -/
lemma Stands.span (h : s.Stands front held rest) (hs : s.mode.holds = true) :
    ∃ n, s.mode.span = some (.behind front, n) ∧ 0 < n ∧ s.position.offset = front.length + n := by
  have hoffset : s.position.offset = front.length + held.length := by
    rw [h.position]
    exact length_append
  have hk := h.keeps
  cases hmode : s.mode with
  | between | lineStart | comment =>
    rw [hmode] at hs
    cases hs
  | word start read | whole start read | fraction start read =>
    rw [hmode] at hk
    obtain ⟨rfl, rfl, hne⟩ := hk
    rw [length_reverse] at hoffset
    exact ⟨_, rfl, length_pos_iff.mpr hne, hoffset⟩
  | quoted start quote read | escaped start quote read =>
    rw [hmode] at hk
    obtain ⟨rfl, rfl⟩ := hk
    rw [length_cons, length_reverse] at hoffset
    exact ⟨_, rfl, Nat.succ_pos _, hoffset⟩
  | pair start first sign =>
    rw [hmode] at hk
    obtain ⟨rfl, rfl⟩ := hk
    exact ⟨_, rfl, Nat.one_pos, hoffset⟩

/-- Every token is on one side of what is held back. -/
lemma Scanning.sides (h : Scanning source s) (hscans : s.Scans s.unread tokens) :
    ∃ front held out, s.Stands front held s.unread ∧ tokens = s.emitted.reverse ++ out ∧
      (∀ t ∈ s.emitted, t.stop ≤ front.length) ∧ ∀ u ∈ out, front.length ≤ u.position.offset := by
  obtain ⟨front, held, hs, _, hweave⟩ := h.weaves
  obtain ⟨z, hread, hfinish⟩ := hscans
  obtain ⟨out, htokens, hwoven⟩ := readAll_woven hs h.tidy.1 hread hfinish
  refine ⟨front, held, out, hs, htokens, fun t ht => ?_, hwoven.offset_le⟩
  -- a mark put in at this place comes after the tokens so far
  have hmark : Woven front (held ++ s.unread) (⟨.eof, "", .behind front⟩ :: out) := .mark rfl hwoven
  obtain ⟨_, _, hbefore⟩ := pairwise_append.mp (hweave _ hmark).ordered
  exact hbefore t (mem_reverse.mpr ht) _ mem_cons_self

end Standing

section Steps

variable {s s' : Scanner} {c : Char} {next next' : Option Char}

lemma beginsComment_none (h : beginsComment c next = false) : beginsComment c none = false := by
  simp only [beginsComment, Bool.or_eq_false_iff, beq_eq_false_iff_ne, Bool.and_eq_false_iff] at h ⊢
  exact ⟨h.1, .inr (by simp)⟩

lemma fresh_before_break (h : s.fresh c next = (none, s')) (hmode : s'.mode = .between)
    (hn : Inert next') :
    s.fresh c next' = (none, s') := by
  rw [fresh_inert hn]
  -- wherever the next character makes a difference, the scanner is in the middle of something then
  simp only [fresh, inWhole, inWord, emitNumber, emitWord, emit, Option.any_none] at h ⊢
  grind [beginsComment_none]

/-- A scanner that is between tokens would be so before a break. -/
lemma react_before_break (h : s.react c next = (none, s')) (hmode : s'.mode = .between)
    (hn : Inert next') :
    s.react c next' = (none, s') := by
  cases hs : s.mode with
  | between =>
    simp only [react, hs] at h ⊢
    exact fresh_before_break h hmode hn
  | lineStart width =>
    simp only [react, hs] at h ⊢
    split at h
    · cases h
      cases hmode
    rename_i hspace
    split at h
    · cases h
      cases hmode
    rename_i htab
    rw [if_neg hspace, if_neg htab]
    cases hcomment : beginsComment c next with
    | true =>
      rw [hcomment, if_pos (.inr (.inr rfl)), fresh_comment hcomment] at h
      cases h
      cases hmode
    | false =>
      rw [hcomment] at h
      rw [hn.beginsComment, beginsComment_none hcomment]
      split at h
      · rename_i hbare
        rw [if_pos hbare]
        exact fresh_before_break h hmode hn
      · rename_i hbare
        rw [if_neg hbare]
        exact fresh_before_break h hmode hn
  | comment =>
    simp only [react, hs] at h ⊢
    split at h
    · rename_i hc
      rw [if_pos hc]
      exact fresh_before_break h hmode hn
    · cases h
      cases hs.symm.trans hmode
  | word start read =>
    simp only [react, hs, inWord, hn.isWordChar] at h ⊢
    split at h
    · cases h
      cases hmode
    · exact h
  | whole start read =>
    simp only [react, hs, inWhole, hn.isNumeral, hn.isDigit] at h ⊢
    split at h
    · rename_i hdigit
      rw [if_pos hdigit]
      split at h
      · cases h
        cases hmode
      · exact h
    · rename_i hdigit
      rw [if_neg hdigit]
      split at h
      · cases h
        cases hmode
      · exact fresh_before_break h hmode hn
  | fraction start read =>
    simp only [react, hs, inFraction, hn.isDigit] at h ⊢
    split at h
    · cases h
      cases hmode
    · exact h
  | quoted | escaped | pair =>
    simp only [react, hs] at h ⊢
    exact h

end Steps

end Scanner

end Colloquy
