import Colloquy.Proofs.Token.Canonical
import Colloquy.Proofs.Token.Standing

/-!
# Records over several lines

A record in one line can be broken after its opening brace, before its closing brace, and after the
commas between its fields. The scanner measures the new lines as all others, so that blocks may
begin and end inside the record. Main statement: the broken text can be read, and its tokens are
those of the text apart from layout at the breaks and wherever lines are measured (`Refolds`).

A scanner of the broken text goes along with one of the text (`Folding`): between two breaks both do
the same, and at a break the first stands between two tokens (`Scanning.at_fold`).
-/

namespace Colloquy

open Scanner List

namespace TokenKind

/-- How many braces are open after a token of this kind. -/
def bracesAfter (braces : Nat) : TokenKind → Nat
  | .symbol .leftBrace => braces + 1
  | .symbol .rightBrace => braces - 1
  | _ => braces

/-- Whether a token of this kind can be the key of a field. -/
def isKey : TokenKind → Bool
  | .identifier _ | .string _ => true
  | _ => false

end TokenKind

/-- How many braces are open at a place, and the kind of the token before it. -/
structure Spot where
  braces : Nat
  last : TokenKind

namespace Spot

/-- The beginning of a row, where a line begins. -/
def start : Spot := ⟨0, .newline⟩

/-- The place behind one more token. -/
def after (p : Spot) (kind : TokenKind) : Spot := ⟨kind.bracesAfter p.braces, kind⟩

/-- The place behind some more tokens. -/
def behind (p : Spot) (row : List Token) : Spot := row.foldl (fun p t => p.after t.kind) p

/-- Whether a record can be broken here: after its opening brace, before its closing brace, or after
a comma before a field. -/
def folds (p : Spot) : List Token → Bool
  | [] => false
  | t :: rest => p.last.isPlain && t.kind.isPlain &&
      (p.last = .symbol .leftBrace || t.kind = .symbol .rightBrace ||
        p.last = .symbol .comma && 0 < p.braces && t.kind.isKey &&
          rest.head?.map Token.kind = some (.symbol .colon))

end Spot

/-- A record can be broken at this offset of a text. -/
def FoldsAt (tokens : List Token) (i : Nat) : Prop :=
  ∃ front back, tokens = front ++ back ∧ (Spot.start.behind front).folds back = true ∧
    (∀ t ∈ front, t.stop ≤ i) ∧ ∀ u ∈ back, i ≤ u.position.offset

/-- Where records can be broken is decided by the tokens before and after. -/
lemma foldsAt_iff {tokens : List Token} {i : Nat} : FoldsAt tokens i ↔ ∃ n < tokens.length,
    (Spot.start.behind (tokens.take n)).folds (tokens.drop n) = true ∧
      (∀ t ∈ tokens.take n, t.stop ≤ i) ∧ ∀ u ∈ tokens.drop n, i ≤ u.position.offset := by
  constructor
  · rintro ⟨front, back, rfl, hfolds, hfront, hback⟩
    cases back with
    | nil => cases hfolds
    | cons u back =>
      refine ⟨front.length, by simp, ?_⟩
      rw [take_left, drop_left]
      exact ⟨hfolds, hfront, hback⟩
  · rintro ⟨n, _, hn⟩
    exact ⟨tokens.take n, tokens.drop n, (take_append_drop n tokens).symm, hn⟩

instance {tokens : List Token} {i : Nat} : Decidable (FoldsAt tokens i) :=
  decidable_of_iff' _ foldsAt_iff

/-- A text with more line breaks at some offsets, and the margins after them. -/
def folded (breaks : Nat → Option (List Char)) : Nat → List Char → List Char
  | _, [] => []
  | i, c :: rest => (breaks i).elim [] ('\n' :: ·) ++ c :: folded breaks (i + 1) rest

/-- The text with these line breaks. -/
def foldRecords (breaks : Nat → Option (List Char)) (source : String) : String :=
  String.ofList (folded breaks 0 source.toList)

/-- Some line breaks with margins break records only. -/
def BreaksRecords (tokens : List Token) (breaks : Nat → Option (List Char)) : Prop :=
  ∀ i margin, breaks i = some margin → (∀ c ∈ margin, c = ' ' ∨ c = '\t') ∧ FoldsAt tokens i

/-- Breaks can be found in a table. -/
lemma exists_breaks {source : String} {table : List (Nat × List Char)}
    (h : (tokenize source).toOption.map (fun tokens =>
      table.all fun e => e.2.all (fun c => c = ' ' || c = '\t') &&
        FoldsAt tokens e.1) = some true) :
    ∃ tokens, tokenize source = .ok tokens ∧ BreaksRecords tokens (table.lookup ·) := by
  obtain ⟨tokens, htokens, hall⟩ := exists_ok h
  refine ⟨tokens, htokens, fun i margin hi => ?_⟩
  obtain ⟨_, _, htable, _⟩ := lookup_eq_some_iff.mp hi
  have he := all_eq_true.mp hall (i, margin) (htable ▸ mem_append_right _ mem_cons_self)
  obtain ⟨hmargin, hfolds⟩ := (Bool.and_eq_true _ _).mp he
  refine ⟨fun c hc => ?_, of_decide_eq_true hfolds⟩
  simpa using all_eq_true.mp hmargin c hc

/-- Both rows have begun a line or neither, or the second alone breaks a record. -/
def Spot.Meets (p q : Spot) (next : List Token) : Prop :=
  q.last.isLayout = p.last.isLayout ∨ p.folds next = true

/-- From here on two rows hold the same tokens inside lines and any layout, but a line begins before
such a token in both rows or in neither, unless the second breaks a record. -/
inductive Refolds : Spot → Spot → List Token → List Token → Prop where
  | left {p q t ts us} :
    t.kind.isLayout = true →
    Refolds (p.after t.kind) q ts us →
    Refolds p q (t :: ts) us
  | right {p q u ts us} :
    u.kind.isLayout = true →
    Refolds p (q.after u.kind) ts us →
    Refolds p q ts (u :: us)
  | plain {p q t u ts us} :
    t.kind.isPlain = true →
    u.face = t.face →
    p.Meets q (t :: ts) →
    Refolds (p.after t.kind) (q.after t.kind) ts us →
    Refolds p q (t :: ts) (u :: us)
  | ends {p q t u} :
    t.kind = .eof →
    u.kind = .eof →
    Refolds p q [t] [u]

section Rows

variable {p q : Spot} {run ts us more more' : List Token} {t u : Token} {kind : TokenKind}

lemma TokenKind.isPlain_of_isLayout (h : kind.isLayout = true) : kind.isPlain = false := by
  cases kind <;> first | rfl | cases h

lemma Spot.behind_append : p.behind (ts ++ us) = (p.behind ts).behind us := foldl_append

lemma Spot.behind_concat : p.behind (ts ++ [t]) = (p.behind ts).after t.kind := foldl_append

lemma Spot.folds_last (h : p.folds ts = true) : p.last.isPlain = true := by
  cases ts with
  | nil => cases h
  | cons t ts =>
    simp only [folds, Bool.and_eq_true] at h
    exact h.1.1

lemma Spot.folds_head (h : p.folds ts = true) :
    ∃ t rest, ts = t :: rest ∧ t.kind.isPlain = true := by
  cases ts with
  | nil => cases h
  | cons t ts =>
    simp only [folds, Bool.and_eq_true] at h
    exact ⟨t, ts, rfl, h.1.2⟩

lemma Spot.folds_front (h : (start.behind ts).folds us = true) :
    ∃ front t, ts = front ++ [t] ∧ t.kind.isPlain = true := by
  rcases eq_nil_or_concat' ts with rfl | ⟨front, t, rfl⟩
  · cases folds_last h
  · rw [behind_concat] at h
    exact ⟨front, t, rfl, folds_last h⟩

lemma Refolds.left_run (hrun : ∀ t ∈ run, t.kind.isLayout = true)
    (h : Refolds (p.behind run) q ts us) :
    Refolds p q (run ++ ts) us := by
  induction run generalizing p with
  | nil => exact h
  | cons t run ih =>
    obtain ⟨ht, hrun⟩ := forall_mem_cons.mp hrun
    exact .left ht (ih hrun h)

lemma Refolds.right_run (hrun : ∀ t ∈ run, t.kind.isLayout = true)
    (h : Refolds p (q.behind run) ts us) :
    Refolds p q ts (run ++ us) := by
  induction run generalizing q with
  | nil => exact h
  | cons t run ih =>
    obtain ⟨ht, hrun⟩ := forall_mem_cons.mp hrun
    exact .right ht (ih hrun h)

/-- Both rows go on with the same tokens. -/
lemma Refolds.both (hmore : ∀ t ∈ more, t.kind.isPlain = true ∨ t.kind = .newline)
    (hsame : more'.map Token.face = more.map Token.face) (hmeets : p.Meets q (more ++ ts))
    (h : Refolds (p.behind more) (q.behind more') ts us) :
    Refolds p q (more ++ ts) (more' ++ us) := by
  induction more generalizing p q more' with
  | nil =>
    obtain rfl : more' = [] := map_eq_nil_iff.mp hsame
    exact h
  | cons t more ih =>
    obtain ⟨u, more', rfl, hface, hsame⟩ := map_eq_cons_iff.mp hsame
    obtain ⟨ht, hmore⟩ := forall_mem_cons.mp hmore
    have hkind : u.kind = t.kind := congrArg Prod.fst hface
    have hrest : Refolds (p.after t.kind) (q.after u.kind) (more ++ ts) (more' ++ us) :=
      ih hmore hsame (.inl (congrArg TokenKind.isLayout hkind)) h
    rcases ht with ht | ht
    · rw [hkind] at hrest
      exact .plain ht hface hmeets hrest
    · exact .left (ht ▸ rfl) (.right (hkind.trans ht ▸ rfl) hrest)

/-- Without layout the rows are the same. -/
lemma Refolds.faces (h : Refolds p q ts us) :
    (us.filter (·.kind.isPlain)).map Token.face = (ts.filter (·.kind.isPlain)).map Token.face := by
  induction h with
  | left ht _ ih =>
    rw [ih, filter_cons_of_neg (by rw [TokenKind.isPlain_of_isLayout ht]; exact Bool.false_ne_true)]
  | right hu _ ih =>
    rw [← ih,
      filter_cons_of_neg (by rw [TokenKind.isPlain_of_isLayout hu]; exact Bool.false_ne_true)]
  | plain ht hface _ _ ih =>
    have hkind : _ = _ := congrArg Prod.fst hface
    have hu : TokenKind.isPlain (Token.kind _) = true := (congrArg TokenKind.isPlain hkind).trans ht
    simp only [filter_cons, ht, hu, if_true, map_cons, hface, ih]
  | ends ht hu => simp [ht, hu, TokenKind.isPlain]

end Rows

section Folds

variable {source : List Char} {tokens row out : List Token} {i : Nat}

lemma isMark_of_isPlain {kind : TokenKind} (h : kind.isPlain = true) : kind.isMark = false := by
  cases kind <;> first | rfl | cases h

lemma FoldsAt.stop_le {w : Token} (h : FoldsAt tokens i) (hw : w ∈ tokens)
    (hlt : w.position.offset < i) : w.stop ≤ i := by
  obtain ⟨front, back, rfl, _, hfront, hback⟩ := h
  rcases mem_append.mp hw with hw | hw
  · exact hfront w hw
  · exact absurd (hback w hw) (Nat.not_le.mpr hlt)

/-- A record can be broken between the tokens at such an offset. -/
lemma FoldsAt.folds (h : FoldsAt tokens i) (hf : Faithful source tokens)
    (hrow : tokens = row ++ out) (hleft : ∀ t ∈ row, t.stop ≤ i)
    (hright : ∀ u ∈ out, i ≤ u.position.offset) :
    (Spot.start.behind row).folds out = true := by
  obtain ⟨front, back, hsplit, hfolds, hfront, hback⟩ := h
  -- a token between the two places would have no characters
  have hnone {t : Token} (ht : t ∈ tokens) (hp : t.kind.isPlain = true)
    (hstop : t.stop ≤ i) (hle : i ≤ t.position.offset) : False :=
    Nat.lt_irrefl _ (Nat.lt_of_lt_of_le (hf.written t ht (isMark_of_isPlain hp))
      (Nat.le_trans hstop hle))
  obtain ⟨mid, rfl, rfl⟩ | ⟨mid, rfl, rfl⟩ := append_eq_append_iff.mp (hsplit.symm.trans hrow)
  · cases mid with
    | nil => simpa using hfolds
    | cons u mid =>
      obtain ⟨_, _, hu, hp⟩ := Spot.folds_head hfolds
      obtain ⟨rfl, _⟩ := List.cons.inj hu
      exact (hnone (hrow ▸ by simp) hp (hleft u (by simp)) (hback u (by simp))).elim
  · rcases eq_nil_or_concat' mid with rfl | ⟨mid, t, rfl⟩
    · simpa using hfolds
    · obtain ⟨front', t', hlast, hp⟩ := Spot.folds_front hfolds
      rw [← append_assoc] at hlast
      obtain ⟨_, ht⟩ := append_inj' hlast rfl
      obtain rfl := singleton_inj.mp ht
      exact (hnone (hrow ▸ by simp) hp (hfront t (by simp)) (hright t (by simp))).elim

end Folds

namespace Scanner

section Places

variable {source : List Char} {s : Scanner} {tokens row out : List Token}

/-- The place in its row that a scanner has come to. -/
def spot (s : Scanner) : Spot := Spot.start.behind s.emitted.reverse

lemma not_folds_point {w dot : Token} {value : Float} (hw : w.kind = .number value)
    (hdot : dot.kind = .symbol .dot) :
    (Spot.start.behind (row ++ [w])).folds (dot :: out) = false := by
  rw [Spot.behind_concat, hw]
  simp [Spot.folds, Spot.after, hdot]

section

variable (h : Scanning source s)
  (hscans : s.Scans s.unread tokens)
  (hf : Faithful source tokens)
  (hfolds : FoldsAt tokens s.position.offset)
include h hscans hf hfolds

/-- No token is under way where a record can be broken. -/
lemma Scanning.not_holds_at_fold : s.mode.holds = false := by
  refine Bool.eq_false_iff.mpr fun hholds => ?_
  obtain ⟨front, held, out, hs, hout, hleft, _⟩ := h.sides hscans
  obtain ⟨n, hspan, hn, hoffset⟩ := hs.span hholds
  obtain ⟨w, more, htokens, hw, hstop⟩ := hscans.span h.tidy.1 hspan
  have hbegins : w.position.offset = front.length := congrArg Position.offset hw
  have hends : w.stop ≤ s.position.offset := hfolds.stop_le (htokens ▸ by simp) (by omega)
  change front.length + n < w.stop ∨ w.stop = front.length + n ∧ _ at hstop
  rcases hstop with hstop | ⟨hstop, ⟨value, hnumber⟩, dot, rest, rfl, hdot⟩
  · omega
  · -- the place is the one between the number and the point
    rw [append_cons] at htokens
    have hordered := hf.ordered
    rw [htokens] at hordered
    obtain ⟨_, _, hbefore⟩ := pairwise_append.mp hordered
    have hplace := hfolds.folds hf htokens
      (forall_mem_append.mpr ⟨fun t ht => ?_, forall_mem_singleton.mpr hends⟩) fun u hu => ?_
    · rw [not_folds_point hnumber hdot] at hplace
      cases hplace
    · have := hleft t (mem_reverse.mp ht)
      omega
    · have := hbefore w (by simp) u hu
      omega

/-- Where a record can be broken, a scan is between two tokens. -/
lemma Scanning.at_fold (hout : tokens = s.emitted.reverse ++ out) :
    s.mode = .between ∧ s.spot.folds out = true := by
  have hholds := h.not_holds_at_fold hscans hf hfolds
  obtain ⟨front, held, out', hs, hout', hleft, hright⟩ := h.sides hscans
  obtain rfl : out' = out := append_cancel_left (hout'.symm.trans hout)
  have hoffset : s.position.offset = front.length + held.length := by
    rw [hs.position]
    exact length_append
  have hplace (hright : ∀ u ∈ out', s.position.offset ≤ u.position.offset) :
      s.spot.folds out' = true := by
    refine hfolds.folds hf hout (fun t ht => ?_) hright
    have := hleft t (mem_reverse.mp ht)
    omega
  have hk := hs.keeps
  cases hmode : s.mode with
  | between =>
    rw [hmode] at hk
    obtain rfl : held = [] := hk
    exact ⟨rfl, hplace (hoffset ▸ hright)⟩
  | lineStart width =>
    -- the last token is the end of a line
    rw [hmode] at hk
    obtain rfl : held = [] := hk
    have hlast := Spot.folds_last (hplace (hoffset ▸ hright))
    obtain ⟨t, ts, hemitted, ht⟩ := h.tidy.2.fresh width hmode
    rw [spot, hemitted, reverse_cons, Spot.behind_concat, ht] at hlast
    cases hlast
  | comment =>
    obtain ⟨x, more, htokens, hx, hle⟩ := hscans.comment hmode
    obtain rfl : out' = x :: more := append_cancel_left (hout.symm.trans htokens)
    have hordered := hf.ordered
    rw [hout] at hordered
    obtain ⟨_, hordered, _⟩ := pairwise_append.mp hordered
    have hfolds := hplace (forall_mem_cons.mpr ⟨hle, fun u hu => ?_⟩)
    · obtain ⟨_, _, hhead, hp⟩ := Spot.folds_head hfolds
      obtain ⟨rfl, _⟩ := List.cons.inj hhead
      cases hx.symm.trans hp
    · have := rel_of_pairwise_cons hordered hu
      unfold Token.stop at this
      omega
  | _ =>
    rw [hmode] at hholds
    cases hholds

end

end Places

section Folding

variable {s s' t t' : Scanner} {c : Char} {next : Option Char} {more next' rest tokens : List Token}

/-- The place, of which nothing is known. -/
def anywhere (_ : Position) : Position := .start

/-- Two scanners are amid the same, or the second begins a line that breaks a record. -/
inductive Kin : Mode → Mode → Prop where
  | same {a b} :
    a.inMargin = false →
    b.placed anywhere = a.placed anywhere →
    Kin a b
  | margin {width} :
    Kin (.lineStart width) (.lineStart width)
  | broken {width} :
    Kin .between (.lineStart width)

/-- A scanner of a text and one of the broken text, before these tokens. -/
structure Folding (s t : Scanner) (next : List Token) : Prop where
  kin : Kin s.mode t.mode
  meets : s.spot.Meets t.spot next
  left : s.mode.inMargin = true → s.spot.last.isLayout = true
  right : t.mode.inMargin = true → t.spot.last.isLayout = true

/-- Two scanners go on, and so do their rows. -/
def Advances (s t s' t' : Scanner) (next next' : List Token) : Prop :=
  ∃ more, t'.emitted = more ++ t.emitted ∧
    ∀ us, Refolds s'.spot t'.spot next' us → Refolds s.spot t.spot next (more.reverse ++ us)

lemma Advances.trans {s'' t'' : Scanner} {next'' : List Token} (h : Advances s t s' t' rest next')
    (h' : Advances s' t' s'' t'' next' next'') : Advances s t s'' t'' rest next'' := by
  obtain ⟨more, hmore, hrows⟩ := h
  obtain ⟨more', hmore', hrows'⟩ := h'
  refine ⟨more' ++ more, by rw [hmore', hmore, append_assoc], fun us hus => ?_⟩
  rw [reverse_append, append_assoc]
  exact hrows _ (hrows' us hus)

lemma spot_append (h : s'.emitted = more ++ s.emitted) : s'.spot = s.spot.behind more.reverse := by
  rw [spot, h, reverse_append, Spot.behind_append]
  rfl

lemma spot_cons {x : Token} {xs : List Token} (h : s'.emitted = x :: xs ++ s.emitted) :
    s'.spot.last = x.kind := by
  rw [spot_append h, reverse_cons, Spot.behind_concat]
  rfl

lemma Begins.emits (h : s.Begins c next (none, s')) : ∃ more, s'.emitted = more ++ s.emitted ∧
    (∀ x ∈ more, x.kind.isPlain = true ∨ x.kind = .newline) ∧
      (s'.mode.inMargin = true → ∃ x xs, more = x :: xs ∧ x.kind = .newline) := by
  cases h with
  | blank | comment => exact ⟨[], rfl, forall_mem_nil _, by rintro ⟨⟩⟩
  | hold hm =>
    exact ⟨[], rfl, forall_mem_nil _, fun hmargin =>
      by cases (inMargin_of_holds hm).symm.trans hmargin⟩
  | newline => exact ⟨[_], rfl, forall_mem_singleton.mpr (.inr rfl), fun _ => ⟨_, _, rfl, rfl⟩⟩
  | token ht => exact ⟨[_], rfl, forall_mem_singleton.mpr (.inl ht), by rintro ⟨⟩⟩

/-- Inside a line no layout is emitted but its end. -/
lemma react_emits (hfits : s.mode.Fits (some c)) (hmargin : s.mode.inMargin = false)
    (h : s.react c next = (none, s')) :
    ∃ more, s'.emitted = more ++ s.emitted ∧
    (∀ x ∈ more, x.kind.isPlain = true ∨ x.kind = .newline) ∧
      (s'.mode.inMargin = true → ∃ x xs, more = x :: xs ∧ x.kind = .newline) := by
  have hr : s.Reacts c next (none, s') := h ▸ react_reacts hfits
  cases hr with
  | margin hm | measure hm =>
    rw [hm] at hmargin
    cases hmargin
  | comment => exact ⟨[], rfl, forall_mem_nil _, fun h => by cases hmargin.symm.trans h⟩
  | fresh _ hb => exact hb.emits
  | hold _ hm =>
    exact ⟨[], rfl, forall_mem_nil _, fun hmargin =>
      by cases (inMargin_of_holds hm).symm.trans hmargin⟩
  | token _ ht => exact ⟨[_], rfl, forall_mem_singleton.mpr (.inl ht), by rintro ⟨⟩⟩
  | @tokenFresh t _ _ ht hb =>
    obtain ⟨more, hmore, hkinds, hmargin⟩ := hb.emits
    refine ⟨more ++ [t], ?_, forall_mem_append.mpr
      ⟨hkinds, forall_mem_singleton.mpr (.inl ht)⟩, fun hm => ?_⟩
    · rw [hmore, append_assoc]
      rfl
    · obtain ⟨x, xs, rfl, hx⟩ := hmargin hm
      exact ⟨x, xs ++ [t], rfl, hx⟩

lemma face_of_placed {out out' : List Token}
    (h : out'.map (Token.placed anywhere) = out.map (Token.placed anywhere)) :
    out'.map Token.face = out.map Token.face := by
  have hface (ts : List Token) :
      (ts.map (Token.placed anywhere)).map Token.face = ts.map Token.face := by
    rw [map_map]
    rfl
  rw [← hface, h, hface]

lemma inMargin_of_placed {a b : Mode} (h : b.placed anywhere = a.placed anywhere) :
    b.inMargin = a.inMargin := by
  have hplaced (mode : Mode) : (mode.placed anywhere).inMargin = mode.inMargin := by
    cases mode <;> rfl
  rw [← hplaced, h, hplaced]

lemma Kin.of_placed {a b : Mode} (h : b.placed anywhere = a.placed anywhere) : Kin a b := by
  cases hmargin : a.inMargin with
  | false => exact .same hmargin h
  | true =>
    obtain ⟨width, rfl⟩ := Mode.inMargin_iff.mp hmargin
    obtain ⟨width', rfl⟩ := Mode.inMargin_iff.mp ((inMargin_of_placed h).trans hmargin)
    cases h
    exact .margin

/-- Two scanners that do the same stay together. -/
lemma Together.folding (h : Together anywhere s t s' t') (hmore : s'.emitted = more ++ s.emitted)
    (hkinds : ∀ x ∈ more, x.kind.isPlain = true ∨ x.kind = .newline)
    (hmargin : s'.mode.inMargin = true → ∃ x xs, more = x :: xs ∧ x.kind = .newline)
    (hmeets : s.spot.Meets t.spot (more.reverse ++ next')) :
    Folding s' t' next' ∧ Advances s t s' t' (more.reverse ++ next') next' := by
  obtain ⟨out, more', hout, hmore', hsame⟩ := h.emitted
  obtain rfl : out = more := append_cancel_right (hout.symm.trans hmore)
  have hfaces := face_of_placed hsame
  refine ⟨⟨.of_placed h.abreast.mode, ?_, fun hm => ?_, fun hm => ?_⟩,
    more', hmore', fun us hus => ?_⟩
  · cases out with
    | nil =>
      obtain rfl : more' = [] := map_eq_nil_iff.mp hfaces
      rw [spot_append hmore, spot_append hmore']
      exact hmeets
    | cons x xs =>
      obtain ⟨y, ys, rfl, hface, _⟩ := map_eq_cons_iff.mp hfaces
      rw [Spot.Meets, spot_cons hmore, spot_cons hmore']
      exact .inl (congrArg (fun face => face.1.isLayout) hface)
  · obtain ⟨x, xs, rfl, hx⟩ := hmargin hm
    rw [spot_cons hmore, hx]
    rfl
  · obtain ⟨x, xs, rfl, hx⟩ := hmargin ((inMargin_of_placed h.abreast.mode).symm.trans hm)
    obtain ⟨y, ys, rfl, hface, _⟩ := map_eq_cons_iff.mp hfaces
    have hkind : y.kind = x.kind := congrArg Prod.fst hface
    rw [spot_cons hmore', hkind, hx]
    rfl
  · rw [spot_append hmore, spot_append hmore'] at hus
    refine .both (fun x hx => hkinds x (mem_reverse.mp hx)) ?_ hmeets hus
    rw [map_reverse, map_reverse, hfaces]

lemma measured_layout : ∃ run, s.measured.emitted = run ++ s.emitted ∧
    (∀ x ∈ run, x.kind.isLayout = true) ∧ (s.mode.inMargin = false → run = []) := by
  unfold measured
  split
  · rename_i width hmode
    obtain ⟨run, hrun, hkinds, _⟩ := @measure_run s width
    refine ⟨run, hrun, fun x hx => ?_, fun hmargin => ?_⟩
    · rcases hkinds x hx with hk | hk <;> rw [hk] <;> rfl
    · rw [hmode] at hmargin
      cases hmargin
  · exact ⟨[], rfl, forall_mem_nil _, fun _ => rfl⟩

lemma isLayout_measured (h : s.mode.inMargin = true → s.spot.last.isLayout = true) :
    s.measured.spot.last.isLayout = s.spot.last.isLayout := by
  obtain ⟨run, hrun, hkinds, hnone⟩ := measured_layout (s := s)
  cases run with
  | nil => rw [spot_append hrun]; rfl
  | cons x xs =>
    have hmargin : s.mode.inMargin = true := by
      cases hm : s.mode.inMargin with
      | false => cases hnone hm
      | true => rfl
    rw [spot_cons hrun, h hmargin, hkinds x mem_cons_self]

/-- Both scanners measure their lines. -/
lemma Folding.measured (h : Folding s t rest)
    (hrest : ∀ run, s.measured.emitted = run ++ s.emitted → rest = run.reverse ++ next') :
    s.measured.spot.Meets t.measured.spot next' ∧
    Advances s t s.measured t.measured rest next' := by
  obtain ⟨run, hrun, hkinds, hnone⟩ := measured_layout (s := s)
  obtain ⟨run', hrun', hkinds', _⟩ := measured_layout (s := t)
  obtain rfl := hrest run hrun
  refine ⟨?_, run', hrun', fun us hus => ?_⟩
  · rcases h.meets with hsame | hfolds
    · refine .inl ?_
      rw [isLayout_measured h.left, isLayout_measured h.right, hsame]
    · -- a record is broken inside a line, which is not measured
      have hmargin : s.mode.inMargin = false := by
        cases hm : s.mode.inMargin with
        | false => rfl
        | true =>
          cases (TokenKind.isPlain_of_isLayout (h.left hm)).symm.trans (Spot.folds_last hfolds)
      obtain rfl := hnone hmargin
      refine .inr ?_
      rw [spot_append hrun]
      exact hfolds
  · rw [spot_append hrun, spot_append hrun'] at hus
    refine .left_run (fun x hx => hkinds x (mem_reverse.mp hx)) ?_
    exact .right_run (fun x hx => hkinds' x (mem_reverse.mp hx)) hus

lemma fresh_folding (hmeets : s.spot.Meets t.spot rest) (hs : s.fresh c next = (none, s'))
    (hrest : ∀ more, s'.emitted = more ++ s.emitted → rest = more.reverse ++ next') :
    ∃ t', t.fresh c next = (none, t') ∧ Folding s' t' next' ∧ Advances s t s' t' rest next' := by
  have hbegins : s.Begins c next (none, s') := hs ▸ fresh_begins
  have hplace : anywhere t.position = anywhere s.position := rfl
  obtain ⟨t', ht, htogether⟩ := fresh_together hplace hs
  obtain ⟨more, hmore, hkinds, hmargin⟩ := hbegins.emits
  obtain rfl := hrest more hmore
  exact ⟨t', ht, htogether.folding hmore hkinds hmargin hmeets⟩

lemma react_bare (hs : s.mode = .between ∨ s.mode.inMargin = true)
    (hblank : ¬(c = ' ' ∨ c = '\t' ∨ c = '\r')) (hc : c = '\n' ∨ beginsComment c next = true) :
    s.react c next = s.fresh c next := by
  rcases hs with hs | hs
  · simp only [react, hs]
  · obtain ⟨width, hs⟩ := Mode.inMargin_iff.mp hs
    simp only [not_or] at hblank
    simp only [react, hs]
    rw [if_neg hblank.1, if_neg hblank.2.1, if_pos (hc.imp_right .inr)]

lemma Kin.cases {a b : Mode} (h : Kin a b) :
    a.inMargin = false ∧ b.placed anywhere = a.placed anywhere ∨
      (a = .between ∨ a.inMargin = true) ∧ b.inMargin = true := by
  cases h with
  | same hmargin hsame => exact .inl ⟨hmargin, hsame⟩
  | margin => exact .inr ⟨.inr rfl, rfl⟩
  | broken => exact .inr ⟨.inl rfl, rfl⟩

lemma inMargin_afterBlank {a : Mode} (h : (a.afterBlank c).inMargin = true) :
    a.inMargin = true := by
  cases a with
  | lineStart => rfl
  | _ => exact h

/-- Blanks change what both are amid in the same way. -/
lemma Kin.afterBlank {a b : Mode} (h : Kin a b) (hb : b.inMargin = true) :
    Kin (a.afterBlank c) (b.afterBlank c) := by
  cases h with
  | same hmargin hsame => cases hmargin.symm.trans ((inMargin_of_placed hsame).symm.trans hb)
  | margin =>
    simp only [Mode.afterBlank]
    split
    · exact .margin
    split
    · exact .margin
    · exact .same rfl rfl
  | broken =>
    simp only [Mode.afterBlank]
    split
    · exact .broken
    split
    · exact .broken
    · exact .same rfl rfl

/-- Both scanners read a character. -/
lemma Folding.step (h : Folding s t rest) (hfits : s.mode.Fits (some c))
    (hs : s.react c next = (none, s')) (hrest : ∀ more, s'.emitted = more ++ s.emitted →
      rest = more.reverse ++ next') :
    ∃ t', t.react c next = (none, t') ∧ Folding s' t' next' ∧ Advances s t s' t' rest next' := by
  rcases h.kin.cases with ⟨hmargin, hsame⟩ | ⟨hleft, hright⟩
  · have habreast : Abreast anywhere s t := ⟨rfl, hsame⟩
    obtain ⟨t', ht, htogether⟩ := react_together habreast hmargin hs
    obtain ⟨more, hmore, hkinds, hline⟩ := react_emits hfits hmargin hs
    obtain rfl := hrest more hmore
    exact ⟨t', ht, htogether.folding hmore hkinds hline h.meets⟩
  · have hholds : s.mode.holds = false := by
      rcases hleft with hs | hs
      · rw [hs]
        rfl
      · obtain ⟨width, hs⟩ := Mode.inMargin_iff.mp hs
        rw [hs]
        rfl
    have hholds' : t.mode.holds = false := by
      obtain ⟨width, ht⟩ := Mode.inMargin_iff.mp hright
      rw [ht]
      rfl
    by_cases hblank : c = ' ' ∨ c = '\t' ∨ c = '\r'
    · rw [react_blank hholds hblank] at hs
      cases hs
      obtain rfl : rest = next' := hrest [] rfl
      refine ⟨_, react_blank hholds' hblank, ⟨h.kin.afterBlank hright, h.meets, ?_, ?_⟩,
        [], rfl, fun us hus => hus⟩
      · exact fun hm => h.left (inMargin_afterBlank hm)
      · exact fun _ => h.right hright
    · by_cases hbare : c = '\n' ∨ beginsComment c next = true
      · rw [react_bare hleft hblank hbare] at hs
        rw [react_bare (.inr hright) hblank hbare]
        exact fresh_folding h.meets hs hrest
      · -- here both lines are measured, in blocks that need not be the same
        simp only [not_or, Bool.not_eq_true] at hblank hbare
        have hc : Significant c next := ⟨hblank.1, hblank.2.1, hblank.2.2, hbare.1, hbare.2⟩
        rw [react_significant hleft hc] at hs
        rw [react_significant (.inr hright) hc]
        have hbegins : s.measured.Begins c next (none, s') := hs ▸ fresh_begins
        obtain ⟨more, hmore, _⟩ := hbegins.emits
        have hlayout (run : List Token) (hrun : s.measured.emitted = run ++ s.emitted) :
            rest = run.reverse ++ (more.reverse ++ next') := by
          rw [hrun, ← append_assoc] at hmore
          rw [hrest _ hmore, reverse_append, append_assoc]
        obtain ⟨hmeets, hmeasure⟩ := h.measured hlayout
        obtain ⟨t', ht, hfolding, hfresh⟩ := fresh_folding hmeets hs fun more' hmore' => by
          rw [append_cancel_right (hmore'.symm.trans hmore)]
        exact ⟨t', ht, hfolding, hmeasure.trans hfresh⟩

/-- The second scanner reads a line break and its margin. -/
lemma Folding.break {margin : List Char} (h : Folding s t rest) (hs : s.mode = .between)
    (hfolds : s.spot.folds rest = true) (hmargin : ∀ c ∈ margin, c = ' ' ∨ c = '\t') :
    ∃ t', (∀ text, t.readAll ('\n' :: margin ++ text) = t'.readAll text) ∧ Folding s t' rest ∧
      Advances s t s t' rest rest := by
  have hholds : t.mode.holds = false := by
    have hkin := h.kin
    rw [hs] at hkin
    cases hmode : t.mode with
    | between | lineStart | comment => rfl
    | _ =>
      rw [hmode] at hkin
      cases hkin with
      | same _ hsame => cases hsame
  have hemitted :
    ((t.atLineStart.past '\n' []).idled
      (.lineStart (0 + marginWidth margin)) margin.length).emitted =
      lineBreak t.position :: [] ++ t.emitted := rfl
  refine ⟨_, fun text => ?_, ⟨hs ▸ .broken, .inr hfolds, h.left, fun _ => ?_⟩,
    [_], hemitted, fun us hus => .right rfl ?_⟩
  · have hblanks : (t.atLineStart.past '\n' []).readAll (margin ++ text) = _ :=
      readAll_blanks rfl fun c hc => (hmargin c hc).imp_right .inl
    have hmode : (t.atLineStart.past '\n' []).mode.afterBlanks margin =
        .lineStart (0 + marginWidth margin) :=
      afterBlanks_margin hmargin
    rw [hmode] at hblanks
    rw [cons_append, readAll_cons (react_newline_of_not_holds hholds), ← hblanks]
    exact readAll_unread (s := t.atLineStart.past '\n' [])
  · rw [spot_cons hemitted]
    rfl
  · rw [spot_append hemitted] at hus
    exact hus

lemma Kin.inString {a b : Mode} (h : Kin a b) : b.inString = a.inString := by
  cases h with
  | same _ hsame =>
    have hplaced (mode : Mode) : (mode.placed anywhere).inString = mode.inString := by
      cases mode <;> rfl
    rw [← hplaced, hsame, hplaced]
  | margin | broken => rfl

lemma refolds_closing : Refolds s.spot t.spot s.closing t.closing := by
  have hdedents (s : Scanner) :
      ∀ x ∈ List.replicate s.blocks.length (⟨.dedent, "", s.position⟩ : Token),
      x.kind.isLayout = true := by
    intro x hx
    rw [(mem_replicate.mp hx).2]
    rfl
  exact .left_run (hdedents s) (.right_run (hdedents t) (.ends rfl rfl))

end Folding

section Texts

variable {breaks : Nat → Option (List Char)} {source : String} {text : List Char}
  {tokens rest : List Token} {s t : Scanner}

lemma head?_folded {i : Nat} : (folded breaks i text).head? = text.head? ∨
    (∃ margin, breaks i = some margin) ∧ (folded breaks i text).head? = some '\n' := by
  cases text with
  | nil => exact .inl rfl
  | cons c text =>
    unfold folded
    cases hbreak : breaks i with
    | none => exact .inl rfl
    | some margin => exact .inr ⟨⟨margin, rfl⟩, rfl⟩

/-- Both scanners come to their end. -/
lemma Folding.scans (htokens : Colloquy.tokenize source = .ok tokens)
    (hbreaks : BreaksRecords tokens breaks) (h : Scanning source.toList s)
    (hunread : s.unread = text) (hrest : tokens = s.emitted.reverse ++ rest)
    (hf : Folding s t rest) :
    ∃ us, t.Scans (folded breaks s.position.offset text) (t.emitted.reverse ++ us) ∧
    Refolds s.spot t.spot rest us := by
  have hfaithful := (tokenize_woven htokens).faithful
  induction text generalizing s t rest with
  | nil =>
    obtain ⟨z, hread, hfinish⟩ := hunread ▸ h.scans htokens
    obtain ⟨_, rfl⟩ := Prod.mk.inj hread
    obtain ⟨hstring, hend⟩ := finish_iff.mp hfinish
    obtain rfl : rest = s.closing := append_cancel_left (hrest.symm.trans hend)
    exact ⟨t.closing, ⟨_, rfl, finish_iff.mpr ⟨hf.kin.inString.trans hstring, rfl⟩⟩,
      refolds_closing⟩
  | cons c text ih =>
    have hscans : s.Scans s.unread tokens := h.scans htokens
    obtain ⟨z, hread, hfinish⟩ := hunread ▸ hscans
    obtain ⟨s1, hreact, hread⟩ := readAll_cons_inv hread
    have hnext : Scanning source.toList (s1.past c text) := .step h hunread hreact
    have hfits : s.mode.Fits (some c) := by
      have hfits := h.tidy.1
      rw [hunread] at hfits
      exact hfits
    have hr : s.Reacts c text.head? (none, s1) := hreact ▸ react_reacts hfits
    have hoffset : (s1.past c text).position.offset = s.position.offset + 1 := by
      change (s1.position.after c).offset = _
      rw [hr.extends.position, Position.after]
      split <;> rfl
    obtain ⟨rest', hrest'⟩ := (hnext.scans htokens).emitted hnext.tidy.1
    -- the second scanner reads the break, if there is one here
    obtain ⟨t0, hread0, hf0, hadv0⟩ :
      ∃ t0, (∀ more, t.readAll ((breaks s.position.offset).elim [] ('\n' :: ·) ++ more) =
        t0.readAll more) ∧ Folding s t0 rest ∧ Advances s t s t0 rest rest := by
      cases hbreak : breaks s.position.offset with
      | none => exact ⟨t, fun _ => rfl, hf, [], rfl, fun us hus => hus⟩
      | some margin =>
        obtain ⟨hmargin, hfold⟩ := hbreaks _ _ hbreak
        obtain ⟨hmode, hfolds⟩ := h.at_fold hscans hfaithful hfold hrest
        exact hf.break hmode hfolds hmargin
    -- if a break comes next, the character ends a token or is none
    have hreact' : s.react c (folded breaks (s.position.offset + 1) text).head? = (none, s1) := by
      obtain hhead | ⟨⟨margin, hbreak⟩, hhead⟩ := @head?_folded breaks text (s.position.offset + 1)
      · rw [hhead, hreact]
      · obtain ⟨_, hfold⟩ := hbreaks _ _ hbreak
        rw [← hoffset] at hfold
        obtain ⟨hmode, _⟩ := hnext.at_fold (hnext.scans htokens) hfaithful hfold hrest'
        rw [hhead]
        exact react_before_break hreact hmode (.inr (.inl rfl))
    obtain ⟨t1, ht1, hf1, hadv1⟩ := hf0.step hfits hreact' fun more hmore => by
      rw [hrest, show (s1.past c text).emitted = more ++ s.emitted from hmore, reverse_append,
        append_assoc] at hrest'
      exact append_cancel_left hrest'
    obtain ⟨us, ⟨z', hz, hzfinish⟩, hus⟩ :=
      ih (t := t1.past c (folded breaks (s.position.offset + 1) text)) hnext rfl hrest'
      ⟨hf1.kin, hf1.meets, hf1.left, hf1.right⟩
    obtain ⟨more, hmore, hrows⟩ := hadv0.trans hadv1
    refine ⟨more.reverse ++ us, ⟨z', ?_, ?_⟩, hrows us hus⟩
    · rw [folded, hread0, readAll_cons ht1, ← hz, hoffset]
    · rw [hzfinish, show (t1.past c (folded breaks (s.position.offset + 1) text)).emitted =
        more ++ t.emitted from hmore, reverse_append, append_assoc]

end Texts

end Scanner

section Texts

variable {breaks : Nat → Option (List Char)} {source : String} {tokens : List Token}

/-- A text with broken records can be read, and differs in layout only. -/
lemma tokenize_folded (h : tokenize source = .ok tokens) (hbreaks : BreaksRecords tokens breaks) :
    ∃ again, tokenize (foldRecords breaks source) = .ok again ∧
    Refolds .start .start tokens again := by
  have hstart : Folding (start source.toList) (start (folded breaks 0 source.toList)) tokens :=
    ⟨.same rfl rfl, .inl rfl, by rintro ⟨⟩, by rintro ⟨⟩⟩
  obtain ⟨again, hscans, hrows⟩ := hstart.scans h hbreaks .start rfl rfl
  refine ⟨again, tokenize_iff.mpr ?_, hrows⟩
  rw [foldRecords, String.toList_ofList]
  exact hscans

end Texts

end Colloquy
