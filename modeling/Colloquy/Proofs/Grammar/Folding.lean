import Colloquy.Proofs.Grammar.Concatenation
import Colloquy.Proofs.Token.Folding

/-!
# Programs with broken records

A reader of records passes over the layout between braces, but the scanner measures lines there too,
so a block may begin between braces and end outside. A program whose records are broken into lines
has the same tree up to line numbers if its row has the same layout outside braces: two readers go
along with each other (`InStep`) and pass the layout independently (`Alongside.lands`).
-/

namespace Colloquy

open Grammar Production Scanner List Cursor TokenKind

/-- The kinds of the tokens of a row, without the layout between the open braces. -/
def outside : Nat → List Token → List TokenKind
  | _, [] => []
  | braces, t :: rest =>
    if 0 < braces ∧ t.kind.isLayout = true then outside braces rest
    else t.kind :: outside (t.kind.bracesAfter braces) rest

/-- What is known of texts and layout from some place of a row on. -/
structure Kept (row : List Token) : Prop where
  penned : ∀ t ∈ row, t.Penned
  ended : ∀ t ∈ row, t.kind = .eof → t.text = ""
  indents : ∀ front x t back, row = front ++ x :: t :: back →
  t.kind = .indent → x.kind.isLayout = true

section Kinds

variable {kind : TokenKind} {t : Token} {front row tokens : List Token}
  {source : String} {sign : Symbol}

lemma Kept.suffix (h : Kept (front ++ row)) : Kept row where
  penned t ht := h.penned t (mem_append_right _ ht)
  ended t ht := h.ended t (mem_append_right _ ht)
  indents before x t back he := h.indents (front ++ before) x t back (by rw [he, append_assoc])

lemma Kept.tail (h : Kept (t :: row)) : Kept row := Kept.suffix (show Kept ([t] ++ row) from h)

lemma Kept.text_of_not_isPlain (h : Kept (t :: row)) (hp : t.kind.isPlain = false) :
    t.text = if t.kind = .newline then "\n" else "" := by
  have hpenned := h.penned t mem_cons_self
  cases hkind : t.kind with
  | newline => exact hpenned.newline hkind
  | indent => exact hpenned.layout (.inl hkind)
  | dedent => exact hpenned.layout (.inr hkind)
  | eof => exact h.ended t mem_cons_self hkind
  | _ =>
    rw [hkind] at hp
    cases hp

lemma symbol_not_wordStart {c : Char} (h : symbol? c = some sign) : Text.isWordStart c = false := by
  unfold symbol? at h
  split at h <;> first | decide +kernel | cases h

lemma pairSymbol_not_wordStart {c : Char} (h : pairSymbol? c = some sign) :
    Text.isWordStart c = false := by
  unfold pairSymbol? at h
  split at h <;> first | decide +kernel | cases h

lemma isHinge_ofWord {word : String} : (TokenKind.ofWord word).isHinge = false := by
  unfold TokenKind.ofWord
  split
  · rfl
  split
  · rfl
  split <;> rfl

lemma Spells.isHinge {text : List Char} (h : Spells kind text)
    (hw : text.head?.any Text.isWordStart = true) :
    kind.isHinge = false := by
  cases h with
  | word => exact isHinge_ofWord
  | whole | fraction | string => rfl
  | symbol hc => cases (symbol_not_wordStart hc).symm.trans hw
  | pair hc => cases (pairSymbol_not_wordStart hc).symm.trans hw

lemma Kept.word (h : Kept (t :: row)) (hw : t.text.toList.head?.any Text.isWordStart = true) :
    t.kind.isPlain = true ∧ t.kind.isHinge = false := by
  have hpenned := h.penned t mem_cons_self
  have hplain : t.kind.isPlain = true := by
    cases hp : t.kind.isPlain with
    | true => rfl
    | false =>
      rw [h.text_of_not_isPlain hp] at hw
      split at hw <;> exact absurd hw (by decide +kernel)
  exact ⟨hplain, (hpenned.plain hplain).isHinge hw⟩

lemma OfMargin.last {x : Token} {back : List Token} (h : OfMargin (front ++ [x]) back) :
    x.kind.isLayout = true := by
  obtain ⟨before, t, closed, _, _, _, hfront, ht, hclosed, _⟩ := h
  rcases eq_nil_or_concat' closed with rfl | ⟨closed, y, rfl⟩
  · obtain ⟨_, hx⟩ := append_inj' hfront rfl
    rw [singleton_inj.mp hx, ht]
    rfl
  · rw [← cons_append, ← append_assoc] at hfront
    obtain ⟨_, hx⟩ := append_inj' hfront rfl
    rw [singleton_inj.mp hx, hclosed y (mem_append_right _ (mem_singleton_self y))]
    rfl

/-- All this holds of the tokens of every text. -/
lemma tokenize_kept (h : tokenize source = .ok tokens) : Kept tokens := by
  obtain ⟨s, hread, hfinish⟩ := tokenize_iff.mp h
  obtain ⟨hstring, rfl⟩ := finish_iff.mp hfinish
  have hpenned := emitted_penned hread
  have hclosing : ∀ t ∈ s.closing, t.Penned ∧ (t.kind = .eof → t.text = "") := by
    refine forall_mem_append.mpr ⟨fun t ht =>
      ?_, forall_mem_singleton.mpr ⟨⟨nofun, nofun, nofun⟩, fun _ => rfl⟩⟩
    rw [(mem_replicate.mp ht).2]
    exact ⟨Token.penned_dedent, fun _ => rfl⟩
  have hsound : s.Sound :=
    readAll_sound (s := Scanner.start source.toList) trivial start_sound hread
  refine ⟨?_, ?_, fun front x t back he hk => ?_⟩
  · refine forall_mem_append.mpr ⟨fun t ht =>
      hpenned t (mem_reverse.mp ht), fun t ht => (hclosing t ht).1⟩
  · refine forall_mem_append.mpr ⟨fun t ht hk => ?_, fun t ht => (hclosing t ht).2⟩
    exact ((hsound.emitted t (mem_reverse.mp ht)).ne_eof hk).elim
  · rw [append_cons] at he
    rcases layout_split (emitted_lined hread hstring) he (.inl hk) with ⟨hd, _⟩ | hmargin
    · cases hk.symm.trans hd
    · exact hmargin.last

end Kinds

section Rows

variable {p q p' : Spot} {run run' ts us : List Token} {t u : Token} {kind : TokenKind} {k : Nat}

lemma TokenKind.bracesAfter_of_isLayout (h : kind.isLayout = true) : kind.bracesAfter k = k := by
  cases kind <;> first | rfl | cases h

lemma TokenKind.bracesAfter_of_not_isHinge (h : kind.isHinge = false) : kind.bracesAfter k = k := by
  unfold bracesAfter
  split
  · cases h
  · cases h
  · rfl

lemma outside_layout (h : t.kind.isLayout = true) :
    outside (k + 1) (t :: ts) = outside (k + 1) ts := by
  rw [outside, if_pos ⟨Nat.succ_pos k, h⟩]

lemma outside_run (h : ∀ t ∈ run, t.kind.isLayout = true) :
    outside (k + 1) (run ++ ts) = outside (k + 1) ts := by
  induction run with
  | nil => rfl
  | cons t run ih =>
    obtain ⟨ht, h⟩ := forall_mem_cons.mp h
    rw [cons_append, outside_layout ht, ih h]

lemma outside_plain (h : t.kind.isPlain = true) :
    outside k (t :: ts) = t.kind :: outside (t.kind.bracesAfter k) ts := by
  rw [outside, if_neg]
  rintro ⟨_, hl⟩
  cases (isPlain_of_isLayout hl).symm.trans h

lemma outside_zero : outside 0 (t :: ts) = t.kind :: outside (t.kind.bracesAfter 0) ts := by
  rw [outside, if_neg]
  rintro ⟨h, _⟩
  exact Nat.lt_irrefl 0 h

lemma Spot.after_after (h : t.kind.isLayout = true) :
    (p.after t.kind).after kind = p.after kind := by
  simp only [after, bracesAfter_of_isLayout h]

lemma Spot.after_congr (h : p'.braces = p.braces) : p'.after kind = p.after kind := by
  simp only [after, h]

namespace Refolds

lemma past (h : Refolds p q (t :: ts) (u :: us)) (ht : t.kind.isPlain = true)
    (hu : u.kind.isPlain = true) :
    u.face = t.face ∧ Refolds (p.after t.kind) (q.after t.kind) ts us := by
  cases h with
  | left hl => cases (isPlain_of_isLayout hl).symm.trans ht
  | right hl => cases (isPlain_of_isLayout hl).symm.trans hu
  | plain _ hface _ h => exact ⟨hface, h⟩
  | ends he =>
    rw [he] at ht
    cases ht

/-- Layout of the first row may be passed alone. -/
lemma drop_left (h : Refolds p q (t :: ts) us) (ht : t.kind.isLayout = true) :
    Refolds (p.after t.kind) q ts us := by
  generalize hrow : t :: ts = row at h
  induction h with
  | left _ h =>
    obtain ⟨rfl, rfl⟩ := List.cons.inj hrow
    exact h
  | right hu _ ih => exact .right hu (ih hrow)
  | plain hp =>
    obtain ⟨rfl, _⟩ := List.cons.inj hrow
    cases (isPlain_of_isLayout ht).symm.trans hp
  | ends he =>
    obtain ⟨rfl, _⟩ := List.cons.inj hrow
    rw [he] at ht
    cases ht

/-- Layout of the second row may be passed alone. -/
lemma drop_right (h : Refolds p q ts (u :: us)) (hu : u.kind.isLayout = true) :
    Refolds p (q.after u.kind) ts us := by
  generalize hrow : u :: us = row at h
  induction h with
  | left ht _ ih => exact .left ht (ih hrow)
  | right _ h =>
    obtain ⟨rfl, rfl⟩ := List.cons.inj hrow
    exact h
  | plain hp hface =>
    obtain ⟨rfl, _⟩ := List.cons.inj hrow
    have hkind : u.kind = _ := congrArg Prod.fst hface
    rw [hkind] at hu
    cases (isPlain_of_isLayout hu).symm.trans hp
  | ends _ he =>
    obtain ⟨rfl, _⟩ := List.cons.inj hrow
    rw [he] at hu
    cases hu

lemma ne_nil (h : Refolds p q ts us) : ts ≠ [] ∧ us ≠ [] := by
  induction h with
  | left _ _ ih => exact ⟨cons_ne_nil _ _, ih.2⟩
  | right _ _ ih => exact ⟨ih.1, cons_ne_nil _ _⟩
  | plain | ends => exact ⟨cons_ne_nil _ _, cons_ne_nil _ _⟩

/-- Past the layout both rows come to the same token. -/
lemma landing (h : Refolds p q ts us) :
    ∃ run run' t u ts' us', ts = run ++ t :: ts' ∧ us = run' ++ u :: us' ∧
    (∀ x ∈ run, x.kind.isLayout = true) ∧ (∀ x ∈ run', x.kind.isLayout = true) ∧
    (t.kind = .eof ∧ u.kind = .eof ∨ t.kind.isPlain = true ∧ u.face = t.face ∧
      Refolds (p.after t.kind) (q.after t.kind) ts' us') := by
  induction h with
  | @left p q t _ _ ht _ ih =>
    obtain ⟨run, run', x, y, ts', us', rfl, hus, hrun, hrun', hland⟩ := ih
    refine ⟨t :: run, run', x, y, ts', us', rfl, hus, forall_mem_cons.mpr ⟨ht, hrun⟩, hrun', ?_⟩
    rwa [Spot.after_after ht] at hland
  | @right p q u _ _ hu _ ih =>
    obtain ⟨run, run', x, y, ts', us', hts, rfl, hrun, hrun', hland⟩ := ih
    refine ⟨run, u :: run', x, y, ts', us', hts, rfl, hrun, forall_mem_cons.mpr ⟨hu, hrun'⟩, ?_⟩
    rwa [Spot.after_after hu] at hland
  | plain ht hface _ h =>
    exact ⟨[], [], _, _, _, _, rfl, rfl, forall_mem_nil _, forall_mem_nil _, .inr ⟨ht, hface, h⟩⟩
  | ends ht hu =>
    exact ⟨[], [], _, _, _, _, rfl, rfl, forall_mem_nil _, forall_mem_nil _, .inl ⟨ht, hu⟩⟩

/-- Rows go on together if the same braces are open. -/
lemma shift (h : Refolds p q ts us) (hbraces : p'.braces = p.braces)
    (hlast : p'.last.isLayout = p.last.isLayout) :
    Refolds p' q ts us ∨ p.folds ts = true ∧ p'.folds ts = false := by
  induction h with
  | left ht h =>
    rw [← Spot.after_congr hbraces] at h
    exact .inl (.left ht h)
  | right hu _ ih => exact (ih hbraces hlast).imp_left (.right hu)
  | @plain p q t _ ts us ht hface hmeets h =>
    rw [← Spot.after_congr hbraces] at h
    rcases hmeets with hsame | hfolds
    · exact .inl (.plain ht hface (.inl (hsame.trans hlast.symm)) h)
    · cases hfolds' : p'.folds (t :: ts) with
      | true => exact .inl (.plain ht hface (.inr hfolds') h)
      | false => exact .inr ⟨hfolds, rfl⟩
  | ends ht hu => exact .inl (.ends ht hu)

/-- Where only the left is behind layout, the right is not inside a line. -/
lemma not_isPlain_right (h : Refolds p q ts (u :: us)) (hp : p.last.isLayout = true)
    (hq : q.last.isLayout = false) :
    u.kind.isPlain = false := by
  generalize hrow : u :: us = row at h
  induction h with
  | left ht _ ih => exact ih ht hq hrow
  | right hu =>
    obtain ⟨rfl, _⟩ := List.cons.inj hrow
    exact isPlain_of_isLayout hu
  | plain _ _ hmeets =>
    rcases hmeets with hsame | hfolds
    · cases hq.symm.trans (hsame.trans hp)
    · cases (isPlain_of_isLayout hp).symm.trans (Spot.folds_last hfolds)
  | ends _ he =>
    obtain ⟨rfl, _⟩ := List.cons.inj hrow
    rw [he]
    rfl

/-- Where only the right is behind layout, the left folds. -/
lemma folds_left (h : Refolds p q (t :: ts) us) (hp : p.last.isLayout = false)
    (hq : q.last.isLayout = true) (ht : t.kind.isPlain = true) : p.folds (t :: ts) = true := by
  generalize hrow : t :: ts = row at h
  induction h with
  | left hl =>
    obtain ⟨rfl, _⟩ := List.cons.inj hrow
    cases (isPlain_of_isLayout hl).symm.trans ht
  | right hu _ ih => exact ih hp hu hrow
  | plain _ _ hmeets =>
    rcases hmeets with hsame | hfolds
    · cases hq.symm.trans (hsame.trans hp)
    · exact hfolds
  | ends he =>
    obtain ⟨rfl, _⟩ := List.cons.inj hrow
    rw [he] at ht
    cases ht

end Refolds

end Rows

/-- A token of this kind neither begins a line, a record nor a field. -/
def TokenKind.isInner (kind : TokenKind) : Bool :=
  kind.isPlain && kind ≠ .symbol .leftBrace && kind ≠ .symbol .comma

/-- From here on two rows hold the same tokens inside lines and the same layout outside braces. -/
structure Alongside (p q : Spot) (ts us : List Token) : Prop where
  rows : Refolds p q ts us
  outside : outside p.braces us = outside p.braces ts
  left : Kept ts
  right : Kept us

/-- The same with so many braces open. Between braces, both rows are inside a field. -/
def InStep (k : Nat) (ts us : List Token) : Prop :=
  ∃ p q : Spot, p.braces = k ∧ (0 < k → p.last.isInner = true ∧ q.last.isLayout = false) ∧
  Alongside p q ts us

section Kinds

variable {kind : TokenKind} {p : Spot} {t : Token} {ts : List Token}

lemma TokenKind.not_isLayout_of_isPlain (h : kind.isPlain = true) : kind.isLayout = false := by
  cases kind <;> first | rfl | cases h

lemma TokenKind.stops_of_not_isPlain (h : kind.isPlain = false) : kind.stops = true := by
  cases kind <;> first | rfl | cases h

lemma TokenKind.not_stops_of_not_isHinge (hp : kind.isPlain = true) (hh : kind.isHinge = false) :
    kind.stops = false := by
  cases kind with
  | symbol sign => cases sign <;> first | rfl | cases hh
  | newline | indent | dedent | eof => cases hp
  | _ => rfl

lemma TokenKind.isInner_iff :
    kind.isInner = true ↔ kind.isPlain = true ∧ kind ≠ .symbol .leftBrace ∧
    kind ≠ .symbol .comma := by
  simp [isInner, and_assoc]

lemma TokenKind.isInner_of_not_isHinge (hp : kind.isPlain = true) (hh : kind.isHinge = false) :
    kind.isInner = true := by
  refine isInner_iff.mpr ⟨hp, ?_, ?_⟩ <;> rintro rfl <;> cases hh

lemma Spot.folds_of_isInner (hp : p.last.isInner = true) (h : p.folds (t :: ts) = true) :
    t.kind = .symbol .rightBrace := by
  obtain ⟨_, hbrace, hcomma⟩ := isInner_iff.mp hp
  simp only [folds, hbrace, hcomma, decide_false, Bool.false_or,
    Bool.false_and, Bool.or_false, Bool.and_eq_true, decide_eq_true_eq] at h
  exact h.2

lemma Spot.folds_after_comma (hp : p.last = .symbol .comma) (h : p.folds (t :: ts) = true) :
    t.kind = .symbol .rightBrace ∨ t.kind.isKey = true ∧
    ts.head?.map Token.kind = some (.symbol .colon) := by
  simp only [folds, hp, reduceCtorEq, TokenKind.symbol.injEq,
    decide_false, decide_true, Bool.false_or, Bool.true_and,
    Bool.and_eq_true, Bool.or_eq_true, decide_eq_true_eq] at h
  exact h.2.imp_right fun hkey => ⟨hkey.1.2, hkey.2⟩

lemma atArgumentBoundary_of_stops (hs : kind.stops = true) (hk : kind ≠ .indent) :
    atArgumentBoundary kind = true := by
  unfold TokenKind.stops at hs
  split at hs
  · rfl
  · exact (hk rfl).elim
  · rfl
  · rfl
  · rfl
  · cases hs

lemma contains_layout : TokenKind.layout.contains kind = kind.isLayout := by
  cases kind <;> rfl

end Kinds

section Steps

variable {p q : Spot} {k : Nat} {ts us : List Token} {t u : Token}

lemma Alongside.past (h : Alongside p q (t :: ts) (u :: us)) (ht : t.kind.isPlain = true)
    (hk : u.kind = t.kind) :
    Alongside (p.after t.kind) (q.after t.kind) ts us := by
  have hout := h.outside
  rw [outside_plain ht, outside_plain (hk ▸ ht), hk] at hout
  exact ⟨(h.rows.past ht (hk ▸ ht)).2, (List.cons.inj hout).2, h.left.tail, h.right.tail⟩

namespace InStep

lemma ne_nil (h : InStep k ts us) : ts ≠ [] ∧ us ≠ [] := by
  obtain ⟨_, _, _, _, halong⟩ := h
  exact halong.rows.ne_nil

lemma same (h : InStep 0 (t :: ts) (u :: us)) : u.kind = t.kind ∧ u.text = t.text := by
  obtain ⟨p, q, hbraces, _, halong⟩ := h
  have hout := halong.outside
  rw [hbraces, outside_zero, outside_zero] at hout
  have hkind := (List.cons.inj hout).1
  refine ⟨hkind, ?_⟩
  cases hp : t.kind.isPlain with
  | true => exact congrArg Prod.snd (halong.rows.past hp (hkind ▸ hp)).1
  | false =>
    rw [halong.left.text_of_not_isPlain hp, halong.right.text_of_not_isPlain (hkind ▸ hp), hkind]

/-- Where the rows part, no expression goes on in either. -/
lemma heads (h : InStep k (t :: ts) (u :: us)) :
    u.kind = t.kind ∧ u.text = t.text ∨ t.kind.stops = true ∧ u.kind.stops = true := by
  cases k with
  | zero => exact .inl h.same
  | succ k =>
    obtain ⟨p, q, _, hinner, halong⟩ := h
    obtain ⟨hp, hq⟩ := hinner (Nat.succ_pos k)
    cases halong.rows with
    | left ht hrows =>
      have hu := hrows.not_isPlain_right ht hq
      exact .inr ⟨stops_of_not_isPlain (isPlain_of_isLayout ht), stops_of_not_isPlain hu⟩
    | right hu hrows =>
      refine .inr ⟨?_, stops_of_not_isPlain (isPlain_of_isLayout hu)⟩
      cases ht : t.kind.isPlain with
      | true =>
        have hline := not_isLayout_of_isPlain (isInner_iff.mp hp).1
        rw [Spot.folds_of_isInner hp (hrows.folds_left hline hu ht)]
        rfl
      | false => exact stops_of_not_isPlain ht
    | plain _ hface => exact .inl ⟨congrArg Prod.fst hface, congrArg Prod.snd hface⟩
    | ends ht hu => exact .inr ⟨ht ▸ rfl, hu ▸ rfl⟩

lemma past (h : InStep k (t :: ts) (u :: us)) (ht : t.kind.isPlain = true) (hk : u.kind = t.kind) :
    ∃ p q : Spot, p.braces = t.kind.bracesAfter k ∧ p.last = t.kind ∧
    q.last = t.kind ∧ Alongside p q ts us := by
  obtain ⟨p, q, hbraces, _, halong⟩ := h
  exact ⟨_, _, congrArg t.kind.bracesAfter hbraces, rfl, rfl, halong.past ht hk⟩

/-- Layout outside braces is in step. -/
lemma layout (h : InStep 0 (t :: ts) (u :: us)) (ht : t.kind.isLayout = true) : InStep 0 ts us := by
  have hkind := h.same.1
  obtain ⟨p, q, hbraces, _, halong⟩ := h
  have hzero : (p.after t.kind).braces = 0 := (bracesAfter_of_isLayout ht).trans hbraces
  have hout := halong.outside
  rw [hbraces, outside_zero, outside_zero, hkind, bracesAfter_of_isLayout ht] at hout
  refine ⟨p.after t.kind, q.after u.kind, hzero, fun hpos =>
    (Nat.lt_irrefl 0 hpos).elim, ?_, ?_, ?_, ?_⟩
  · exact (halong.rows.drop_left ht).drop_right (hkind ▸ ht)
  · rw [hzero]
    exact (List.cons.inj hout).2
  · exact halong.left.tail
  · exact halong.right.tail

end InStep

end Steps

section Readers

variable {p q : Spot} {k n : Nat} {ts : List Token} {t : Token} {c d : Cursor}
  {kinds : List TokenKind}

/-- No block begins inside a line. -/
lemma Kept.next_ne_indent (h : Kept c.row) (hp : c.here.kind.isPlain = true) :
    c.next.here.kind ≠ .indent := by
  have hne : c.here.kind ≠ .indent ∧ c.here.kind ≠ .eof := by
    constructor <;> intro hk <;> rw [hk] at hp <;> cases hp
  cases ha : c.ahead with
  | nil =>
    rw [Cursor.next, if_neg hne.2, ha]
    exact hne.1
  | cons t rest =>
    intro hk
    have hrow := row_next hne.2 (ha ▸ cons_ne_nil _ _)
    rw [(List.cons.inj (hrow.trans ha)).1] at hk
    have hlayout := h.indents [] c.here t rest (congrArg (List.cons c.here) ha) hk
    cases (isPlain_of_isLayout hlayout).symm.trans hp

/-- A run of passed tokens is passed. -/
lemma Cursor.row_pass {run : List Token} (hend : TokenKind.eof ∉ kinds)
    (hrun : ∀ x ∈ run, kinds.contains x.kind = true) (ht : kinds.contains t.kind = false)
    (hc : c.row = run ++ t :: ts) : (c.pass kinds).row = t :: ts := by
  induction run generalizing c with
  | nil =>
    obtain ⟨rfl, rfl⟩ := List.cons.inj hc
    rw [pass_of_not_contains ht]
    rfl
  | cons x run ih =>
    obtain ⟨rfl, ha⟩ := List.cons.inj hc
    obtain ⟨hx, hrun⟩ := forall_mem_cons.mp hrun
    have hne : c.here.kind ≠ .eof := by
      intro he
      rw [he] at hx
      exact hend (contains_iff_mem.mp hx)
    rw [pass_of_contains hend hx]
    refine ih hrun ((row_next hne ?_).trans ha)
    rw [ha]
    exact append_ne_nil_of_right_ne_nil _ (cons_ne_nil _ _)

/-- Both readers skip the layout between braces and land at the same token. -/
lemma Alongside.lands {s : Enclosure} (h : Alongside p q c.row d.row) (hpos : 0 < s.braces)
    (hbraces : p.braces = s.braces) (hdepth : c.depth = n ∧ d.depth = n) :
    Lands none (fun s => InRows (InStep s.braces) n) s c d := by
  obtain ⟨hrows, hout, hleft, hright⟩ := h
  obtain ⟨run, run', t, u, ts, us, hc, hd, hrun, hrun', hland⟩ := hrows.landing
  have hend : TokenKind.eof ∉ TokenKind.layout := by decide
  have hlayout {run : List Token} (hrun : ∀ x ∈ run, x.kind.isLayout = true) :
      ∀ x ∈ run, TokenKind.layout.contains x.kind = true :=
    fun x hx => contains_layout.trans (hrun x hx)
  rcases hland with ⟨ht, _⟩ | ⟨ht, hface, hrest⟩
  · refine .inl (.inr ⟨hpos, .inl ?_⟩)
    have hrow := row_pass hend (hlayout hrun) (by rw [ht]; rfl) hc
    rw [(List.cons.inj hrow).1, ht]
  · have hkind : u.kind = t.kind := congrArg Prod.fst hface
    have hstop : TokenKind.layout.contains t.kind = false :=
      contains_layout.trans (not_isLayout_of_isPlain ht)
    have hrow := row_pass hend (hlayout hrun) hstop hc
    have hrow' := row_pass hend (hlayout hrun') (hkind ▸ hstop) hd
    rw [hc] at hleft
    rw [hd] at hright
    obtain ⟨k, hk⟩ : ∃ k, s.braces = k + 1 := Nat.exists_eq_succ_of_ne_zero (Nat.ne_of_gt hpos)
    rw [hbraces, hc, hd, hk, outside_run hrun, outside_run hrun', ← hk] at hout
    refine .inr ⟨⟨?_, depth_pass.trans hdepth.1, depth_pass.trans hdepth.2⟩, ?_⟩
    · rw [hrow, hrow']
      -- of the places before this token only the open braces count from here on
      refine ⟨⟨s.braces, .symbol .colon⟩, ⟨q.braces, .symbol .colon⟩, rfl, fun _ =>
        ⟨rfl, rfl⟩, ?_, hout, hleft.suffix, hright.suffix⟩
      rw [Spot.after, hbraces] at hrest
      exact .plain ht hface (.inl rfl) hrest
    · rw [(List.cons.inj hrow).1, (List.cons.inj hrow').1, hkind]

/-- After a comma the readers are in step, or a key follows. -/
lemma Alongside.after_comma (h : Alongside p q c.row d.row) (hbraces : p.braces = k + 1)
    (hp : p.last = .symbol .comma) (hq : q.last = .symbol .comma) :
    InStep (k + 1) c.row d.row ∨ c.Heading := by
  have hlast : (TokenKind.symbol .colon).isLayout = p.last.isLayout := by rw [hp]; rfl
  have hshift : Refolds ⟨k + 1, .symbol .colon⟩ q c.row d.row ∨ _ := h.rows.shift hbraces.symm hlast
  rcases hshift with hrows | ⟨hfolds, hnot⟩
  · exact .inl ⟨_, q, rfl, fun _ => ⟨rfl, hq ▸ rfl⟩, hrows, hbraces ▸ h.outside, h.left, h.right⟩
  · refine .inr ?_
    rcases Spot.folds_after_comma hp hfolds with hclose | ⟨hkey, hcolon⟩
    · -- before the closing brace the record can be broken inside a field as well
      simp [Cursor.row, Spot.folds, hclose, TokenKind.isPlain] at hnot
    · obtain ⟨x, hx, hcolon⟩ := Option.map_eq_some_iff.mp hcolon
      obtain ⟨rest, hrest⟩ : ∃ rest, c.ahead = x :: rest := List.head?_eq_some_iff.mp hx
      have hne : c.here.kind ≠ .eof := by
        intro he
        rw [he] at hkey
        cases hkey
      have hrow := row_next hne (hrest ▸ cons_ne_nil _ _)
      rw [hrest] at hrow
      refine ⟨?_, (List.cons.inj hrow).1 ▸ hcolon⟩
      cases hk : c.here.kind with
      | identifier word => exact .inl ⟨word, rfl⟩
      | string text => exact .inr ⟨text, rfl⟩
      | _ =>
        rw [hk] at hkey
        cases hkey

section Steps

variable (h : InRows (InStep k) n c d)

include h

lemma InRows.tallies (hs : c.here.kind.stops = false) :
    c.here.Tallies (fun _ => 0) (fun _ => 0) d.here := by
  rcases InStep.heads h.1 with ⟨hkind, htext⟩ | ⟨hstops, _⟩
  · exact ⟨hkind, htext, rfl⟩
  · cases hs.symm.trans hstops

lemma InRows.alongside (hp : c.here.kind.isPlain = true) (hk : d.here.kind = c.here.kind) :
    Ahead (InRows (fun ts us => ∃ p q : Spot, p.braces = c.here.kind.bracesAfter k ∧
      p.last = c.here.kind ∧ q.last = c.here.kind ∧ Alongside p q ts us) n) c d c.next d.next := by
  have hne : c.here.kind ≠ .eof := by
    intro he
    rw [he] at hp
    cases hp
  obtain ⟨p, q, hnext⟩ := InStep.past h.1 hp hk
  exact InRows.next hne (hk ▸ hne) hnext.2.2.2.rows.ne_nil ⟨p, q, hnext⟩ h.2

lemma InRows.step (hp : c.here.kind.isPlain = true) (hk : d.here.kind = c.here.kind)
    (hinner : 0 < c.here.kind.bracesAfter k → c.here.kind.isInner = true) :
    Ahead (InRows (InStep (c.here.kind.bracesAfter k)) n) c d c.next d.next := by
  obtain ⟨⟨⟨p, q, hbraces, hlast, hlast', halong⟩, hdepth⟩, hleft, hright⟩ := h.alongside hp hk
  refine ⟨⟨⟨p, q, hbraces, fun hpos => ⟨hlast ▸ hinner hpos, ?_⟩, halong⟩, hdepth⟩, hleft, hright⟩
  rw [hlast']
  exact not_isLayout_of_isPlain hp

lemma InRows.inner (hk : d.here.kind = c.here.kind) (hp : c.here.kind.isPlain = true)
    (hh : c.here.kind.isHinge = false) :
    Ahead (InRows (InStep k) n) c d c.next d.next := by
  have hstep := h.step hp hk fun _ => isInner_of_not_isHinge hp hh
  rwa [bracesAfter_of_not_isHinge hh] at hstep

lemma InRows.boundary (hp : c.here.kind.isPlain = true) (hh : c.here.kind.isHinge = false) :
    atArgumentBoundary d.next.here.kind = atArgumentBoundary c.next.here.kind := by
  have hkind := (h.tallies (not_stops_of_not_isHinge hp hh)).kind
  obtain ⟨_, _, _, _, halong⟩ := h.1
  rcases InStep.heads (h.inner hkind hp hh).related.1 with ⟨hkind', _⟩ | ⟨hstops, hstops'⟩
  · rw [hkind']
  · rw [atArgumentBoundary_of_stops hstops (halong.left.next_ne_indent hp),
      atArgumentBoundary_of_stops hstops' (halong.right.next_ne_indent (hkind ▸ hp))]

end Steps

lemma InRows.halts (h : InRows (InStep k) n c d) : c.here.Tallies (fun _ => 0) (fun _ => 0) d.here ∨
    c.here.kind.stops = true ∧ d.Halts := by
  rcases InStep.heads h.1 with ⟨hkind, htext⟩ | ⟨hstops, hstops'⟩
  · exact .inl ⟨hkind, htext, rfl⟩
  · exact .inr ⟨hstops, .inl hstops'⟩

/-- Rows with broken records are in tandem. -/
lemma inStep_tandem :
    Tandem (fun _ => 0) (fun _ => 0) none (fun s => InRows (InStep s.braces) n) where
  halt h := h.halts.imp_right fun hs => ⟨hs.1, fun _ => hs.2⟩
  next h hk hp hh := .inr (h.inner hk hp hh)
  peek {s c d kind} h hk hs ht := by
    obtain ⟨hp, hh, _⟩ := isPlain_of_isStep hs
    have hne : kind.stops = false := not_stops_of_trails ht
    rcases InStep.heads (h.inner hk hp hh).related.1 with ⟨hkind, _⟩ | ⟨hstops, hstops'⟩
    · rw [hkind]
    · exact iff_of_false (ne_of_stops hstops hne) (ne_of_stops hstops' hne)
  word {s c d} h hw := by
    obtain ⟨_, _, _, _, halong⟩ := h.1
    obtain ⟨hp, hh⟩ := halong.left.word hw
    have htallies := h.tallies (not_stops_of_not_isHinge hp hh)
    exact .inr ⟨htallies, (h.inner htallies.kind hp hh).along⟩
  list _ _ _ _ h := h.halts.imp_right fun hs => hs.2.quiet
  natural {s c d} h hk := by
    refine .inr ⟨fun _ _ h => h.halts.imp_right fun hs => hs.2.quits,
      fun _ _ h => h.halts.imp_right fun hs => hs.2.quiet, ?_⟩
    rcases hk with hk | hk
    · exact h.boundary (hk ▸ rfl) (hk ▸ rfl)
    · exact h.boundary (hk ▸ rfl) (hk ▸ rfl)
  comma {s c d} h hk := by
    have hp : c.here.kind.isPlain = true := hk ▸ rfl
    have hkind := (h.tallies (hk ▸ rfl)).kind
    obtain ⟨k, enclosed⟩ := s
    cases k with
    | zero =>
      obtain ⟨hnext, hleft, hright⟩ := h.step hp hkind fun hpos => by rw [hk] at hpos; cases hpos
      rw [hk] at hnext
      exact .inr ⟨.inl hnext, hleft, hright⟩
    | succ k =>
      obtain ⟨⟨⟨p, q, hbraces, hlast, hlast', halong⟩, hdepth⟩, hleft, hright⟩ :=
        h.alongside hp hkind
      rw [hk] at hbraces hlast hlast'
      refine .inr ⟨?_, hleft, hright⟩
      rcases halong.after_comma hbraces hlast hlast' with hstep | hheading
      · exact .inl ⟨hstep, hdepth⟩
      · exact .inr ⟨Nat.succ_pos k, hheading, halong.lands (Nat.succ_pos k) hbraces hdepth⟩
  opens {s c d} h hk := by
    have hkind := (h.tallies (hk ▸ rfl)).kind
    obtain ⟨⟨⟨p, q, hbraces, _, _, halong⟩, hdepth⟩, hleft, hright⟩ := h.alongside (hk ▸ rfl) hkind
    rw [hk] at hbraces
    exact ⟨halong.lands (Nat.succ_pos _) hbraces hdepth, hleft, hright⟩
  closes {s c d} h hk hk' := by
    have hstep := h.step (hk ▸ rfl) (hk'.trans hk.symm) fun _ => hk ▸ rfl
    rw [hk] at hstep
    exact .inr hstep
  layout h := by
    obtain ⟨p, q, hbraces, _, halong⟩ := h.1
    exact halong.lands (Nat.succ_pos _) hbraces h.2
  enter h := .inr h
  leave h := h

lemma InRows.layout (h : InRows (InStep 0) n c d) (hk : c.here.kind.isLayout = true) :
    Ahead (InRows (InStep 0) n) c d c.next d.next := by
  have hne : c.here.kind ≠ .eof := by
    intro he
    rw [he] at hk
    cases hk
  have hnext := InStep.layout h.1 hk
  exact InRows.next hne ((InStep.same h.1).1 ▸ hne) hnext.ne_nil hnext h.2

/-- Both pass their ends of lines. -/
lemma InRows.pass_newlines (h : InRows (InStep 0) n c d) :
    InRows (InStep 0) n (c.pass [.newline]) (d.pass [.newline]) := by
  induction hlen : c.remaining using Nat.strong_induction_on generalizing c d with
  | _ len ih =>
    have hkind := (InStep.same h.1).1
    by_cases hk : c.here.kind = .newline
    · have hin : [TokenKind.newline].contains c.here.kind = true := by rw [hk]; rfl
      rw [pass_of_contains (by decide) hin, pass_of_contains (c := d) (by decide) (hkind ▸ hin)]
      obtain ⟨hnext, hleft, _⟩ := h.layout (hk ▸ rfl)
      exact ih _ (hlen ▸ hleft) hnext rfl
    · rw [pass_of_not_contains (by simpa using hk),
        pass_of_not_contains (by simpa [hkind] using hk)]
      exact h

/-- Rows in step are a seam for statements. -/
lemma inStep_seam :
    Seam (fun _ => 0) (fun _ => 0) (fun n k => InRows (InStep k) n) (fun n => InRows (InStep 0) n)
    (fun _ _ _ => False) where
  tandem _ := inStep_tandem
  tallies h := ⟨(InStep.same h.1).1, (InStep.same h.1).2, rfl⟩
  depth h := Nat.le_of_eq h.2.1.symm
  deeper h := h.deeper
  shallower h := h.shallower
  newline h hk := h.layout (hk ▸ rfl)
  indent h hk := h.layout (hk ▸ rfl)
  dedent h hk := h.layout (hk ▸ rfl)
  loose_of_tight h := h
  loose_of_across h := h.elim
  skip h := ⟨.inl h.pass_newlines, remaining_pass_le, remaining_pass_le⟩
  across_shallower h := h.elim
  across_kind h := h.elim
  across_else h := h.elim

end Readers

section Texts

variable {source source' : String} {tokens again : List Token} {p : Program}
  {breaks : Nat → Option (List Char)}

/-- Rows with the same layout outside braces have the same tree. -/
lemma compile_refolds (h : compile source = .ok p) (htokens : tokenize source = .ok tokens)
    (hagain : tokenize source' = .ok again) (hrows : Refolds .start .start tokens again)
    (hout : outside 0 again = outside 0 tokens) :
    ∃ q, compile source' = .ok q ∧ q.body.map (Stmt.mapLine fun _ => 0) =
      p.body.map (Stmt.mapLine fun _ => 0) := by
  obtain ⟨row, c, hrow, hrun⟩ := compile_iff.mp h
  obtain rfl : tokens = row := Except.ok.inj (htokens.symm.trans hrow)
  have hstep : InStep 0 tokens again :=
    ⟨.start, .start, rfl, fun hpos => (Nat.lt_irrefl 0 hpos).elim, hrows, hout,
    tokenize_kept htokens, tokenize_kept hagain⟩
  have hloose : InRows (InStep 0) 0 (.ofTokens tokens) (.ofTokens again) := by
    refine ⟨?_, depth_ofTokens, depth_ofTokens⟩
    rw [(complete_of_tokenize htokens).row_ofTokens, (complete_of_tokenize hagain).row_ofTokens]
    exact hstep
  obtain ⟨q, d, hrun', hlike⟩ := program_concurs inStep_seam permits_of_inRows hloose
    (fun hland hend => (InStep.same (hland.resolve_right id).1).1.trans hend) hrun
  rw [Stmt.LikeAll, Stmt.mapLines_eq_map, Stmt.mapLines_eq_map] at hlike
  exact ⟨q, compile_iff.mpr ⟨again, d, hagain, hrun'⟩, hlike.symm⟩

/-- However the records of a program are broken, the text can be divided into tokens, and those
inside lines are the same as before. If the layout outside braces is the same as well, then the
program has the same tree, up to line numbers. -/
theorem compile_foldRecords (h : compile source = .ok p) (htokens : tokenize source = .ok tokens)
    (hbreaks : BreaksRecords tokens breaks) :
    ∃ again, tokenize (foldRecords breaks source) = .ok again ∧
      (again.filter (·.kind.isPlain)).map Token.face =
        (tokens.filter (·.kind.isPlain)).map Token.face ∧
      (outside 0 again = outside 0 tokens → ∃ q, compile (foldRecords breaks source) = .ok q ∧
        q.body.map (Stmt.mapLine fun _ => 0) = p.body.map (Stmt.mapLine fun _ => 0)) := by
  obtain ⟨again, hagain, hrows⟩ := tokenize_folded htokens hbreaks
  exact ⟨again, hagain, hrows.faces, compile_refolds h htokens hagain hrows⟩

end Texts

/-- A program with a record inside another one, in a block. -/
def nestedRecords : String :=
  "if x:\n    set r to \x7ba: 1, 'b': \x7bc: list of 1, 2\x7d\x7d\n    say r\nsay 2\n"

/-- The breaks of its records: after each opening brace, after the comma, and before the last
closing brace. -/
def nestedBreaks : List (Nat × List Char) :=
  [(20, List.replicate 8 ' '), (26, ['\t']), (32, []), (48, List.replicate 4 ' ')]

/-- The program with these breaks. -/
def unfoldedRecords : String :=
  "if x:\n    set r to \x7b\n        a: 1, \n\t'b': \x7b\nc: list of 1, 2\x7d\n    \x7d\n    say r\nsay 2\n"

/-- The line of `c` ends all blocks; that of the last brace begins one again. -/
theorem compile_foldRecords_nested :
    ∃ p q, compile nestedRecords = .ok p ∧ p.body.map Stmt.line = [1, 4] ∧
    compile unfoldedRecords = .ok q ∧ q.body.map (Stmt.mapLine fun _ => 0) =
      p.body.map (Stmt.mapLine fun _ => 0) := by
  have hread : (compile nestedRecords).toOption.map (fun p => p.body.map Stmt.line) =
    some [1, 4] := by decide +kernel
  have htext : foldRecords (nestedBreaks.lookup ·) nestedRecords = unfoldedRecords := by
    decide +kernel
  have hlayout : (tokenize unfoldedRecords).toOption.map (outside 0) =
      (tokenize nestedRecords).toOption.map (outside 0) := by decide +kernel
  obtain ⟨p, hp, hlines⟩ := exists_ok hread
  obtain ⟨tokens, htokens, hbreaks⟩ := @exists_breaks nestedRecords nestedBreaks (by decide +kernel)
  obtain ⟨again, hagain, _, hsame⟩ := compile_foldRecords hp htokens hbreaks
  rw [htext] at hagain hsame
  rw [htokens, hagain] at hlayout
  obtain ⟨q, hq, hbody⟩ := hsame (Option.some.inj hlayout)
  exact ⟨p, q, hp, hlines, hq, hbody⟩

/-- However its records are broken, the text has the same tree. -/
def FoldsFreely (source : String) : Prop :=
  ∀ p tokens breaks, compile source = .ok p → tokenize source = .ok tokens →
  BreaksRecords tokens breaks →
    ∃ q, compile (foldRecords breaks source) = .ok q ∧
      q.body.map (Stmt.mapLine fun _ => 0) = p.body.map (Stmt.mapLine fun _ => 0)

/-- A program with one record, in its first line. -/
def oneRecord : String := "set r to \x7ba: 1\x7d\nsay r\n"

/-- A block that begins in the record ends where a statement should begin. -/
theorem not_foldsFreely_oneRecord : ¬ FoldsFreely oneRecord := by
  intro h
  have hread : (compile oneRecord).toOption.map (fun p => p.body.map Stmt.line) = some [1, 2] := by
    decide +kernel
  have hfails : (compile "set r to \x7b\n    a: 1\x7d\nsay r\n").toOption.isNone = true := by
    decide +kernel
  have htext : foldRecords ([(10, List.replicate 4 ' ')].lookup ·) oneRecord =
      "set r to \x7b\n    a: 1\x7d\nsay r\n" := by
    decide +kernel
  obtain ⟨p, hp, _⟩ := exists_ok hread
  obtain ⟨tokens, htokens, hbreaks⟩ :=
    @exists_breaks oneRecord [(10, List.replicate 4 ' ')] (by decide +kernel)
  obtain ⟨q, hq, _⟩ := h p tokens _ hp htokens hbreaks
  rw [← htext, hq] at hfails
  cases hfails

end Colloquy
