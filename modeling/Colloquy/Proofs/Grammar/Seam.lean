import Colloquy.Grammar.Program
import Colloquy.Proofs.Grammar.Statement

/-!
# Rows of tokens with a seam

Two rows are `Aligned` if they hold the same tokens, at other lines, up to the end of a line after
which the first only ends blocks while the second goes on, or up to the end of both. This is a seam
for statements.
-/

namespace Colloquy

open Production Cursor

/-- A token that differs from another in its place only. -/
structure Token.Matches (f : Nat → Nat) (t u : Token) : Prop where
  kind : u.kind = t.kind
  text : u.text = t.text
  line : u.line = f t.line
  word : t.text.toList.head?.any Text.isWordStart = true → t.kind.isPlain = true

lemma Token.Matches.tallies {f : Nat → Nat} {t u : Token} (h : t.Matches f u) : t.Tallies f id u :=
  ⟨h.kind, h.text, h.line.symm⟩

/-- The first row ends blocks and the input; the second ends the same blocks and goes on. -/
inductive Across (rest : Option (List Token)) : List Token → List Token → Prop where
  | eof {t us} :
    t.kind = .eof →
    rest = some us →
    Across rest [t] us
  | dedent {t u ts us} :
    t.kind = .dedent →
    u.kind = .dedent →
    Across rest ts us →
    Across rest (t :: ts) (u :: us)

/-- The second row may have more ends of lines before that. -/
inductive Beyond (rest : Option (List Token)) : List Token → List Token → Prop where
  | across {ts us} :
    Across rest ts us →
    Beyond rest ts us
  | newline {u ts us} :
    u.kind = .newline →
    Beyond rest ts us →
    Beyond rest ts (u :: us)

/-- Two rows hold the same tokens up to the seam, or to their end. -/
inductive Aligned (f : Nat → Nat) (rest : Option (List Token)) :
    List Token → List Token → Prop where
  | cons {t u ts us} :
    t.Matches f u →
    t.kind ≠ .eof →
    Aligned f rest ts us →
    Aligned f rest (t :: ts) (u :: us)
  | seam {t u ts us} :
    t.Matches f u →
    t.kind = .newline →
    Beyond rest ts us →
    Aligned f rest (t :: ts) (u :: us)
  | eof {t u} :
    t.Matches f u →
    t.kind = .eof →
    rest = none →
    Aligned f rest [t] [u]

/-- The row after a seam begins a statement, or ends. -/
def Resumes (rest : Option (List Token)) : Prop :=
  ∀ us, rest = some us → ∃ u us', us = u :: us' ∧ u.kind ≠ .newline ∧ u.kind ≠ .keyword .elseWord

lemma resumes_none : Resumes none := by
  intro us h
  cases h

/-- The tokens from a cursor on. -/
def Cursor.row (c : Cursor) : List Token := c.here :: c.ahead

section Rows

variable {f : Nat → Nat} {rest : Option (List Token)} {ts us : List Token} {n : Nat} {c d : Cursor}

/-- Cursors in rows that are related, with so many blocks open. -/
def InRows (related : List Token → List Token → Prop) (n : Nat) (c d : Cursor) : Prop :=
  related c.row d.row ∧ c.depth = n ∧ d.depth = n

section Depth

variable {related : List Token → List Token → Prop}

lemma InRows.deeper (h : InRows related n c d) :
    InRows related (n + 1) { c with depth := c.depth + 1 } { d with depth := d.depth + 1 } :=
  ⟨h.1, congrArg (· + 1) h.2.1, congrArg (· + 1) h.2.2⟩

lemma InRows.shallower (h : InRows related (n + 1) c d) :
    InRows related n { c with depth := c.depth - 1 } { d with depth := d.depth - 1 } :=
  ⟨h.1, congrArg (· - 1) h.2.1, congrArg (· - 1) h.2.2⟩

end Depth

lemma Across.ne_nil (hr : Resumes rest) (h : Across rest ts us) : ts ≠ [] ∧ us ≠ [] := by
  cases h with
  | eof _ he =>
    obtain ⟨u, us', rfl, _⟩ := hr _ he
    exact ⟨nofun, nofun⟩
  | dedent => exact ⟨nofun, nofun⟩

lemma Beyond.ne_nil (hr : Resumes rest) (h : Beyond rest ts us) : ts ≠ [] ∧ us ≠ [] := by
  induction h with
  | across h => exact h.ne_nil hr
  | newline _ _ ih => exact ⟨ih.1, nofun⟩

lemma Aligned.ne_nil (h : Aligned f rest ts us) : ts ≠ [] ∧ us ≠ [] := by
  cases h <;> exact ⟨nofun, nofun⟩

lemma Cursor.row_next (hne : c.here.kind ≠ .eof) (ha : c.ahead ≠ []) : c.next.row = c.ahead := by
  obtain ⟨here, ahead, depth⟩ := c
  cases ahead with
  | nil => exact (ha rfl).elim
  | cons token rest => simp only [Cursor.next, hne, if_false, Cursor.row]

lemma InRows.next {related : List Token → List Token → Prop} (hc : c.here.kind ≠ .eof)
    (hd : d.here.kind ≠ .eof) (hne : c.ahead ≠ [] ∧ d.ahead ≠ []) (h : related c.ahead d.ahead)
    (hdepth : c.depth = n ∧ d.depth = n) :
    Ahead (InRows related n) c d c.next d.next := by
  refine ⟨⟨?_, ?_, ?_⟩, remaining_next_lt hc hne.1, remaining_next_lt hd hne.2⟩
  · rw [row_next hc hne.1, row_next hd hne.2]
    exact h
  · rw [depth_next]
    exact hdepth.1
  · rw [depth_next]
    exact hdepth.2

lemma Aligned.inv {t u : Token} (h : Aligned f rest (t :: ts) (u :: us)) :
    t.Matches f u ∧ (t.kind ≠ .eof ∧ Aligned f rest ts us ∨ t.kind = .newline ∧ Beyond rest ts us ∨
      t.kind = .eof ∧ ts = [] ∧ us = [] ∧ rest = none) := by
  cases h with
  | cons hm hne h => exact ⟨hm, .inl ⟨hne, h⟩⟩
  | seam hm hk h => exact ⟨hm, .inr (.inl ⟨hk, h⟩)⟩
  | eof hm hk he => exact ⟨hm, .inr (.inr ⟨hk, rfl, rfl, he⟩)⟩

lemma Across.inv {t : Token} (h : Across rest (t :: ts) us) : t.kind = .eof ∧ rest = some us ∨
      t.kind = .dedent ∧ ∃ u us', us = u :: us' ∧ u.kind = .dedent ∧ Across rest ts us' := by
  cases h with
  | eof hk he => exact .inl ⟨hk, he⟩
  | dedent hk hk' h => exact .inr ⟨hk, _, _, rfl, hk', h⟩

/-- More ends of lines are passed as well. -/
lemma Cursor.pass_newlines {kinds : List TokenKind} {extra : List Token}
    (hend : TokenKind.eof ∉ kinds) (hin : kinds.contains .newline = true)
    (hextra : ∀ x ∈ extra, x.kind = .newline) (hd : d.row = extra ++ us) (hus : us ≠ []) :
    ∃ d' : Cursor, d'.row = us ∧ d'.depth = d.depth ∧ d.pass kinds = d'.pass kinds := by
  induction extra generalizing d with
  | nil => exact ⟨d, hd, rfl, rfl⟩
  | cons x extra ih =>
    obtain ⟨rfl, ha⟩ := List.cons.inj hd
    obtain ⟨hk, hextra⟩ := List.forall_mem_cons.mp hextra
    have hne : d.here.kind ≠ .eof := by
      rw [hk]
      rintro ⟨⟩
    have hahead : d.ahead ≠ [] := ha ▸ List.append_ne_nil_of_right_ne_nil extra hus
    obtain ⟨d', hrow, hdepth, hpass⟩ := ih hextra ((row_next hne hahead).trans ha)
    refine ⟨d', hrow, hdepth.trans depth_next, ?_⟩
    rw [pass_of_contains hend (hk ▸ hin)]
    exact hpass

/-- Past its layout the first row is at its end. -/
lemma Across.pass_layout (h : Across rest ts us) (hc : c.row = ts) :
    (c.pass TokenKind.layout).here.kind = .eof := by
  induction h generalizing c with
  | eof hk _ =>
    obtain ⟨rfl, _⟩ := List.cons.inj hc
    rw [pass_of_not_contains (by rw [hk]; rfl)]
    exact hk
  | dedent hk _ h ih =>
    obtain ⟨rfl, rfl⟩ := List.cons.inj hc
    rw [pass_of_contains (by decide) (by rw [hk]; rfl)]
    have hne : c.ahead ≠ [] := by
      intro ha
      rw [ha] at h
      cases h
    exact ih (row_next (by rw [hk]; nofun) hne)

lemma Beyond.pass_layout (h : Beyond rest ts us) (hc : c.row = ts) :
    (c.pass TokenKind.layout).here.kind = .eof := by
  induction h with
  | across h => exact h.pass_layout hc
  | newline _ _ ih => exact ih hc

/-- Past the seam the first reader only ends blocks. -/
lemma Beyond.pass_newline (hr : Resumes rest) (h : Beyond rest ts us)
    (hc : c.row = ts) (hd : d.row = us) (hdepth : c.depth = n ∧ d.depth = n) :
    InRows (Across rest) n (c.pass [.newline]) (d.pass [.newline]) := by
  induction h generalizing d with
  | across h =>
    have hstop : c.here.kind ≠ .newline ∧ d.here.kind ≠ .newline := by
      cases h with
      | eof hk he =>
        obtain ⟨u, us', rfl, hu, _⟩ := hr _ he
        obtain ⟨rfl, _⟩ := List.cons.inj hc
        obtain ⟨rfl, _⟩ := List.cons.inj hd
        rw [hk]
        exact ⟨nofun, hu⟩
      | dedent hk hk' _ =>
        obtain ⟨rfl, _⟩ := List.cons.inj hc
        obtain ⟨rfl, _⟩ := List.cons.inj hd
        rw [hk, hk']
        exact ⟨nofun, nofun⟩
    rw [pass_of_not_contains (by simpa using hstop.1),
      pass_of_not_contains (by simpa using hstop.2)]
    subst hc hd
    exact ⟨h, hdepth⟩
  | newline hk h ih =>
    obtain ⟨rfl, rfl⟩ := List.cons.inj hd
    rw [pass_of_contains (c := d) (by decide) (by rw [hk]; rfl)]
    refine ih hc (row_next (by rw [hk]; nofun) (h.ne_nil hr).2) ⟨hdepth.1, ?_⟩
    rw [depth_next]
    exact hdepth.2

/-- Passing tokens in aligned rows keeps them aligned, or passes the seam. -/
lemma Aligned.pass (kinds : List TokenKind) (hend : TokenKind.eof ∉ kinds)
    (h : Aligned f rest ts us) (hc : c.row = ts) (hd : d.row = us)
    (hdepth : c.depth = n ∧ d.depth = n) (hr : Resumes rest) :
    InRows (Aligned f rest) n (c.pass kinds) (d.pass kinds) ∨
      ∃ c' d', InRows (Beyond rest) n c' d' ∧ c.pass kinds = c'.pass kinds ∧
      d.pass kinds = d'.pass kinds := by
  -- both cursors stop at the same token or pass it together, until the seam itself is passed
  induction h generalizing c d with
  | cons hm hne h ih =>
    obtain ⟨rfl, rfl⟩ := List.cons.inj hc
    obtain ⟨rfl, rfl⟩ := List.cons.inj hd
    have hk := hm.kind
    cases hin : kinds.contains c.here.kind with
    | false =>
      rw [pass_of_not_contains hin, pass_of_not_contains (hk ▸ hin)]
      exact .inl ⟨.cons hm hne h, hdepth⟩
    | true =>
      rw [pass_of_contains hend hin, pass_of_contains (c := d) hend (hk ▸ hin)]
      have hnil := h.ne_nil
      refine ih (row_next hne hnil.1) (row_next (hk ▸ hne) hnil.2) ?_
      rw [depth_next, depth_next]
      exact hdepth
  | seam hm hnl h =>
    obtain ⟨rfl, rfl⟩ := List.cons.inj hc
    obtain ⟨rfl, rfl⟩ := List.cons.inj hd
    have hk := hm.kind
    cases hin : kinds.contains c.here.kind with
    | false =>
      rw [pass_of_not_contains hin, pass_of_not_contains (hk ▸ hin)]
      exact .inl ⟨.seam hm hnl h, hdepth⟩
    | true =>
      rw [pass_of_contains hend hin, pass_of_contains (c := d) hend (hk ▸ hin)]
      have hnil := h.ne_nil hr
      refine .inr ⟨c.next, d.next, ⟨?_, ?_, ?_⟩, rfl, rfl⟩
      · rw [row_next (by rw [hnl]; nofun) hnil.1, row_next (by rw [hk, hnl]; nofun) hnil.2]
        exact h
      · rw [depth_next]
        exact hdepth.1
      · rw [depth_next]
        exact hdepth.2
  | eof hm he hn =>
    obtain ⟨rfl, ha⟩ := List.cons.inj hc
    obtain ⟨rfl, ha'⟩ := List.cons.inj hd
    have hin : kinds.contains c.here.kind = false := by
      rw [he]
      simpa using hend
    rw [pass_of_not_contains hin, pass_of_not_contains (hm.kind ▸ hin)]
    refine .inl ⟨?_, hdepth⟩
    rw [hc, hd]
    exact .eof hm he hn

/-- Cursors before the seam or beyond it. -/
def Loosely (f : Nat → Nat) (rest : Option (List Token)) (n : Nat) (c d : Cursor) : Prop :=
  InRows (Aligned f rest) n c d ∨ InRows (Beyond rest) n c d

section Aligned

variable (h : InRows (Aligned f rest) n c d)

include h

lemma InRows.matches : c.here.Matches f d.here := (Aligned.inv h.1).1

lemma InRows.past (hk : c.here.kind ≠ .newline) (he : c.here.kind ≠ .eof) :
    Ahead (InRows (Aligned f rest) n) c d c.next d.next := by
  have hd : d.here.kind ≠ .eof := h.matches.kind ▸ he
  rcases (Aligned.inv h.1).2 with ⟨_, ha⟩ | ⟨hnl, _⟩ | ⟨heof, _⟩
  · exact InRows.next he hd ha.ne_nil ha h.2
  · exact (hk hnl).elim
  · exact (he heof).elim

/-- The end of a line leads to the seam or past it. -/
lemma InRows.newline (hr : Resumes rest) (hk : c.here.kind = .newline) :
    Ahead (Loosely f rest n) c d c.next d.next := by
  have hc : c.here.kind ≠ .eof := by
    rw [hk]
    nofun
  have hd : d.here.kind ≠ .eof := h.matches.kind ▸ hc
  rcases (Aligned.inv h.1).2 with ⟨_, ha⟩ | ⟨_, hb⟩ | ⟨heof, _⟩
  · obtain ⟨hrel, hleft, hright⟩ := InRows.next hc hd ha.ne_nil ha h.2
    exact ⟨.inl hrel, hleft, hright⟩
  · obtain ⟨hrel, hleft, hright⟩ := InRows.next hc hd (hb.ne_nil hr) hb h.2
    exact ⟨.inr hrel, hleft, hright⟩
  · exact (hc heof).elim

lemma InRows.pass_layout (hr : Resumes rest) : (c.pass TokenKind.layout).here.kind = .eof ∨
      Along (InRows (Aligned f rest) n) c d (c.pass TokenKind.layout)
      (d.pass TokenKind.layout) := by
  rcases Aligned.pass TokenKind.layout (by decide) h.1 rfl rfl h.2 hr with ha | ⟨c', d', hb, hc, _⟩
  · exact .inr ⟨ha, remaining_pass_le, remaining_pass_le⟩
  · rw [hc]
    exact .inl (hb.1.pass_layout rfl)

end Aligned

lemma Loosely.pass_newline (hr : Resumes rest) (h : Loosely f rest n c d) :
    Along (fun c d => InRows (Aligned f rest) n c d ∨
      InRows (Across rest) n c d) c d (c.pass [.newline]) (d.pass [.newline]) := by
  refine ⟨?_, remaining_pass_le, remaining_pass_le⟩
  rcases h with ha | hb
  · rcases Aligned.pass [.newline] (by decide) ha.1 rfl rfl ha.2 hr with ha | ⟨c', d', hb, hc, hd⟩
    · exact .inl ha
    · rw [hc, hd]
      exact .inr (hb.1.pass_newline hr rfl rfl hb.2)
  · exact .inr (hb.1.pass_newline hr rfl rfl hb.2)

/-- Aligned rows make a seam. -/
lemma aligned_seam (hr : Resumes rest) :
    Seam f id (fun n _ => InRows (Aligned f rest) n) (Loosely f rest) (InRows (Across rest)) where
  tandem n := by
    have hnext {c d : Cursor} (h : InRows (Aligned f rest) n c d)
      (hp : c.here.kind.isPlain = true) : Ahead (InRows (Aligned f rest) n) c d c.next d.next :=
      h.past (by rintro hk; rw [hk] at hp; cases hp) (by rintro hk; rw [hk] at hp; cases hp)
    exact Alike.tandem {
      kind := fun h => h.matches.kind
      text := fun h => h.matches.text
      line := fun h => h.matches.line
      word := fun h hw => (hnext h (h.matches.word hw)).along
      next := hnext
      layout := fun h => h.pass_layout hr }
  tallies h := h.matches.tallies
  depth h := Nat.le_of_eq h.2.1.symm
  deeper h := h.deeper
  shallower h := h.shallower
  newline h hk := h.newline hr hk
  indent h hk := h.past (by rw [hk]; nofun) (by rw [hk]; nofun)
  dedent h hk := h.past (by rw [hk]; nofun) (by rw [hk]; nofun)
  loose_of_tight h := .inl h
  loose_of_across h := .inr ⟨.across h.1, h.2⟩
  skip h := h.pass_newline hr
  across_shallower h := h.shallower
  across_kind h := by
    rcases Across.inv h.1 with ⟨hk, _⟩ | ⟨hk, u, us, hrow, hk', ho⟩
    · exact .inl hk
    · obtain ⟨rfl, rfl⟩ := List.cons.inj hrow
      exact .inr ⟨hk, hk', InRows.next (by rw [hk]; nofun)
        (by rw [hk']; nofun) (ho.ne_nil hr) ho h.2⟩
  across_else h := by
    rcases Across.inv h.1 with ⟨_, he⟩ | ⟨_, u, us, hrow, hk', _⟩
    · obtain ⟨u, us, hrow, _, hu⟩ := hr _ he
      obtain ⟨rfl, _⟩ := List.cons.inj hrow
      exact hu
    · obtain ⟨rfl, _⟩ := List.cons.inj hrow
      rw [hk']
      nofun

end Rows

end Colloquy
