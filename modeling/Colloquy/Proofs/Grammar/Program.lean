import Colloquy.Proofs.Grammar.Seam

/-!
# Programs over a seam

The loop that reads a program from the first of two aligned rows comes to its end. On the second row
it has then read the same statements, and reads what follows as it would read that alone.
-/

namespace Colloquy

open Production List Cursor

namespace Grammar

section Refusal

/-- The kinds of tokens that no statement begins with or leaves behind. -/
def refused : List TokenKind := [.indent, .dedent, .keyword .elseWord]

variable {tokens room : Nat} {c : Cursor}

lemma beginsPhrase_of_refused {kind : TokenKind} (hk : kind ∈ refused) :
    beginsPhrase kind = false := by
  simp only [refused, mem_cons, not_mem_nil, or_false] at hk
  rcases hk with rfl | rfl | rfl <;> rfl

lemma statement_refuses {inner : InnerStatement} (hk : c.here.kind ∈ refused) :
    Fails (statement tokens room inner) c := by
  refine .after rfl ?_
  have hvalue : Fails (value tokens room) c :=
    .nested fun _ => exprAt_fails (beginsPhrase_of_refused hk)
  have hexpr : Fails (expressionStatement tokens room) c := .bind hvalue
  simp only [refused, mem_cons, not_mem_nil, or_false] at hk
  rcases hk with hk | hk | hk <;> rw [hk] <;> exact hexpr

lemma statementAt_refuses (hk : c.here.kind ∈ refused) : Fails (statementAt tokens room) c := by
  cases room <;> exact statement_refuses hk

end Refusal

/-- One round of the loop over the statements of a program. -/
def programRound (tokens : Nat) (body : List Stmt) : Production (Option (List Stmt)) := do
  if (← cursor).sees .eof then return none
  else
    let next ← statementAt tokens maxNesting
    skipNewlines tokens
    return some (body ++ [next])

lemma programAt_eq {tokens : Nat} :
    programAt tokens = do
      skipNewlines tokens
      let body ← iterate (programRound tokens) tokens []
      return ⟨body⟩ := rfl

section Loop

variable {f g : Nat → Nat} {R : Nat → Nat → Cursor → Cursor → Prop}
  {loose across : Nat → Cursor → Cursor → Prop} {tokens tokens' rounds : Nat} {c c' d : Cursor}
  {s t front body s' : List Stmt}

lemma programRound_none (hr : (programRound tokens s).run c = (.ok none, c')) :
    c' = c ∧ c.here.kind = .eof := by
  change run (if c.sees .eof then _ else _) c = _ at hr
  split at hr
  · rename_i he
    cases hr
    exact ⟨rfl, of_decide_eq_true he⟩
  · obtain ⟨_, c1, _, hr⟩ := run_bind_ok hr
    obtain ⟨_, c2, _, hr⟩ := run_bind_ok hr
    cases hr

lemma programRound_eof (he : c.here.kind = .eof) :
    (programRound tokens s).run c = (.ok none, c) := by
  change run (if c.sees .eof then _ else _) c = _
  rw [show c.sees .eof = true from decide_eq_true he]
  rfl

/-- What the second reader has read when the first has some statements: those it had before, and the
same ones. -/
def Joined (f g : Nat → Nat) (front s t : List Stmt) : Prop :=
  ∃ same, t = front ++ same ∧ Stmt.LikeAll f g s same

lemma Joined.nil : Joined f g front [] front := ⟨[], (append_nil front).symm, .nil⟩

lemma Joined.concat {stmt stmt' : Stmt} (hj : Joined f g front s t) (h : stmt.Like f g stmt') :
    Joined f g front (s ++ [stmt]) (t ++ [stmt']) := by
  obtain ⟨same, rfl, hsame⟩ := hj
  exact ⟨same ++ [stmt'], append_assoc _ _ _, hsame.concat h⟩

lemma Joined.of_id (h : Joined f id front s t) : t = front ++ s.map (Stmt.mapLine f) := by
  obtain ⟨same, rfl, hsame⟩ := h
  rw [hsame.of_id]

/-- Where the first reader reads one of these statements, both may declare something, or neither. -/
def Permits (R : Nat → Nat → Cursor → Cursor → Prop) (tokens : Nat) (body : List Stmt) : Prop :=
  ∀ ⦃c d c' : Cursor⦄ ⦃stmt : Stmt⦄, R 0 0 c d →
  (statementAt tokens maxNesting).run c = (.ok stmt, c') → stmt ∈ body →
    Admits c d

lemma permits_of_inRows {related : Nat → List Token → List Token → Prop} :
    Permits (fun n k => InRows (related k) n) tokens body := fun _ _ _ _ h _ _ _ _ => h.2.2

lemma programRound_reads (hr : (programRound tokens s).run c = (.ok (some s'), c')) :
    ∃ stmt c1, (statementAt tokens maxNesting).run c = (.ok stmt, c1) ∧ s' = s ++ [stmt] := by
  change run (if c.sees .eof then _ else _) c = _ at hr
  split at hr
  · cases hr
  · obtain ⟨stmt, c1, hstmt, hr⟩ := run_bind_ok hr
    obtain ⟨_, c2, _, hr⟩ := run_bind_ok hr
    cases hr
    exact ⟨stmt, c1, hstmt, rfl⟩

/-- Statements that are read stay. -/
lemma programLoop_subset (hr : (iterate (programRound tokens) rounds s).run c = (.ok body, c')) :
    s ⊆ body := by
  induction rounds generalizing s c with
  | zero =>
    cases hr
    exact Subset.refl _
  | succ rounds ih =>
    rw [run_iterate] at hr
    split at hr
    · cases hr
      exact Subset.refl _
    · rename_i s' c1 hsome
      obtain ⟨_, _, _, rfl⟩ := programRound_reads hsome
      exact Subset.trans (subset_append_left s _) (ih hr)
    · cases hr

/-- One round reads the same statement from both rows. -/
lemma programRound_some (hs : Seam f g R loose across) (hj : Joined f g front s t)
    (hpermits : Permits R tokens s') (h : Landed R across 0 c d) (hroom : Room tokens tokens' c d)
    (hr : (programRound tokens s).run c = (.ok (some s'), c')) :
    ∃ t' d', (programRound tokens' t).run d = (.ok (some t'), d') ∧ Joined f g front s' t' ∧
      Ahead (Landed R across 0) c d c' d' := by
  have hc : c.here.kind ≠ .eof := by
    intro he
    rw [programRound_eof he] at hr
    cases hr
  rcases h with ht | ho
  · obtain ⟨stmt, c1, hstmt, rfl⟩ := programRound_reads hr
    have hadmits := hpermits ht hstmt (mem_concat_self)
    have hround : Concurs never (Option.Rel (Joined f g front))
      (Round (Landed R across 0) (Landed R across 0) c d)
        (programRound tokens s) (programRound tokens' t) c d := by
      refine .cursor ?_
      rw [hs.sees ht]
      split
      · exact .pure .none (.refl (.inl ht))
      · refine (statementAt_reads hs 0 c d ht hadmits hroom).bind fun stmt stmt' c1 d1 hst h1 => ?_
        refine (skipNewlines_passes hs h1.related (hroom.along h1.along)).bind
          fun _ _ c2 d2 _ h2 => ?_
        exact .pure (.some (hj.concat hst)) (h1.trans h2)
    rcases hround _ _ hr with hl | ⟨o, d', hd, ho, hnext⟩
    · exact hl.elim
    · cases ho with
      | some hj' => exact ⟨_, d', hd, hj', hnext⟩
  · rcases hs.across_kind ho with he | ⟨hk, _⟩
    · exact (hc he).elim
    · -- where the first row ends a block, no statement begins
      refine (Fails.absurd (.after rfl ?_) hr).elim
      rw [if_neg (by simpa [Cursor.sees] using hc)]
      refine .bind (statementAt_refuses ?_)
      rw [hk]
      decide

/-- The loop goes on past the seam, by induction on its rounds. -/
lemma programLoop_crosses (hs : Seam f g R loose across) {rounds' : Nat}
    (hpermits : Permits R tokens body) (hj : Joined f g front s t) (h : Landed R across 0 c d)
    (hroom : Room tokens tokens' c d) (hrounds : Room rounds rounds' c d)
    (hr : (iterate (programRound tokens) rounds s).run c = (.ok body, c')) :
    ∃ left body' d', Joined f g front body body' ∧ c'.here.kind = .eof ∧ Landed R across 0 c' d' ∧
      d'.remaining < left ∧ d'.remaining ≤ d.remaining ∧
      (iterate (programRound tokens') rounds' t).run d =
        (iterate (programRound tokens') left body').run d' := by
  induction rounds generalizing rounds' s t c d with
  | zero => exact (Nat.not_lt_zero _ hrounds.left).elim
  | succ rounds ih =>
    obtain ⟨rounds', rfl⟩ : ∃ k, rounds' = k + 1 := ⟨rounds' - 1, by have := hrounds.right; omega⟩
    rw [run_iterate] at hr
    split at hr
    · rename_i c1 hnone
      obtain ⟨rfl, he⟩ := programRound_none hnone
      cases hr
      exact ⟨rounds' + 1, t, d, hj, he, h, hrounds.right, Nat.le_refl _, rfl⟩
    · rename_i s' c1 hsome
      have hread : Permits R tokens s' :=
        fun _ _ _ _ h hr hmem => hpermits h hr (programLoop_subset ‹_› hmem)
      obtain ⟨t', d1, hd1, hj', h1⟩ := programRound_some hs hj hread h hroom hsome
      obtain ⟨left, body', d', hj', he, hl, hleft, hle, hrun⟩ :=
        ih hj' h1.related (hroom.along h1.along) (hrounds.ahead h1) hr
      refine ⟨left, body', d', hj', he, hl, hleft, Nat.le_trans hle (Nat.le_of_lt h1.right), ?_⟩
      rw [run_iterate, hd1]
      exact hrun
    · cases hr

end Loop

end Grammar

section Rows

open Grammar

variable {f : Nat → Nat} {c c' d e e' : Cursor} {p q : Program} {r : List Token}
  {R : Nat → Nat → Cursor → Cursor → Prop} {loose across : Nat → Cursor → Cursor → Prop}

/-- A program is what its loop reads. -/
lemma program_run_iff : program.run c = (.ok p, c') ↔
    (iterate (programRound (c.remaining + 1)) (c.remaining + 1) []).run (c.pass [.newline]) =
      (.ok p.body, c') := by
  have hskip : run (skipNewlines (c.remaining + 1)) c = (.ok (), c.pass [.newline]) :=
    run_skipAll (by decide) (Nat.lt_succ_self _)
  change (programAt (c.remaining + 1)).run c = _ ↔ _
  rw [programAt_eq, run_bind, hskip]
  dsimp only
  rw [run_bind]
  constructor
  · intro h
    split at h
    · rename_i body c1 hloop
      cases h
      exact hloop
    · cases h
  · intro h
    rw [h]
    rfl

/-- A program is read from both rows of a seam that end together. -/
lemma program_concurs {g : Nat → Nat} (hs : Seam f g R loose across)
    (hpermits : Permits R (c.remaining + 1) p.body) (h : loose 0 c d)
    (hends : ∀ {c d}, Landed R across 0 c d → c.here.kind = .eof → d.here.kind = .eof)
    (hrun : program.run c = (.ok p, c')) : ∃ q d', program.run d = (.ok q, d') ∧
    Stmt.LikeAll f g p.body q.body := by
  have hskip := hs.skip h
  have hroom : Room (c.remaining + 1) (d.remaining + 1) c d :=
    ⟨Nat.lt_succ_self _, Nat.lt_succ_self _⟩
  rw [program_run_iff] at hrun
  obtain ⟨left, body, d', ⟨_, rfl, hlike⟩, hend, hland, hleft, _, hloop⟩ :=
    programLoop_crosses hs hpermits .nil hskip.related (hroom.along hskip) (hroom.along hskip) hrun
  obtain ⟨left, rfl⟩ : ∃ k, left = k + 1 := ⟨left - 1, by omega⟩
  refine ⟨⟨_⟩, d', program_run_iff.mpr (hloop.trans ?_), hlike⟩
  rw [run_iterate, programRound_eof (hends hland hend)]
  rfl

lemma program_crosses (hs : Seam f id R loose across)
    (hpermits : Permits R (c.remaining + 1) p.body) (h : loose 0 c d)
    (hends : ∀ {c d}, Landed R across 0 c d → c.here.kind = .eof → d.here.kind = .eof)
    (hrun : program.run c = (.ok p, c')) :
    ∃ d', program.run d = (.ok ⟨p.body.map (Stmt.mapLine f)⟩, d') := by
  obtain ⟨⟨body⟩, d', hd, hlike⟩ := program_concurs hs hpermits h hends hrun
  rw [← hlike.of_id]
  exact ⟨d', hd⟩

/-- A program begins with no token that is refused. -/
lemma program_run_head (h : program.run c = (.ok p, c')) :
    (c.pass [.newline]).here.kind ∉ refused := by
  intro hk
  rw [program_run_iff, run_iterate] at h
  have hne : ¬ (c.pass [.newline]).sees .eof = true := by
    intro he
    rw [of_decide_eq_true he] at hk
    revert hk
    decide
  have hfail : Fails (programRound (c.remaining + 1) []) (c.pass [.newline]) := by
    refine .after rfl ?_
    rw [if_neg hne]
    exact .bind (statementAt_refuses hk)
  obtain ⟨err, c'', he⟩ := hfail
  rw [he] at h
  cases h

/-- A row from which a program is read can stand after a seam. -/
lemma resumes_of_run (h : program.run e = (.ok q, e'))
    (hr : Aligned f none (e.pass [.newline]).row r) :
    Resumes (some r) := by
  intro us hus
  cases hus
  obtain ⟨u, us, rfl⟩ := exists_cons_of_ne_nil hr.ne_nil.2
  obtain ⟨hm, hcases⟩ := Aligned.inv hr
  refine ⟨u, us, rfl, ?_, ?_⟩
  · intro hu
    have hk := hm.kind.symm.trans hu
    have hnil : (e.pass [.newline]).ahead = [] := pass_stops (by rw [hk]; rfl)
    rcases hcases with ⟨_, ha⟩ | ⟨_, hb⟩ | ⟨he, _⟩
    · exact ha.ne_nil.1 hnil
    · exact (hb.ne_nil resumes_none).1 hnil
    · rw [hk] at he
      cases he
  · intro hu
    refine program_run_head h ?_
    rw [← hm.kind, hu]
    decide

/-- At the end of the first row, the second is at the seam. -/
lemma row_of_ended
    (h : Landed (fun n _ => InRows (Aligned f (some r)) n) (InRows (Across (some r))) 0 c d)
    (he : c.here.kind = .eof) : d.row = r ∧ d.depth = 0 := by
  rcases h with ht | ho
  · rcases (Aligned.inv ht.1).2 with ⟨hne, _⟩ | ⟨hnl, _⟩ | ⟨_, _, _, hnone⟩
    · exact (hne he).elim
    · rw [he] at hnl
      cases hnl
    · cases hnone
  · rcases Across.inv ho.1 with ⟨_, hrest⟩ | ⟨hk, _⟩
    · exact ⟨(Option.some.inj hrest).symm, ho.2.2⟩
    · rw [he] at hk
      cases hk

lemma eof_of_ended (h : Landed (fun n _ => InRows (Aligned f none) n) (InRows (Across none)) 0 c d)
    (he : c.here.kind = .eof) : d.here.kind = .eof := by
  rcases h with ht | ho
  · exact ht.matches.kind.trans he
  · rcases Across.inv ho.1 with ⟨_, hrest⟩ | ⟨hk, _⟩
    · cases hrest
    · rw [he] at hk
      cases hk

/-- Two programs are read one after the other from joined rows. -/
lemma program_joins (hp : program.run c = (.ok p, c')) (hq : program.run e = (.ok q, e'))
    (hdepth : e.depth = 0) (hc : InRows (Aligned id (some r)) 0 c d)
    (he : Aligned f none (e.pass [.newline]).row r) :
    ∃ d', program.run d = (.ok ⟨p.body ++ q.body.map (Stmt.mapLine f)⟩, d') := by
  have hresumes : Resumes (some r) := resumes_of_run hq he
  rw [program_run_iff] at hp hq
  -- the first program, up to the seam
  have hskip := (aligned_seam (f := id) hresumes).skip (.inl hc)
  have hroom : Room (c.remaining + 1) (d.remaining + 1) c d :=
    ⟨Nat.lt_succ_self _, Nat.lt_succ_self _⟩
  obtain ⟨left, body, d1, hjoined, hend, hland, hleft, hle, hrun⟩ :=
    programLoop_crosses (aligned_seam hresumes) permits_of_inRows .nil hskip.related
      (hroom.along hskip) (hroom.along hskip) hp
  have hbody : body = p.body := by
    rw [hjoined.of_id, nil_append, ← Stmt.mapLines_eq_map, Stmt.mapLines_id]
  obtain ⟨hrow, hdepth1⟩ := row_of_ended hland hend
  -- the second program, after the seam
  have hsecond : InRows (Aligned f none) 0 (e.pass [.newline]) d1 := by
    refine ⟨?_, ?_, hdepth1⟩
    · rw [hrow]
      exact he
    · rw [depth_pass]
      exact hdepth
  have hpass : (e.pass [.newline]).remaining < e.remaining + 1 :=
    Nat.lt_succ_of_le remaining_pass_le
  have hd1 : d1.remaining < d.remaining + 1 := Nat.lt_succ_of_le (Nat.le_trans hle hskip.right)
  obtain ⟨left2, both, d2, hjoined2, hend2, hland2, hleft2, _, hrun2⟩ :=
    programLoop_crosses (aligned_seam (f := f) resumes_none) permits_of_inRows .nil
      (.inl hsecond) ⟨hpass, hd1⟩ ⟨hpass, hleft⟩ hq
  refine ⟨d2, ?_⟩
  rw [program_run_iff]
  obtain ⟨left2, rfl⟩ : ∃ k, left2 = k + 1 := ⟨left2 - 1, by omega⟩
  calc (iterate (programRound (d.remaining + 1)) (d.remaining + 1) []).run (d.pass [.newline])
      = (iterate (programRound (d.remaining + 1)) left body).run d1 := hrun
    _ = (iterate (programRound (d.remaining + 1)) (left2 + 1) both).run d2 := hrun2
    _ = (.ok (p.body ++ q.body.map (Stmt.mapLine f)), d2) := by
      rw [run_iterate, programRound_eof (eof_of_ended hland2 hend2), hjoined2.of_id, hbody]

end Rows

end Colloquy
