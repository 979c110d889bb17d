import Colloquy.Proofs.Machine.Run

/-!
# Sequencing and unfolding

How a row of statements, a branch and a loop come to their outcomes, told from those of their parts
(`After`). A row joined from two runs the second part only if the first has come to its end, and a
loop unfolds into a branch.
-/

namespace Colloquy

namespace Thread

/-- What comes of an outcome in front of more statements: they run at the end of a row, and else it
is handed on. -/
inductive After (body : List Stmt) : Outcome → State → Outcome → State → Prop where
  | next {s s' o} :
    Ends (⟨.block body, []⟩, s) o s' →
    After body (.flow .done) s o s'
  | cut {s o} :
    o ≠ .flow .done →
    After body o s o s

section Rows

variable {s s' : State} {o o₁ : Outcome} {body rest : List Stmt} {stmt : Stmt}

lemma after_done : After body (.flow .done) s o s' ↔ Ends (⟨.block body, []⟩, s) o s' := by
  constructor
  · intro h
    cases h with
    | next h => exact h
    | cut hne => exact (hne rfl).elim
  · exact .next

lemma after_cut (hne : o₁ ≠ .flow .done) : After body o₁ s o s' ↔ o = o₁ ∧ s' = s := by
  constructor
  · intro h
    cases h with
    | next _ => exact (hne rfl).elim
    | cut _ => exact ⟨rfl, rfl⟩
  · rintro ⟨rfl, rfl⟩
    exact .cut hne

lemma ends_handOn {frame : Frame} (h : step ⟨o₁.control, [frame]⟩ s = (⟨o₁.control, []⟩, s)) :
    Ends (⟨o₁.control, [frame]⟩, s) o s' ↔ o = o₁ ∧ s' = s := by
  have hgo : outcome? ⟨o₁.control, [frame]⟩ = none := by cases o₁ <;> rfl
  have hout : outcome? ⟨o₁.control, []⟩ = some o₁ := by cases o₁ <;> rfl
  rw [ends_step hgo, h, ends_of_outcome? hout]

lemma ends_rest : Ends (⟨o₁.control, [.rest rest]⟩, s) o s' ↔ After rest o₁ s o s' := by
  cases o₁ with
  | value v | fault f => rw [ends_handOn rfl, after_cut (by rintro ⟨⟩)]
  | flow f =>
    cases f with
    | done =>
      rw [after_done]
      exact ends_step rfl
    | gaveBack v => rw [ends_handOn rfl, after_cut (by rintro ⟨⟩)]

lemma ends_halted (hh : s.halted = true) :
    Ends (⟨.block body, []⟩, s) o s' ↔ o = .flow .done ∧ s' = s := by
  have hstep : step ⟨.block body, []⟩ s = (⟨.flow .done, []⟩, s) := by
    cases body with
    | nil => rfl
    | cons stmt rest => simp only [step, block, hh, if_true]
  rw [ends_step rfl, hstep, ends_of_outcome? rfl]

lemma ends_nil : Ends (⟨.block [], []⟩, s) o s' ↔ o = .flow .done ∧ s' = s := by
  have hstep : step ⟨.block [], []⟩ s = (⟨.flow .done, []⟩, s) := rfl
  rw [ends_step rfl, hstep, ends_of_outcome? rfl]

/-- A row runs its first statement and then the others. -/
lemma ends_cons (hh : s.halted = false) :
    Ends (⟨.block (stmt :: rest), []⟩, s) o s' ↔ ∃ o₁ s₁, Ends (start stmt [] s) o₁ s₁ ∧
    After rest o₁ s₁ o s' := by
  have hstep : step ⟨.block (stmt :: rest), []⟩ s =
      ((start stmt [] s).1.onto [.rest rest], (start stmt [] s).2) := by
    simp only [step, block, hh, Bool.false_eq_true, if_false]
    have h : start stmt ([] ++ [.rest rest]) (s.against (.heard [])) =
        placed [.rest rest] (.heard []) (start stmt [] s) :=
      start_placed
    rwa [List.nil_append, State.against_heard_nil, placed_heard_nil] at h
  rw [ends_step rfl, hstep, ends_onto]
  simp only [ends_rest]

lemma after_nil : After [] o₁ s o s' ↔ o = o₁ ∧ s' = s := by
  by_cases hdone : o₁ = .flow .done
  · subst hdone
    rw [after_done, ends_nil]
  · rw [after_cut hdone]

lemma ends_single (hh : s.halted = false) :
    Ends (⟨.block [stmt], []⟩, s) o s' ↔ Ends (start stmt [] s) o s' := by
  rw [ends_cons hh]
  simp only [after_nil]
  constructor
  · rintro ⟨_, _, h, rfl, rfl⟩
    exact h
  · intro h
    exact ⟨o, s', h, rfl, rfl⟩

/-- A joined row runs its first part, and then the second. -/
lemma ends_append {a b : List Stmt} :
    Ends (⟨.block (a ++ b), []⟩, s) o s' ↔ ∃ o₁ s₁, Ends (⟨.block a, []⟩, s) o₁ s₁ ∧
    After b o₁ s₁ o s' := by
  induction a generalizing s with
  | nil =>
    simp only [ends_nil]
    constructor
    · intro h
      exact ⟨_, _, ⟨rfl, rfl⟩, .next h⟩
    · rintro ⟨_, _, ⟨rfl, rfl⟩, h⟩
      exact after_done.1 h
  | cons stmt a ih =>
    cases hh : s.halted with
    | true =>
      simp only [ends_halted hh]
      constructor
      · rintro ⟨rfl, rfl⟩
        exact ⟨_, _, ⟨rfl, rfl⟩, .next ((ends_halted hh).2 ⟨rfl, rfl⟩)⟩
      · rintro ⟨_, _, ⟨rfl, rfl⟩, h⟩
        exact (ends_halted hh).1 (after_done.1 h)
    | false =>
      -- the first statement, the rest of its row and the second row, in whichever way they are put
      -- together
      have assoc {o₁ : Outcome} {s₁ : State} :
          After (a ++ b) o₁ s₁ o s' ↔ ∃ o2 s2, After a o₁ s₁ o2 s2 ∧ After b o2 s2 o s' := by
        by_cases hdone : o₁ = .flow .done
        · subst hdone
          simp only [after_done, ih]
        · simp only [after_cut hdone]
          constructor
          · rintro ⟨rfl, rfl⟩
            exact ⟨_, _, ⟨rfl, rfl⟩, .cut hdone⟩
          · rintro ⟨_, _, ⟨rfl, rfl⟩, h⟩
            exact (after_cut hdone).1 h
      rw [List.cons_append, ends_cons hh]
      simp only [ends_cons hh, assoc]
      constructor
      · rintro ⟨o₁, s₁, hfirst, o2, s2, ha, hb⟩
        exact ⟨o2, s2, ⟨o₁, s₁, hfirst, ha⟩, hb⟩
      · rintro ⟨o2, s2, ⟨o₁, s₁, hfirst, ha⟩, hb⟩
        exact ⟨o₁, s₁, hfirst, o2, s2, ha, hb⟩

end Rows

section Loops

variable {s s' : State} {o o₁ : Outcome} {condition : Expr} {body : List Stmt} (line : Nat)

lemma ends_whileLoop : Ends (⟨.block [.whileLoop condition body line], []⟩, s) o s' ↔
    Ends (⟨.loop condition body, []⟩, s) o s' := by
  cases hh : s.halted with
  | true =>
    have hstep : step ⟨.loop condition body, []⟩ s = (⟨.flow .done, []⟩, s) := by
      simp only [step, hh, if_true]
    rw [ends_halted hh, ends_step (t := ⟨.loop condition body, []⟩) rfl,
      hstep, ends_of_outcome? rfl]
  | false => exact ends_single hh

lemma ends_again : Ends (⟨o₁.control, [.again condition body]⟩, s) o s' ↔
    After [.whileLoop condition body line] o₁ s o s' := by
  cases o₁ with
  | value v | fault f => rw [ends_handOn rfl, after_cut (by rintro ⟨⟩)]
  | flow f =>
    cases f with
    | done =>
      rw [after_done, ends_whileLoop, ends_step rfl]
      exact ends_step rfl
    | gaveBack v => rw [ends_handOn rfl, after_cut (by rintro ⟨⟩)]

/-- A loop tests like the branch that unfolds it. -/
lemma ends_test : Ends (⟨o₁.control, [.test condition body]⟩, s) o s' ↔
      Ends (⟨o₁.control, [.branch (body ++ [.whileLoop condition body line]) none]⟩, s) o s' := by
  cases o₁ with
  | fault f => rw [ends_handOn rfl, ends_handOn rfl]
  | flow f => cases f <;> rw [ends_handOn rfl, ends_handOn rfl]
  | value v =>
    have hgo {frame : Frame} : outcome? ⟨Outcome.control (.value v), [frame]⟩ = none := rfl
    rw [ends_step hgo, ends_step hgo]
    simp only [Outcome.control, step, give]
    cases v.isTruthy with
    | true =>
      have honto : (⟨.block body, [.again condition body]⟩ : Thread) =
          (⟨.block body, []⟩ : Thread).onto [.again condition body] := rfl
      simp only [if_true]
      rw [honto, ends_onto, ends_append]
      simp only [ends_again line]
    | false =>
      simp only [Bool.false_eq_true, if_false, Option.getD_none]
      rw [ends_of_outcome? rfl, ends_nil]

end Loops

end Thread

open Thread

/-- Statements one after the other, from any state. A row joined from two comes to an outcome, says
things and leaves a state exactly as the first part and then the second do, and the second runs only
if the first has come to its end; a loop does so exactly as the branch that runs its body once and
then the loop again. This includes runs that fail, give a value back or end the program, and those
that never come to an outcome. -/
theorem rows_join_and_loops_unfold :
    (∀ (a b : List Stmt) (s s' : State) (o : Outcome),
      Ends (⟨.block (a ++ b), []⟩, s) o s' ↔
        (∃ s₁, Ends (⟨.block a, []⟩, s) (.flow .done) s₁ ∧ Ends (⟨.block b, []⟩, s₁) o s') ∨
          (o ≠ .flow .done ∧ Ends (⟨.block a, []⟩, s) o s')) ∧
    (∀ (condition : Expr) (body : List Stmt) (line line₁ line₂ : Nat) (s s' : State) (o : Outcome),
      Ends (⟨.block [.whileLoop condition body line], []⟩, s) o s' ↔
        Ends (⟨.block [.ifElse condition (body ++ [.whileLoop condition body line₁]) none line₂],
        []⟩, s) o s') := by
  refine ⟨?_, ?_⟩
  · intro a b s s' o
    rw [ends_append]
    constructor
    · rintro ⟨o₁, s₁, ha, hb⟩
      cases hb with
      | next hb => exact .inl ⟨s₁, ha, hb⟩
      | cut hne => exact .inr ⟨hne, ha⟩
    · rintro (⟨s₁, ha, hb⟩ | ⟨hne, ha⟩)
      · exact ⟨_, s₁, ha, .next hb⟩
      · exact ⟨o, s', ha, .cut hne⟩
  · intro condition body line line₁ line₂ s s' o
    rw [ends_whileLoop]
    cases hh : s.halted with
    | true => rw [← ends_whileLoop line, ends_halted hh, ends_halted hh]
    | false =>
      have hloop : step ⟨.loop condition body, []⟩ s =
          ((⟨.eval condition, []⟩ : Thread).onto [.test condition body], s) := by
        simp only [step, hh, Bool.false_eq_true, if_false]
        rfl
      have hbranch :
        start (.ifElse condition (body ++ [.whileLoop condition body line₁]) none line₂) [] s =
          ((⟨.eval condition, []⟩ : Thread).onto
            [.branch (body ++ [.whileLoop condition body line₁]) none], s) := rfl
      rw [ends_step rfl, hloop, ends_single hh, hbranch, ends_onto, ends_onto]
      simp only [ends_test line₁]

example : Ends (⟨.block [.giveBack none 1, .print (.literal (.boolean true) 2) true 2], []⟩, {})
    (.flow (.gaveBack .absent)) {} :=
  ⟨2, _, rfl, rfl⟩

end Colloquy
