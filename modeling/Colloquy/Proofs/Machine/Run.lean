import Colloquy.Proofs.Machine.Scope

/-!
# Runs of a thread by itself

A thread that nobody interrupts takes one step after the other (`Thread.runFor`) until it comes to
an outcome, if it ever does (`Thread.Ends`). Above other frames it first runs to its own outcome,
and then the frames go on with that (`Thread.ends_onto`).
-/

namespace Colloquy

/-- Whether a control is the outcome of a phrase. -/
def Control.isSettled : Control → Bool
  | .value _ | .flow _ | .fault _ => true
  | _ => false

/-- The control that hands on an outcome. -/
def Outcome.control : Outcome → Control
  | .value v => .value v
  | .flow f => .flow f
  | .fault f => .fault f

namespace Thread

/-- A thread and its state after so many steps. -/
def runFor : Nat → Thread × State → Thread × State
  | 0, r => r
  | n + 1, r => runFor n (r.1.step r.2)

/-- An uninterrupted thread comes to an outcome and leaves a state. -/
def Ends (r : Thread × State) (outcome : Outcome) (s : State) : Prop :=
  ∃ n t, runFor n r = (t, s) ∧ t.outcome? = some outcome

section Outcomes

variable {t : Thread} {s s' : State} {base : List Frame} {outcome o : Outcome}

lemma outcome?_onto (h : t.outcome? = none) : (t.onto base).outcome? = none := by
  obtain ⟨control, frames⟩ := t
  cases frames with
  | cons f fs => rfl
  | nil =>
    cases control with
    | value v | flow f | fault f => cases h
    | _ => cases base <;> rfl

section

variable (h : t.outcome? = some outcome)
include h

lemma settled_of_outcome? : t.frames = [] ∧ t.control.isSettled = true := by
  obtain ⟨control, frames⟩ := t
  cases frames with
  | cons f fs => cases h
  | nil => cases control <;> first | exact ⟨rfl, rfl⟩ | cases h

lemma eq_of_outcome? : t = ⟨outcome.control, []⟩ := by
  obtain ⟨control, frames⟩ := t
  cases frames with
  | cons f fs => cases h
  | nil => cases control <;> cases h <;> rfl

lemma runFor_of_outcome? (n : Nat) : runFor n (t, s) = (t, s) := by
  induction n with
  | zero => rfl
  | succ n ih =>
    rw [runFor, step_of_outcome? h]
    exact ih

lemma ends_of_outcome? : Ends (t, s) o s' ↔ o = outcome ∧ s' = s := by
  constructor
  · rintro ⟨n, t', hrun, ho⟩
    rw [runFor_of_outcome? h] at hrun
    cases hrun
    exact ⟨Option.some.inj (ho.symm.trans h), rfl⟩
  · rintro ⟨rfl, rfl⟩
    exact ⟨0, t, rfl, h⟩

end

lemma ends_step (h : t.outcome? = none) : Ends (t, s) o s' ↔ Ends (t.step s) o s' := by
  constructor
  · rintro ⟨n, t', hrun, ho⟩
    cases n with
    | zero =>
      cases hrun
      rw [h] at ho
      cases ho
    | succ n => exact ⟨n, t', hrun, ho⟩
  · rintro ⟨n, t', hrun, ho⟩
    exact ⟨n + 1, t', hrun, ho⟩

/-- Above other frames a thread comes to its own outcome first. -/
lemma ends_onto : Ends (t.onto base, s) o s' ↔ ∃ o1 s1, Ends (t, s) o1 s1 ∧
    Ends (⟨o1.control, base⟩, s1) o s' := by
  have settled {t : Thread} {o1 : Outcome} (h : t.outcome? = some o1) :
      t.onto base = ⟨o1.control, base⟩ := by
    rw [eq_of_outcome? h]
    rfl
  constructor
  · rintro ⟨n, t', hrun, ho⟩
    induction n generalizing t s with
    | zero =>
      cases h : t.outcome? with
      | some o1 => exact ⟨o1, s, ⟨0, t, rfl, h⟩, 0, t', settled h ▸ hrun, ho⟩
      | none =>
        cases hrun
        rw [outcome?_onto h] at ho
        cases ho
    | succ n ih =>
      cases h : t.outcome? with
      | some o1 => exact ⟨o1, s, ⟨0, t, rfl, h⟩, n + 1, t', settled h ▸ hrun, ho⟩
      | none =>
        rw [runFor, step_onto h] at hrun
        obtain ⟨o1, s1, hfirst, hthen⟩ := ih hrun
        exact ⟨o1, s1, (ends_step h).2 hfirst, hthen⟩
  · rintro ⟨o1, s1, ⟨n, t', hrun, ho⟩, hthen⟩
    induction n generalizing t s with
    | zero =>
      cases hrun
      rw [settled ho]
      exact hthen
    | succ n ih =>
      cases h : t.outcome? with
      | some o2 =>
        rw [runFor_of_outcome? h] at hrun
        cases hrun
        rw [settled ho]
        exact hthen
      | none =>
        rw [ends_step (outcome?_onto h), step_onto h]
        exact ih hrun

end Outcomes

end Thread

end Colloquy
