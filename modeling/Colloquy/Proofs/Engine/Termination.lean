import Colloquy.Proofs.Machine.Lifecycle
import Colloquy.Proofs.Engine.Halting

/-!
# Ending a program from within

Unless somebody stops the program from outside (`Engine.interferes`), the lifecycle stays as it was
until a phrase behind the gate ends the program, and is that of a stopped program from then on.
-/

namespace Colloquy

namespace Engine

/-- Whether an action ends the program from within a task's thread. -/
def terminates (e : Engine) (id : TaskId) : Action → Bool
  | .step other => other == id && (e.thread? id).any fun t => t.terminates e.state
  | _ => false

/-- Whether one of these actions does so. -/
def hasTerminated (id : TaskId) : List Action → Engine → Bool
  | [], _ => false
  | a :: as, e => e.terminates id a || hasTerminated id as (e.perform a)

/-- Whether an action stops the program from outside, itself or by calling another. -/
def interferes (e : Engine) : Action → Bool
  | .stop => true
  | .step id =>
    match e.tasks[id]? with
    | some ⟨.source text, .fresh⟩ => (compile text).isOk
    | _ => false
  | _ => false

/-- Whether none of some actions stops the program from outside. -/
def undisturbed : List Action → Engine → Bool
  | [], _ => true
  | a :: as, e => !e.interferes a && undisturbed as (e.perform a)

section Actions

variable {e d : Engine} {id other : TaskId} {thread : Thread} {a : Action}

section

variable (hr : e.Reachable) (ht : e.thread? id = some thread)
include hr ht

/-- Others who do not interfere leave the lifecycle. -/
lemma Move.lifecycle_of_others (hne : id ≠ other) (hi : e.interferes (.step other) = false)
    (h : Move e other d) :
    d.state.lifecycle = e.state.lifecycle := by
  have hid : e.gate.holder = some id :=
    hr.holder_of_thread? (Option.isSome_iff_exists.2 ⟨thread, ht⟩)
  have absurd (hh : e.gate.holder = some other) : False := hne (Option.some.inj (hid.symm.trans hh))
  cases h with
  | call hj hp =>
    simp only [interferes, hj, hp] at hi
    cases hi
  | retire _ _ hc =>
    exact congrArg (Lifecycle.mk e.state.running e.state.halted) (hr.orderly.complete_eq hc)
  | launch _ hh | respond _ hh | strike _ hh _ _ => exact (absurd hh).elim
  | conclude hj _ _ | advance hj _ => exact (absurd (hr.exclusive _ _ _ _ hj)).elim
  | _ => rfl

/-- A step of the thread changes it only by ending. -/
lemma step_lifecycle (ho : thread.outcome? = none) :
    (e.step id).state.lifecycle = e.state.lifecycle.passed (thread.terminates e.state) := by
  cases ha : thread.isAnswered with
  | false =>
    rw [(step_thread ht ho ha).2]
    exact Thread.step_lifecycle
  | true =>
    have hcall : thread.call? e.state = none := by
      obtain ⟨control, frames⟩ := thread
      cases control with
      | answered text => rfl
      | _ => cases ha
    obtain ⟨w, answerDue, htask⟩ := thread?_inv ht
    rcases (step_move hr.fitting).own htask ho with hd | ⟨next, _, hs⟩
    · rw [hd, Thread.terminates_of_call?_none hcall]
      rfl
    · rw [hs]
      exact Thread.step_lifecycle

/-- So does every action that does not interfere. -/
lemma perform_lifecycle (ho : thread.outcome? = none) (hi : e.interferes a = false) :
    (e.perform a).state.lifecycle = e.state.lifecycle.passed (e.terminates id a) := by
  cases a with
  | stop => cases hi
  | step other =>
    by_cases hne : id = other
    · subst hne
      have hterm : e.terminates id (.step id) = thread.terminates e.state := by
        simp [terminates, ht]
      rw [hterm]
      exact step_lifecycle hr ht ho
    · have hterm : e.terminates id (.step other) = false := by simp [terminates, Ne.symm hne]
      rw [hterm]
      exact (step_move hr.fitting).lifecycle_of_others hr ht hne hi
  | _ => rfl

end

/-- In a run it is left, or that of a stopped program. -/
lemma run_lifecycle {t : Thread} {base : List Frame} {actions : List Action} (hr : e.Reachable)
    (ht : e.thread? id = some (t.onto base)) (hw : worksAbove id base.length actions e = true)
    (hu : undisturbed actions e = true) :
    (e.run actions).state.lifecycle = e.state.lifecycle.passed (hasTerminated id actions e) := by
  induction actions generalizing e t with
  | nil => rfl
  | cons a actions ih =>
    obtain ⟨hn, hw⟩ := Bool.and_eq_true_iff.1 hw
    obtain ⟨hi, hu⟩ := Bool.and_eq_true_iff.1 hu
    obtain ⟨ho, hnext⟩ := perform_onto hr ht (bne_iff_ne.1 hn) a
    have hfirst := perform_lifecycle hr ht (Thread.outcome?_onto ho) (Bool.not_eq_true' _ ▸ hi)
    have hrest : ((e.perform a).run actions).state.lifecycle =
        (e.perform a).state.lifecycle.passed (hasTerminated id actions (e.perform a)) := by
      rcases hnext with ⟨ht, _⟩ | ⟨ht, _⟩
      · exact ih (.act a hr) ht hw hu
      · exact ih (.act a hr) ht hw hu
    rw [hfirst, Lifecycle.passed_passed] at hrest
    exact hrest

end Actions

end Engine

open Thread Engine

/-- Whether a program runs, whether its sequence is to halt, and its timers with their flags are
left alone by every phrase that does not call the built-in function that ends the program, however
many steps it takes and whatever its outcome; from that call on they are those of a stopped program,
also if the phrase fails or gives a value back after it. This holds of a thread by itself, and of a
phrase above some frames behind the gate while others take their steps, if none of them stops the
program from outside. -/
theorem lifecycle_changes_only_by_terminate :
    (∀ (t : Thread) (s : State) (n : Nat),
      (Thread.hasTerminated n (t, s) = false → (runFor n (t, s)).2.lifecycle = s.lifecycle) ∧
      (Thread.hasTerminated n (t, s) = true → s.lifecycle.Stopped (runFor n (t, s)).2.lifecycle)) ∧
    (∀ (e : Engine) (id : TaskId) (c : Control) (fs : List Frame) (actions : List Action),
    e.Reachable →
      e.thread? id = some ⟨c, fs⟩ → worksAbove id fs.length actions e = true →
      undisturbed actions e = true →
      (Engine.hasTerminated id actions e = false →
        (e.run actions).state.lifecycle = e.state.lifecycle) ∧
      (Engine.hasTerminated id actions e = true →
        e.state.lifecycle.Stopped (e.run actions).state.lifecycle)) := by
  refine ⟨fun t s n => Lifecycle.passed_spec runFor_lifecycle, ?_⟩
  intro e id c fs actions hr ht hw hu
  exact Lifecycle.passed_spec (run_lifecycle (t := ⟨c, []⟩) hr ht hw hu)

namespace Engine

/-- A program with a live timer at its first statement: a sum that fails, with a call that ends the
program. -/
def summing : Engine :=
  (fresh defaultDepth {}).run
    (.execute "to f:\n    terminate program\nevery 1 seconds:\n    say y\nset x to f() + y\n" ::
      List.replicate 2 (.step 0))

/-- The timer falls due while the statement goes on. -/
def adding (steps : Nat) : List Action :=
  [.step 0, .step 1, .wait 1000, .step 1] ++ List.replicate steps (.step 0)

/-- The program stays ended although the sum fails. -/
theorem lifecycle_changes_only_by_terminate_summing :
    summing.state.timers.live = [1] ∧
      (summing.run (adding 2)).state.lifecycle = summing.state.lifecycle ∧
      ((summing.run (adding 12)).thread? 0).any (fun t =>
      t.frames.isEmpty && t.control matches .fault _) = true ∧
      summing.state.lifecycle.Stopped (summing.run (adding 12)).state.lifecycle := by
  have hr : summing.Reachable := (Reachable.fresh defaultDepth {}).run _
  have hrun : summing.state.timers.live = [1] ∧
      (summing.thread? 0).any (fun t => t.frames.isEmpty) = true ∧
      worksAbove 0 0 (adding 2) summing = true ∧ undisturbed (adding 2) summing = true ∧
      Engine.hasTerminated 0 (adding 2) summing = false ∧
      worksAbove 0 0 (adding 12) summing = true ∧ undisturbed (adding 12) summing = true ∧
      Engine.hasTerminated 0 (adding 12) summing = true ∧
      ((summing.run (adding 12)).thread? 0).any (fun t =>
      t.frames.isEmpty && t.control matches .fault _) = true := by
    decide +kernel
  obtain ⟨hlive, hthread, hworks, hquiet, hnot, hworks', hquiet', hended, hfault⟩ := hrun
  obtain ⟨⟨c, fs⟩, ht, hfs⟩ := (Option.any_eq_true _ _).1 hthread
  cases List.isEmpty_iff.1 hfs
  have hphrase := lifecycle_changes_only_by_terminate.2 summing 0 c []
  exact ⟨hlive, (hphrase _ hr ht hworks hquiet).1 hnot,
    hfault, (hphrase _ hr ht hworks' hquiet').2 hended⟩

end Engine

end Colloquy
