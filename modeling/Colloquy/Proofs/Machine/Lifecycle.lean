import Colloquy.Proofs.Machine.Calls
import Colloquy.Proofs.Machine.Run

/-!
# What ends a program from within

Only the call that ends a program touches the lifecycle: whether the program runs, whether its
sequence is to halt, and its timers. It brings the lifecycle to one state, and nothing that the
thread does after that brings it back (`runFor_lifecycle`).
-/

namespace Colloquy

/-- Whether a program runs, whether its sequence is to halt, and its timers. -/
structure Lifecycle where
  running : Bool
  halted : Bool
  timers : Registry
deriving DecidableEq

/-- The lifecycle of a state. -/
def State.lifecycle (s : State) : Lifecycle := ⟨s.running, s.halted, s.timers⟩

lemma State.Mild.lifecycle {s s' : State} (h : s.Mild s') : s'.lifecycle = s.lifecycle := by
  cases h <;> rfl

namespace Lifecycle

/-- The lifecycle after a stop. -/
def stop (l : Lifecycle) : Lifecycle := ⟨false, true, l.timers.cancelAll.2⟩

/-- A lifecycle after a stop: nothing runs, the sequence is to halt, no timer is live, and the flags
of those that were are raised too. -/
structure Stopped (before after : Lifecycle) : Prop where
  running : after.running = false
  halted : after.halted = true
  live : after.timers.live = []
  issued : after.timers.issued = before.timers.issued
  cancelled : ∀ timer, after.timers.isCancelled timer = true ↔
    timer ∈ before.timers.live ∨ before.timers.isCancelled timer = true

lemma stopped_stop (l : Lifecycle) : l.Stopped l.stop where
  running := rfl
  halted := rfl
  live := rfl
  issued := rfl
  cancelled timer := by simp [stop, Registry.cancelAll, Registry.isCancelled]

/-- The lifecycle after a stretch in which the program was ended, or not. -/
def passed (l : Lifecycle) (ended : Bool) : Lifecycle := if ended then l.stop else l

lemma passed_passed {l : Lifecycle} {first second : Bool} :
    (l.passed first).passed second = l.passed (first || second) := by
  cases first <;> cases second <;> rfl

lemma passed_spec {before after : Lifecycle} {ended : Bool} (h : after = before.passed ended) :
    (ended = false → after = before) ∧ (ended = true → before.Stopped after) := by
  subst h
  cases ended with
  | false => exact ⟨fun _ => rfl, nofun⟩
  | true => exact ⟨nofun, fun _ => before.stopped_stop⟩

end Lifecycle

namespace Thread

/-- Whether the next step ends the program. -/
def terminates (t : Thread) (s : State) : Bool :=
  (t.call? s).any fun call => Builtin.ofName? call.1 == some .terminate

/-- Whether one of some steps ends the program. -/
def hasTerminated : Nat → Thread × State → Bool
  | 0, _ => false
  | n + 1, r => r.1.terminates r.2 || hasTerminated n (r.1.step r.2)

section Ending

variable {s : State} {t : Thread} {name : String} {args : List Value}

lemma terminates_of_call?_none (h : t.call? s = none) : t.terminates s = false := by
  rw [terminates, h]
  rfl

lemma Calls.terminates_eq (h : t.Calls s name args) :
    t.terminates s = (Builtin.ofName? name == some .terminate) := by
  rw [terminates, call?_eq_some_iff.2 h]
  rfl

lemma call_lifecycle {b : Builtin} :
    (b.call args s).2.lifecycle = s.lifecycle.passed (b == .terminate) := by
  cases b with
  | random =>
    obtain ⟨seed, hdraw⟩ := draw_state args s
    rw [Builtin.call, hdraw]
    rfl
  | _ => rfl

lemma invoke_lifecycle {line : Nat} {fs : List Frame} :
    (invoke name args line fs s).2.lifecycle =
      s.lifecycle.passed (Builtin.ofName? name == some .terminate) := by
  cases hb : Builtin.ofName? name with
  | some b =>
    obtain ⟨control, heq⟩ := invoke_builtin hb
    rw [heq]
    exact call_lifecycle
  | none =>
    simp only [invoke, hb]
    split <;> rfl

/-- A step that does not end the program leaves it alone. -/
lemma step_lifecycle : (t.step s).2.lifecycle = s.lifecycle.passed (t.terminates s) := by
  by_cases hs : t.Straight
  · have hp : Passage s t (t.step s) := step_passage hs
    generalize t.step s = r at hp
    cases hp with
    | work hc hm _ _ =>
      rw [terminates_of_call?_none hc]
      exact hm.lifecycle
    | call hc _ _ =>
      rw [hc.terminates_eq]
      exact invoke_lifecycle
    | leave hc _ =>
      rw [terminates_of_call?_none hc]
      rfl
  · simp only [Straight, Classical.not_forall] at hs
    obtain ⟨v, f, fs, rfl, hf⟩ := hs
    cases f with
    | scope saved depth detached => rfl
    | _ => exact (hf rfl).elim

lemma runFor_lifecycle {n : Nat} :
    (runFor n (t, s)).2.lifecycle = s.lifecycle.passed (hasTerminated n (t, s)) := by
  induction n generalizing t s with
  | zero => rfl
  | succ n ih =>
    have hrest : (runFor n (t.step s)).2.lifecycle =
      (t.step s).2.lifecycle.passed (hasTerminated n (t.step s)) := ih
    rw [runFor, hrest, step_lifecycle, Lifecycle.passed_passed]
    rfl

end Ending

end Thread

end Colloquy
