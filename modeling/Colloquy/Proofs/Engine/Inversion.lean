import Colloquy.Proofs.Machine.Inversion
import Colloquy.Proofs.Engine.Run

/-!
# What a step of a task does

`Move` lists everything that a step of a task can do, with the conditions under which it happens;
invariants of runs are proved from this list.
-/

namespace Colloquy

/-- The pieces of work that go through the gate. -/
inductive Work.Gated : Work → Prop where
  | program {p : Program} :
    Gated (.program p)
  | event {body : List Stmt} :
    Gated (.event body)
  | timer {timer : Nat} {body : List Stmt} {period due : Nat} :
    Gated (.timer timer body period due)

/-- The phase of a task fits its work. -/
inductive Task.Fits : Task → Prop where
  | source {text : String} :
    Fits ⟨.source text, .fresh⟩
  | trigger {name : String} :
    Fits ⟨.trigger name, .fresh⟩
  | timer {timer : Nat} {body : List Stmt} {period due : Nat} :
    Fits ⟨.timer timer body period due, .fresh⟩
  | resting {timer : Nat} {body : List Stmt} {period due : Nat} :
    Fits ⟨.timer timer body period due, .resting⟩
  | queued {w : Work} :
    w.Gated →
    Fits ⟨w, .queued⟩
  | active {w : Work} {thread : Thread} {answerDue : Nat} :
    w.Gated →
    thread.Typed .statements →
    Fits ⟨w, .active thread answerDue⟩
  | ended {w : Work} {outcome : Option Outcome} :
    Fits ⟨w, .ended outcome⟩

namespace Engine

/-- The phases of all tasks fit their work. -/
def Fitting (e : Engine) : Prop := ∀ t ∈ e.tasks, t.Fits

/-- Everything that a step of a task can do. -/
inductive Move (e : Engine) (id : TaskId) : Engine → Prop where
  /-- It has to wait, has ended, or is not there. -/
  | stay :
    Move e id e
  /-- A source text is not a program. -/
  | refuse {text err} :
    e.tasks[id]? = some ⟨.source text, .fresh⟩ →
    compile text = .error err →
    Move e id
      { e.put id ⟨.source text, .ended none⟩ with
        state := e.state.say .error ("Syntax Error: " ++ err.message) }
  /-- A program stops what runs and goes to the gate. -/
  | call {text p} :
    e.tasks[id]? = some ⟨.source text, .fresh⟩ →
    compile text = .ok p →
    Move e id (e.stop.queue id (.program p))
  /-- No event has the name. -/
  | miss {name} :
    e.tasks[id]? = some ⟨.trigger name, .fresh⟩ →
    e.state.store.events.get? name = none →
    Move e id (e.put id ⟨.trigger name, .ended none⟩)
  /-- The body of an event goes to the gate. -/
  | summon {name event} :
    e.tasks[id]? = some ⟨.trigger name, .fresh⟩ →
    e.state.store.events.get? name = some event →
    Move e id (e.queue id (.event event.body))
  /-- A timer begins and is first due one period from now. -/
  | arm {timer body period due} :
    e.tasks[id]? = some ⟨.timer timer body period due, .fresh⟩ →
    Move e id (e.put id ⟨.timer timer body period (e.now + period), .resting⟩)
  /-- A timer ends, because it was cancelled or because no program runs. -/
  | retire {timer body period due phase} :
    e.tasks[id]? = some ⟨.timer timer body period due, phase⟩ →
    phase = .resting ∨ phase = .queued →
    e.state.timers.isCancelled timer = true ∨ e.state.running = false →
    Move e id (e.retire id ⟨.timer timer body period due, phase⟩)
  /-- A timer that is due goes to the gate. -/
  | tick {timer body period due} :
    e.tasks[id]? = some ⟨.timer timer body period due, .resting⟩ →
    e.state.timers.isCancelled timer = false →
    due ≤ e.now →
    e.state.running = true →
    Move e id (e.queue id (.timer timer body period (nextDue e.now period due)))
  /-- A program begins behind the gate. -/
  | launch {p} :
    e.tasks[id]? = some ⟨.program p, .queued⟩ →
    e.gate.holder = some id →
    Move e id (e.launch id p)
  /-- The body of an event begins behind the gate. -/
  | respond {body} :
    e.tasks[id]? = some ⟨.event body, .queued⟩ →
    e.gate.holder = some id →
    Move e id
      { e.put id ⟨.event body, .active ⟨.block body, []⟩ 0⟩ with
        state := { e.state with halted := false } }
  /-- The body of a timer begins behind the gate. -/
  | strike {timer body period due} :
    e.tasks[id]? = some ⟨.timer timer body period due, .queued⟩ →
    e.gate.holder = some id →
    e.state.timers.isCancelled timer = false →
    e.state.running = true →
    Move e id (e.put id ⟨.timer timer body period due, .active ⟨.block body, []⟩ 0⟩)
  /-- A thread has ended. -/
  | conclude {w thread answerDue outcome} :
    e.tasks[id]? = some ⟨w, .active thread answerDue⟩ →
    w.Gated →
    thread.outcome? = some outcome →
    Move e id (e.conclude id ⟨w, .active thread answerDue⟩ outcome)
  /-- A thread takes a step. -/
  | advance {w thread answerDue next} :
    e.tasks[id]? = some ⟨w, .active thread answerDue⟩ →
    thread.outcome? = none →
    Move e id
      { e.put id ⟨w, .active (thread.step e.state).1 next⟩ with state := (thread.step e.state).2 }

section Inversion

variable {e : Engine} {id : TaskId} {t : Task}

section

variable (ht : e.tasks[id]? = some t) (hf : t.Fits)
include ht hf

/-- A fresh task is set up or goes to the gate. -/
lemma begin_move (hp : t.phase = .fresh) : Move e id (e.begin id t) := by
  cases hf with
  | @source text =>
    simp only [begin]
    split
    · exact .call ht ‹_›
    · exact .refuse ht ‹_›
  | @trigger name =>
    simp only [begin]
    split
    · exact .summon ht ‹_›
    · exact .miss ht ‹_›
  | timer => exact .arm ht
  | _ => cases hp

/-- A timer that is due gets in line. -/
lemma wake_move (hp : t.phase = .resting) : Move e id (e.wake id t) := by
  cases hf with
  | @resting timer body period due =>
    simp only [wake]
    split
    · rename_i hc
      exact .retire ht (.inl rfl) (.inl hc)
    · rename_i hc
      split
      · exact .stay
      · rename_i hd
        split
        · exact .tick ht (Bool.eq_false_iff.2 hc) (Nat.le_of_not_lt hd) ‹_›
        · exact .retire ht (.inl rfl) (.inr (Bool.eq_false_iff.2 ‹_›))
  | _ => cases hp

/-- A task that has got the gate begins or gives it up. -/
lemma passGate_move (hp : t.phase = .queued) : Move e id (e.passGate id t) := by
  cases hf with
  | queued hw =>
    cases hw with
    | program =>
      simp only [passGate]
      split
      · rename_i hc
        cases hc
      · split
        · exact .stay
        · exact .launch ht (Decidable.not_not.1 ‹_›)
    | event =>
      simp only [passGate]
      split
      · rename_i hc
        cases hc
      · split
        · exact .stay
        · exact .respond ht (Decidable.not_not.1 ‹_›)
    | timer =>
      simp only [passGate]
      split
      · rename_i hc
        exact .retire ht (.inr rfl) (.inl hc)
      · rename_i hc
        split
        · exact .stay
        · rename_i hh
          split
          · exact .strike ht (Decidable.not_not.1 hh) (Bool.eq_false_iff.2 hc) ‹_›
          · exact .retire ht (.inr rfl) (.inr (Bool.eq_false_iff.2 ‹_›))
  | _ => cases hp

end

lemma advance_move {w : Work} {thread : Thread} {answerDue : Nat}
    (ht : e.tasks[id]? = some ⟨w, .active thread answerDue⟩) (hw : w.Gated) :
    Move e id (e.advance id ⟨w, .active thread answerDue⟩ thread answerDue) := by
  unfold advance
  split
  · exact .conclude ht hw ‹_›
  · split
    · exact .stay
    · exact .advance ht ‹_›

/-- A step of a task does one of the things listed. -/
lemma step_move (hf : e.Fitting) : Move e id (e.step id) := by
  unfold step
  split
  · exact .stay
  · rename_i t ht
    have hft : t.Fits := hf t (List.mem_of_getElem? ht)
    obtain ⟨work, phase⟩ := t
    cases phase with
    | fresh => exact begin_move ht hft rfl
    | resting => exact wake_move ht hft rfl
    | queued => exact passGate_move ht hft rfl
    | active thread answerDue =>
      cases hft with
      | active hw _ => exact advance_move ht hw
    | ended outcome => exact .stay

end Inversion

end Engine

end Colloquy
