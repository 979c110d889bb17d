import Colloquy.Engine.Task
import Colloquy.Machine.Step

/-!
# Engines

An engine has a state that all of its tasks share, the gate, the tasks, and a clock. `Engine.step`
lets one task do one thing; every course of events is a row of such steps, of new calls and stops,
and of passing time.

To run a program means to stop what runs and to cancel its timers at once, then to wait for the
gate, and behind it to begin with empty tables.
-/

namespace Colloquy

/-- The parts of an engine. A task is known by its place among the tasks. Answers take so many
milliseconds. -/
structure Engine where
  state : State := {}
  gate : Gate := {}
  tasks : List Task := []
  now : Nat := 0
  answerDelay : Nat := 0

namespace Engine

/-- Adds a task. -/
def add (e : Engine) (t : Task) : Engine := { e with tasks := e.tasks ++ [t] }

/-- Stops the program. -/
def stop (e : Engine) : Engine := { e with state := e.state.stop }

/-- Replaces a task. -/
def put (e : Engine) (id : TaskId) (t : Task) : Engine := { e with tasks := e.tasks.set id t }

/-- The time on the clock in whole milliseconds. -/
def clock (e : Engine) : Nat := e.now / nanosPerMilli

/-- Whether a timer was cancelled. -/
def isCancelled (e : Engine) : Work → Bool
  | .timer id .. => e.state.timers.isCancelled id
  | _ => false

/-- Sends a task to the gate. -/
def queue (e : Engine) (id : TaskId) (work : Work) : Engine :=
  { e.put id ⟨work, .queued⟩ with gate := e.gate.request id }

/-- Ends a timer, which gives up its place at the gate. -/
def retire (e : Engine) (id : TaskId) (t : Task) : Engine :=
  let timers := match t.work with
    | .timer timer .. => e.state.timers.complete timer
    | _ => e.state.timers
  { e.put id { t with phase := .ended none } with
    state := { e.state with timers := timers }, gate := e.gate.withdraw id }

/-- Begins a task. A timer is first due one period from now. -/
def begin (e : Engine) (id : TaskId) (t : Task) : Engine :=
  match t.work with
  | .source text =>
    match compile text with
    | .ok p => e.stop.queue id (.program p)
    | .error err =>
      { e.put id { t with phase := .ended none } with
        state := e.state.say .error ("Syntax Error: " ++ err.message) }
  | .trigger name =>
    match e.state.store.events.get? name with
    | some event => e.queue id (.event event.body)
    | none => e.put id { t with phase := .ended none }
  | .timer timer body period _ => e.put id ⟨.timer timer body period (e.now + period), .resting⟩
  | .program _ | .event _ | .beside => e.queue id t.work

/-- The warning about a function that can never be called. -/
def shadowWarning (name : String) : String :=
  "Function '" ++ name ++ "' shares its name with a built-in and will never be called"

/-- Makes a declaration. A timer event is registered as a timer and gets a task of its own. -/
def declare (e : Engine) (stmt : Stmt) : Engine :=
  match stmt with
  | .function name .. =>
    let state :=
      if (Builtin.ofName? name).isSome then e.state.say .warning (shadowWarning name) else e.state
    { e with state := { state with store := state.store.declare stmt } }
  | .event _ (some schedule) body _ =>
    let (id, timers) := e.state.timers.register
    { e with state := { e.state with store := e.state.store.declare stmt, timers := timers } }.add
      ⟨.timer id body schedule.period 0, .fresh⟩
  | stmt => { e with state := { e.state with store := e.state.store.declare stmt } }

/-- The state in which a program begins: empty tables, no call under way, and running. -/
def clean (s : State) : State :=
  { s with store := {}, depth := 0, running := true, halted := false }

/-- The thread of a program: its start event, if it has one, and then its statements. -/
def mainThread (p : Program) (s : State) : Thread :=
  match s.store.events.get? Program.startEvent with
  | some event => ⟨.block event.body, [.mainLine p.statements]⟩
  | none => ⟨.block p.statements, []⟩

/-- Begins a program behind the gate. The declarations are made in one go: a host that hears a
warning about one of them does not call back into the engine before the last is made. -/
def launch (e : Engine) (id : TaskId) (p : Program) : Engine :=
  let declared := p.body.foldl declare { e with state := clean e.state }
  declared.put id ⟨.program p, .active (mainThread p declared.state) 0⟩

/-- Goes through the gate, if a task holds it. A timer that was cancelled, or whose program no
longer runs, ends instead. -/
def passGate (e : Engine) (id : TaskId) (t : Task) : Engine :=
  if e.isCancelled t.work then e.retire id t
  else if e.gate.holder ≠ some id then e
  else
    match t.work with
    | .program p => e.launch id p
    | .event body =>
      { e.put id { t with phase := .active ⟨.block body, []⟩ 0 } with
        state := { e.state with halted := false } }
    | .timer _ body .. =>
      if e.state.running then e.put id { t with phase := .active ⟨.block body, []⟩ 0 }
      else e.retire id t
    | .source _ | .trigger _ | .beside => e

/-- By how much a tick may be late without moving the ticks after it. -/
def tolerance : Nat := 5 * nanosPerMilli

/-- The due time after one that is taken now. -/
def nextDue (now period due : Nat) : Nat :=
  if now ≤ due + tolerance then due + period else now + period

/-- Takes a tick that is due and sends the timer to the gate. -/
def wake (e : Engine) (id : TaskId) (t : Task) : Engine :=
  if e.isCancelled t.work then e.retire id t
  else
    match t.work with
    | .timer timer body period due =>
      if e.now < due then e
      else if e.state.running then e.queue id (.timer timer body period (nextDue e.now period due))
      else e.retire id t
    | _ => e

/-- Reports the fault that an outcome is. -/
def reportOutcome (s : State) : Outcome → State
  | .fault f => s.report f
  | _ => s

/-- Ends the thread of a task. A program that leaves no timers behind no longer runs. -/
def conclude (e : Engine) (id : TaskId) (t : Task) (outcome : Outcome) : Engine :=
  match t.work with
  | .beside => e.put id { t with phase := .ended (some outcome) }
  | .timer .. =>
    { e.put id { t with phase := .resting } with
      state := reportOutcome e.state outcome, gate := e.gate.withdraw id }
  | .program _ =>
    let state := reportOutcome e.state outcome
    { e.put id { t with phase := .ended (some outcome) } with
      state := if state.timers.isEmpty then { state with running := false } else state
      gate := e.gate.withdraw id }
  | _ =>
    { e.put id { t with phase := .ended (some outcome) } with
      state := reportOutcome e.state outcome, gate := e.gate.withdraw id }

/-- Lets the thread of a task take a step. The answer to a prompt is settled when the prompt is
made, and is there after the delay. -/
def advance (e : Engine) (id : TaskId) (t : Task) (thread : Thread) (answerDue : Nat) : Engine :=
  match thread.outcome? with
  | some outcome => e.conclude id t outcome
  | none =>
    if thread.isAnswered && e.now < answerDue then e
    else
      let (next, state) := thread.step e.state
      let answerDue := if thread.isAsking then e.now + e.answerDelay * nanosPerMilli else answerDue
      { e.put id { t with phase := .active next answerDue } with state := state }

/-- One step of one task. A task that has to wait, or that has ended, stays as it is. -/
def step (e : Engine) (id : TaskId) : Engine :=
  match e.tasks[id]? with
  | none => e
  | some t =>
    match t.phase with
    | .fresh => e.begin id t
    | .resting => e.wake id t
    | .queued => e.passGate id t
    | .active thread answerDue => e.advance id t thread answerDue
    | .ended _ => e

/-- Whether a step would get a task any further. -/
def canStep (e : Engine) (id : TaskId) : Bool :=
  match e.tasks[id]? with
  | none => false
  | some t =>
    match t.phase, t.work with
    | .fresh, _ => true
    | .resting, .timer _ _ _ due => e.isCancelled t.work || due ≤ e.now
    | .resting, _ => false
    | .queued, _ => e.isCancelled t.work || e.gate.holder == some id
    | .active thread answerDue, _ => !(thread.isAnswered && e.now < answerDue)
    | .ended _, _ => false

end Engine

end Colloquy
