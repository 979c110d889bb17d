import Colloquy.Engine.Step

/-!
# Sessions

A session runs the tasks of an engine by one fixed rule. A task goes on until it has to wait or lets
others go first; tasks that can go on take turns in the order in which they became able to. Time
passes only when none can, and then as far as the next time at which one can.
-/

namespace Colloquy

/-- What a session is waiting for. -/
inductive Goal where
  /-- A task has ended. -/
  | ended (id : TaskId)
  /-- A time has come. -/
  | time (due : Nat)

/-- An engine with the task that is at work and those that are ready to be, in order. -/
structure Session where
  engine : Engine := {}
  current : Option TaskId := none
  ready : List TaskId := []

namespace Session

/-- The tasks that can go on. -/
def able (e : Engine) : List TaskId := (List.range e.tasks.length).filter e.canStep

/-- Whether a task has ended. -/
def hasEnded (e : Engine) (id : TaskId) : Bool := (e.tasks[id]?).all Task.isEnded

/-- Whether a task lets others go first. -/
def lets (e : Engine) (id : TaskId) : Bool := (e.tasks[id]?).any Task.isPaused

/-- Whether a goal is reached. -/
def reached (s : Session) : Goal → Bool
  | .ended id => hasEnded s.engine id
  | .time due => due ≤ s.engine.now

/-- Sends the tasks that have become able to go on to the end of the queue, the one that was at work
last. -/
def rest (s : Session) (e : Engine) (id : TaskId) : Session :=
  let woken := (able e).filter fun other => other ≠ id && !s.ready.contains other
  ⟨e, none, s.ready ++ woken ++ (if e.canStep id then [id] else [])⟩

/-- The next time at which a task goes on. -/
def nextWake? (e : Engine) : Option Nat := (e.tasks.filterMap Task.wakeTime?).min?

/-- The time to which the clock moves when no task can go on. -/
def nextTime? (e : Engine) : Goal → Option Nat
  | .ended _ => nextWake? e
  | .time due => some (((nextWake? e).map (min due)).getD due)

/-- Moves the clock on to a time, if it is not there yet. -/
def catchUp (s : Session) (now : Nat) : Session :=
  { s with engine := { s.engine with now := max s.engine.now now } }

/-- Lets time pass. The task that the session is waiting for goes first. -/
def pass (s : Session) (goal : Goal) (now : Nat) : Session :=
  let e := (s.catchUp now).engine
  match goal with
  | .ended id => ⟨e, none, (if e.canStep id then [id] else []) ++ (able e).filter (· ≠ id)⟩
  | .time _ => ⟨e, none, able e⟩

/-- One turn of a session; there is none when nothing can ever happen again. -/
def turn? (s : Session) (goal : Goal) : Option Session :=
  match s.current, s.ready with
  | some id, _ =>
    let e := s.engine.step id
    if lets e id || !e.canStep id then some (s.rest e id) else some { s with engine := e }
  | none, id :: ready =>
    if s.engine.canStep id then some { s with current := some id, ready := ready }
    else some { s with ready := ready }
  | none, [] =>
    match able s.engine with
    | [] => (nextTime? s.engine goal).map (s.pass goal)
    | ids => some { s with ready := ids }

/-- Takes turns until a goal is reached, but at most so many. -/
def runUntil (goal : Goal) : Nat → Session → Session
  | 0, s => s
  | turns + 1, s =>
    if s.reached goal then s
    else
      match s.turn? goal with
      | some next => runUntil goal turns next
      | none => s

/-- More turns than any session takes. -/
def patience : Nat := 1000000000000

/-- Starts a task, which takes its turn after those that are ready. -/
def spawn (s : Session) (t : Task) : Session :=
  { s with engine := s.engine.add t, ready := s.ready ++ [s.engine.tasks.length] }

/-- Starts a task, which takes its turn at once, and waits for its end. -/
def await (s : Session) (t : Task) : Session :=
  runUntil (.ended s.engine.tasks.length) patience
    { s with engine := s.engine.add t, current := some s.engine.tasks.length }

/-- Waits for so many milliseconds. -/
def sleep (s : Session) (ms : Nat) : Session :=
  runUntil (.time (s.engine.now + ms * nanosPerMilli)) patience s

/-- Runs a source text to its end. -/
def execute (s : Session) (source : String) : Session := s.await ⟨.source source, .fresh⟩

/-- Runs an event to its end. -/
def trigger (s : Session) (name : String) : Session := s.await ⟨.trigger name, .fresh⟩

/-- Stops the program. -/
def stop (s : Session) : Session := { s with engine := s.engine.stop }

/-- Sends a message to the host. -/
def say (s : Session) (severity : Severity) (text : String) : Session :=
  { s with engine := { s.engine with state := s.engine.state.say severity text } }

/-- Sets the chance of the host. -/
def reseed (s : Session) (seed : Nat) : Session :=
  let state := s.engine.state
  { s with
    engine := { s.engine with state := { state with host := { state.host with seed := seed } } } }

/-- Gives the host more answers. -/
def supply (s : Session) (answers : List String) : Session :=
  let state := s.engine.state
  let host := { state.host with answers := state.host.answers ++ answers }
  { s with engine := { s.engine with state := { state with host := host } } }

/-- Makes the answers to later prompts take so many milliseconds. -/
def setDelay (s : Session) (ms : Nat) : Session :=
  { s with engine := { s.engine with answerDelay := ms } }

/-- Whether the task at work is about to ask a host that has no answer. -/
def needsAnswer (s : Session) : Bool :=
  s.engine.state.host.answers.isEmpty &&
    (s.current.bind fun id => s.engine.tasks[id]?).any Task.isAsking

/-- Runs one thread beside the gate and tells how it ended. -/
def runThread (s : Session) (control : Control) : Option Outcome × Session :=
  let id := s.engine.tasks.length
  let s := s.await ⟨.beside, .active ⟨control, []⟩ 0⟩
  ((s.engine.tasks[id]?).bind Task.outcome?, s)

end Session

end Colloquy
