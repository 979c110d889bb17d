import Colloquy.Engine.Gate
import Colloquy.Grammar.Program
import Colloquy.Machine.Thread

/-!
# Tasks

What an engine does is divided into tasks: calls that run a source text or an event, timers, and
single threads that run beside the gate. All times are kept in nanoseconds.
-/

namespace Colloquy

/-- How many nanoseconds a millisecond has. -/
def nanosPerMilli : Nat := 1000000

/-- The least number of milliseconds that is no less than so many nanoseconds. -/
def millisCovering (nanos : Nat) : Nat := (nanos + nanosPerMilli - 1) / nanosPerMilli

namespace Schedule

/-- The period in milliseconds, at least one and at most 2 ^ 32 - 1. -/
def boundedMilliseconds (s : Schedule) : Float :=
  let ms := s.milliseconds
  if ms < 1 then 1 else if (4294967295 : Float) < ms then 4294967295 else ms

/-- The period in nanoseconds, rounded from its value in seconds. -/
def period (s : Schedule) : Nat :=
  match Decimal.magnitude? (s.boundedMilliseconds / 1000) with
  | some m => Decimal.roundQuotient (m.ratio.1 * 1000000000) m.ratio.2
  | none => 0

end Schedule

/-- What a task is for. -/
inductive Work where
  /-- Run a source text. -/
  | source (text : String)
  /-- Run a compiled program. -/
  | program (p : Program)
  /-- Run the event of a name. -/
  | trigger (name : String)
  /-- Run the body of an event that was looked up. -/
  | event (body : List Stmt)
  /-- Run the body of a timer whenever it is due. The due time is set when the task begins. -/
  | timer (id : Nat) (body : List Stmt) (period due : Nat)
  /-- Run one thread beside the gate. -/
  | beside

/-- How far a task has come. -/
inductive Phase where
  /-- It has not begun. -/
  | fresh
  /-- It waits for its due time. -/
  | resting
  /-- It waits for the gate, or has been handed it. -/
  | queued
  /-- It runs a thread. An answer to a prompt may be used from some time on. -/
  | active (thread : Thread) (answerDue : Nat)
  /-- It has ended. -/
  | ended (outcome : Option Outcome)

/-- A piece of work and how far it has come. -/
structure Task where
  work : Work
  phase : Phase := .fresh

namespace Task

/-- How a task has ended. -/
def outcome? (t : Task) : Option Outcome :=
  match t.phase with
  | .ended outcome => outcome
  | _ => none

/-- Whether a task has ended. -/
def isEnded (t : Task) : Bool :=
  match t.phase with
  | .ended _ => true
  | _ => false

/-- Whether the thread of a task lets others go first. -/
def isPaused (t : Task) : Bool :=
  match t.phase with
  | .active thread _ => thread.isPaused
  | _ => false

/-- Whether the thread of a task is about to ask the host for an answer. -/
def isAsking (t : Task) : Bool :=
  match t.phase with
  | .active thread _ => thread.isAsking
  | _ => false

/-- The time at which a task that waits for the clock goes on. Timers wake at whole milliseconds. -/
def wakeTime? (t : Task) : Option Nat :=
  match t.phase, t.work with
  | .resting, .timer _ _ _ due => some (millisCovering due * nanosPerMilli)
  | .active thread answerDue, _ => if thread.isAnswered then some answerDue else none
  | _, _ => none

end Task

end Colloquy
