import Colloquy.Store
import Colloquy.Registry
import Colloquy.Host

/-!
# States

The state that everything in one engine shares: the tables, the depth of calls, whether a program
runs and whether its current sequence is to halt, the timers, and the host.
-/

namespace Colloquy

/-- The call depth that is allowed if nothing else is said. -/
def defaultDepth : Nat := 1000

/-- What the sequences of one engine share. -/
structure State where
  store : Store := {}
  depth : Nat := 0
  maxDepth : Nat := defaultDepth
  running : Bool := false
  halted : Bool := false
  timers : Registry := {}
  host : Host := {}

namespace State

/-- Sends a message to the host. -/
def say (s : State) (severity : Severity) (text : String) : State :=
  { s with host := s.host.hear (.message severity text) }

/-- Sends a prompt to the host. -/
def ask (s : State) (text : String) : State := { s with host := s.host.hear (.prompt text) }

/-- Stops the program: nothing runs any more, the current sequence halts, and all timers are
cancelled. -/
def stop (s : State) : State :=
  { s with running := false, halted := true, timers := s.timers.cancelAll.2 }

/-- Reports a fault to the host. -/
def report (s : State) (f : Fault) : State := s.say .error ("Error: " ++ f.message)

/-- Gives a variable a value. -/
def assign (s : State) (name : String) (scope : Scope) (v : Value) : State :=
  { s with store := s.store.assign name scope v }

/-- Takes a variable away. -/
def remove (s : State) (name : String) (scope : Scope) : State :=
  { s with store := s.store.remove name scope }

/-- The state with other local variables and another call depth. -/
def withScope (s : State) (locals : Table Value) (depth : Nat) : State :=
  { s with store := s.store.withLocals locals, depth := depth }

end State

end Colloquy
