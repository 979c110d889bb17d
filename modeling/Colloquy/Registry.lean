/-!
# The timer registry

Timers have numbers, handed out in ascending order from one. A timer is live from its registration
until it is cancelled or completed; cancelling a live timer also raises its flag, which the timer
looks at whenever it waits.
-/

namespace Colloquy

/-- Which timers were registered, which of them are live, and which were cancelled. -/
structure Registry where
  issued : Nat := 0
  live : List Nat := []
  cancelled : List Nat := []
deriving DecidableEq

namespace Registry

/-- Registers a timer under the next number. -/
def register (r : Registry) : Nat × Registry :=
  (r.issued + 1, { r with issued := r.issued + 1, live := r.live ++ [r.issued + 1] })

/-- Cancels a timer and tells whether it was live. -/
def cancel (r : Registry) (id : Nat) : Bool × Registry :=
  if id ∈ r.live then
    (true, { r with live := r.live.filter (· ≠ id), cancelled := id :: r.cancelled })
  else (false, r)

/-- Cancels every live timer and tells how many there were. -/
def cancelAll (r : Registry) : Nat × Registry :=
  (r.live.length, { r with live := [], cancelled := r.live ++ r.cancelled })

/-- Takes a timer that has ended out of the live ones. -/
def complete (r : Registry) (id : Nat) : Registry := { r with live := r.live.filter (· ≠ id) }

/-- Whether the flag of a timer is raised. -/
def isCancelled (r : Registry) (id : Nat) : Bool := id ∈ r.cancelled

/-- How many timers are live. -/
def size (r : Registry) : Nat := r.live.length

/-- Whether no timer is live. -/
def isEmpty (r : Registry) : Bool := r.live.isEmpty

end Registry

end Colloquy
