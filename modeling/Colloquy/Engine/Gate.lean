/-!
# The gate

Only the task that holds the gate runs statements. Tasks that find it taken wait in the order in
which they came, and whoever leaves hands it to the first of them.
-/

namespace Colloquy

/-- The number of a task. -/
abbrev TaskId : Type := Nat

/-- Who holds the gate and who waits for it. -/
structure Gate where
  holder : Option TaskId := none
  waiting : List TaskId := []
deriving DecidableEq

namespace Gate

/-- Takes the gate if it is free, and otherwise goes to the end of the queue. -/
def request (g : Gate) (id : TaskId) : Gate :=
  match g.holder with
  | none => { g with holder := some id }
  | some _ => { g with waiting := g.waiting ++ [id] }

/-- Hands the gate to the first who waits. -/
def release (g : Gate) : Gate := ⟨g.waiting.head?, g.waiting.tail⟩

/-- Gives up the gate, or the wait for it. -/
def withdraw (g : Gate) (id : TaskId) : Gate :=
  if g.holder = some id then g.release else { g with waiting := g.waiting.filter (· ≠ id) }

end Gate

end Colloquy
