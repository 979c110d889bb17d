import Colloquy.Value

/-!
# Stores

A store holds the variables of a running program, in a local and a global table, and its
declarations. A plain name is read from the local table first and from the global one after it; a
write changes only the table that it names.
-/

namespace Colloquy

/-- The tables of a running program. -/
structure Store where
  locals : Table Value := []
  globals : Table Value := []
  functions : Table FunctionDecl := []
  events : Table EventDecl := []

namespace Store

/-- The table that a scope writes to. -/
def table (s : Store) : Scope → Table Value
  | .plain => s.locals
  | .global => s.globals

/-- The store with another table for a scope. -/
def withTable (s : Store) (scope : Scope) (t : Table Value) : Store :=
  match scope with
  | .plain => { s with locals := t }
  | .global => { s with globals := t }

/-- What a name stands for in one table. -/
def read (s : Store) (name : String) (scope : Scope) : Option Value := (s.table scope).get? name

/-- What a name stands for in an expression. -/
def lookup (s : Store) (name : String) : Scope → Option Value
  | .plain => (s.locals.get? name).or (s.globals.get? name)
  | .global => s.globals.get? name

/-- Gives a name a value in one table. -/
def assign (s : Store) (name : String) (scope : Scope) (v : Value) : Store :=
  s.withTable scope ((s.table scope).insert name v)

/-- Takes a name out of one table. -/
def remove (s : Store) (name : String) (scope : Scope) : Store :=
  s.withTable scope ((s.table scope).erase name)

/-- The store with other local variables. -/
def withLocals (s : Store) (locals : Table Value) : Store := { s with locals := locals }

/-- Declares a function, in place of one of the same name. -/
def declareFunction (s : Store) (f : FunctionDecl) : Store :=
  { s with functions := s.functions.insert f.name f }

/-- Declares an event, in place of one of the same name. -/
def declareEvent (s : Store) (e : EventDecl) : Store :=
  { s with events := s.events.insert e.name e }

/-- All variables in one table; where both tables have a name, the global one is shown. -/
def shownVariables (s : Store) : Table Value := s.locals.merge s.globals

/-- Declares what a statement declares. -/
def declare (s : Store) : Stmt → Store
  | .function name params body line => s.declareFunction ⟨name, params, body, line⟩
  | .event name timer body line => s.declareEvent ⟨name, timer, body, line⟩
  | _ => s

end Store

end Colloquy
