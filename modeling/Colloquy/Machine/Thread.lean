import Colloquy.State

/-!
# Threads

A thread is one sequence of statements under way. Its control says what it is about to do, and its
frames, the innermost first, say what is to be done with the outcome.
-/

namespace Colloquy

/-- How a row of statements ends: with its last statement, or by giving back a value. -/
inductive Flow where
  | done
  | gaveBack (value : Value)

/-- The value that a call has when the body of the function ends. -/
def Flow.value : Flow → Value
  | .done => .absent
  | .gaveBack v => v

/-- What a thread is about to do. -/
inductive Control where
  /-- Evaluate an expression. -/
  | eval (e : Expr)
  /-- Hand a value to the innermost frame. -/
  | value (v : Value)
  /-- Run statements. -/
  | block (body : List Stmt)
  /-- Go round a loop as long as its condition is true. -/
  | loop (condition : Expr) (body : List Stmt)
  /-- Run statements once for each item that is left. -/
  | items (item : String) (left : List Value) (body : List Stmt)
  /-- Hand the end of a row of statements to the innermost frame. -/
  | flow (f : Flow)
  /-- Leave the innermost frame because of a fault. -/
  | fault (f : Fault)
  /-- Ask the host for the answer to a prompt. -/
  | asking
  /-- Go on with the answer to a prompt. -/
  | answered (text : String)
  /-- Let others go first. -/
  | paused (next : Control)

/-- The ways of changing a number in place. -/
inductive Adjustment where
  | increase
  | decrease
deriving DecidableEq

namespace Adjustment

/-- The changed number. -/
def apply : Adjustment → Float → Float → Float
  | .increase, current, amount => current + amount
  | .decrease, current, amount => current - amount

/-- The error of changing what is not a number. -/
def refusal : Adjustment → RunError
  | .increase => .arithmeticOperands
  | .decrease => .typeMismatch "Cannot decrease non-numeric values"

end Adjustment

/-- What is to be done with an outcome. -/
inductive Frame where
  /-- The value is the left operand; the right one comes next. -/
  | leftOperand (op : BinaryOp) (right : Expr) (line : Nat)
  /-- The value is the right operand. -/
  | rightOperand (op : BinaryOp) (left : Value) (line : Nat)
  /-- The value is the only operand. -/
  | operand (op : UnaryOp) (line : Nat)
  /-- The value is an object; the property comes next. -/
  | object (property : Expr) (line : Nat)
  /-- The value is a property. -/
  | property (object : Value) (line : Nat)
  /-- The value is an argument; those before it are in reverse order. -/
  | argument (function : String) (done : List Value) (rest : List Expr) (line : Nat)
  /-- The value is an element of a list; those before it are in reverse order. -/
  | element (done : List Value) (rest : List Expr)
  /-- The value is a field of a record. -/
  | field (done : Table Value) (key : String) (rest : List (String × Expr))
  /-- The body of a function ends; its caller's variables and depth come back. -/
  | scope (saved : Table Value) (depth : Nat) (detached : Bool)
  /-- Statements that come next. -/
  | rest (body : List Stmt)
  /-- The value goes to a variable. -/
  | assign (target : String) (scope : Scope)
  /-- The value changes the number in a variable. -/
  | adjust (how : Adjustment) (target : String) (scope : Scope) (line : Nat)
  /-- The value is not needed. -/
  | discard
  /-- The value decides between two bodies. -/
  | branch (thenBody : List Stmt) (elseBody : Option (List Stmt))
  /-- The value decides whether a loop goes round once more. -/
  | test (condition : Expr) (body : List Stmt)
  /-- The body of a loop ends. -/
  | again (condition : Expr) (body : List Stmt)
  /-- The value holds the items to go through. -/
  | iterable (item : String) (body : List Stmt) (line : Nat)
  /-- The body of a loop over items ends. -/
  | nextItem (item : String) (left : List Value) (body : List Stmt)
  /-- The value is printed. -/
  | print (endsLine : Bool)
  /-- The value is given back. -/
  | giveBack
  /-- The start event ends; however it does, these statements come next. -/
  | mainLine (body : List Stmt)

/-- One sequence of statements under way. -/
structure Thread where
  control : Control
  frames : List Frame := []

/-- How a thread ends. -/
inductive Outcome where
  | value (v : Value)
  | flow (f : Flow)
  | fault (f : Fault)

namespace Thread

/-- How a thread has ended, if it has. -/
def outcome? (t : Thread) : Option Outcome :=
  match t.frames, t.control with
  | [], .value v => some (.value v)
  | [], .flow f => some (.flow f)
  | [], .fault f => some (.fault f)
  | _, _ => none

/-- Whether a thread lets others go first. -/
def isPaused (t : Thread) : Bool :=
  match t.control with
  | .paused _ => true
  | _ => false

/-- Whether a thread waits for an answer that is on its way. -/
def isAnswered (t : Thread) : Bool :=
  match t.control with
  | .answered _ => true
  | _ => false

/-- Whether a thread is about to ask the host for an answer. -/
def isAsking (t : Thread) : Bool :=
  match t.control with
  | .asking => true
  | _ => false

end Thread

end Colloquy
