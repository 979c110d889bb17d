import Colloquy.Token

/-!
# Syntax trees

A program is a list of statements. Statements and expressions carry the line of the token that gave
them their meaning, which is the line that a fault in them reports.
-/

namespace Colloquy

/-- Whether a name is marked with the word `global`. A plain name is written to the local table, and
read from the local table first and the global one after it. -/
inductive Scope where
  | plain
  | global
deriving DecidableEq

/-- The units in which the period of a timer is given. -/
inductive TimeUnit where
  | seconds
  | milliseconds
deriving DecidableEq

namespace TimeUnit

/-- The unit that a word names. -/
def ofWord? (word : String) : Option TimeUnit :=
  if word = "seconds" ∨ word = "second" then some .seconds
  else if word = "ms" ∨ word = "milliseconds" then some .milliseconds
  else none

/-- How many milliseconds a unit has. -/
def inMilliseconds : TimeUnit → Float
  | .seconds => 1000
  | .milliseconds => 1

end TimeUnit

/-- How often a timer event is due. -/
structure Schedule where
  interval : Float
  unit : TimeUnit
deriving DecidableEq

/-- The period of a schedule in milliseconds. -/
def Schedule.milliseconds (s : Schedule) : Float := s.interval * s.unit.inMilliseconds

/-- The values that can be written down directly. -/
inductive Literal where
  | number (value : Float)
  | text (value : String)
  | boolean (value : Bool)
deriving DecidableEq

/-- The operators with two operands. -/
inductive BinaryOp where
  | add | subtract | multiply | divide
  | equal | notEqual | greater | greaterEqual | less | lessEqual
  | and | or
deriving DecidableEq

namespace BinaryOp

/-- The shortest spelling of an operator. -/
def spelling : BinaryOp → String
  | .add => "+"
  | .subtract => "-"
  | .multiply => "*"
  | .divide => "/"
  | .equal => "=="
  | .notEqual => "!="
  | .greater => ">"
  | .greaterEqual => ">="
  | .less => "<"
  | .lessEqual => "<="
  | .and => "and"
  | .or => "or"

/-- Every operator. -/
def all : List BinaryOp :=
  [.add, .subtract, .multiply, .divide, .equal, .notEqual,
  .greater, .greaterEqual, .less, .lessEqual,
    .and, .or]

end BinaryOp

/-- The operators with one operand. -/
inductive UnaryOp where
  | not
  | negate
deriving DecidableEq

/-- Expressions. -/
inductive Expr where
  | literal (value : Literal) (line : Nat)
  | identifier (name : String) (scope : Scope) (line : Nat)
  | binary (op : BinaryOp) (left right : Expr) (line : Nat)
  | unary (op : UnaryOp) (operand : Expr) (line : Nat)
  | call (function : String) (args : List Expr) (line : Nat)
  | member (object property : Expr) (line : Nat)
  | list (elements : List Expr) (line : Nat)
  | record (fields : List (String × Expr)) (line : Nat)

/-- The line of an expression. -/
def Expr.line : Expr → Nat
  | .literal _ line | .identifier _ _ line | .binary _ _ _ line | .unary _ _ line | .call _ _ line
  | .member _ _ line | .list _ line | .record _ line => line

/-- Statements. A declaration is a statement that only makes sense at the top of a program. -/
inductive Stmt where
  | event (name : String) (timer : Option Schedule) (body : List Stmt) (line : Nat)
  | function (name : String) (params : List String) (body : List Stmt) (line : Nat)
  | assign (target : String) (scope : Scope) (value : Expr) (line : Nat)
  | increase (target : String) (scope : Scope) (amount : Expr) (line : Nat)
  | decrease (target : String) (scope : Scope) (amount : Expr) (line : Nat)
  | delete (target : String) (scope : Scope) (line : Nat)
  | call (function : String) (args : List Expr) (line : Nat)
  | ifElse (condition : Expr) (thenBody : List Stmt) (elseBody : Option (List Stmt)) (line : Nat)
  | whileLoop (condition : Expr) (body : List Stmt) (line : Nat)
  | forEach (item : String) (iterable : Expr) (body : List Stmt) (line : Nat)
  | print (value : Expr) (endsLine : Bool) (line : Nat)
  | giveBack (value : Option Expr) (line : Nat)
  | expression (value : Expr) (line : Nat)

namespace Stmt

/-- The line of a statement. -/
def line : Stmt → Nat
  | .event _ _ _ line | .function _ _ _ line | .assign _ _ _ line | .increase _ _ _ line
  | .decrease _ _ _ line | .delete _ _ line | .call _ _ line | .ifElse _ _ _ line
  | .whileLoop _ _ line | .forEach _ _ _ line | .print _ _ line | .giveBack _ line
  | .expression _ line => line

/-- Whether a statement declares an event or a function. -/
def isDeclaration : Stmt → Bool
  | .event .. | .function .. => true
  | _ => false

end Stmt

/-- A declared event. -/
structure EventDecl where
  name : String
  timer : Option Schedule
  body : List Stmt
  line : Nat

/-- A declared function. -/
structure FunctionDecl where
  name : String
  params : List String
  body : List Stmt
  line : Nat

/-- A whole program. -/
structure Program where
  body : List Stmt

namespace Program

/-- The statements of a program that are not declarations. -/
def statements (p : Program) : List Stmt := p.body.filter fun s => !s.isDeclaration

/-- The event that runs when a program starts. -/
def startEvent : String := "start"

/-- The name that all timer events share. -/
def timerEvent : String := "timer"

end Program

end Colloquy
