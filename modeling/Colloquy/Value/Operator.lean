import Colloquy.Value

/-!
# Operators on values

What the operators compute once their operands are known.
-/

namespace Colloquy

namespace Value

/-- An operation on two numbers. -/
def arithmetic (f : Float → Float → Except RunError Float) : Value → Value → Except RunError Value
  | .number a, .number b => (f a b).map .number
  | _, _ => .error .arithmeticOperands

/-- The sum of two numbers, or the texts of two values joined if one of them is a text. -/
def add : Value → Value → Except RunError Value
  | .text a, b => .ok (.text (a ++ b.display))
  | a, .text b => .ok (.text (a.display ++ b))
  | a, b => arithmetic (fun a b => .ok (a + b)) a b

/-- The quotient of two numbers; zero divides nothing. -/
def divide : Value → Value → Except RunError Value :=
  arithmetic fun a b => if b == 0 then .error .divisionByZero else .ok (a / b)

/-- What an operator makes of its operands. -/
def apply (op : BinaryOp) (a b : Value) : Except RunError Value :=
  match op with
  | .add => add a b
  | .subtract => arithmetic (fun a b => .ok (a - b)) a b
  | .multiply => arithmetic (fun a b => .ok (a * b)) a b
  | .divide => divide a b
  | .equal => .ok (.boolean (a.equals b))
  | .notEqual => .ok (.boolean (!a.equals b))
  | .greater => .ok (.boolean (a.compare? b == some .gt))
  | .greaterEqual => .ok (.boolean (a.compare? b == some .gt || a.compare? b == some .eq))
  | .less => .ok (.boolean (a.compare? b == some .lt))
  | .lessEqual => .ok (.boolean (a.compare? b == some .lt || a.compare? b == some .eq))
  | .and => .ok (if a.isTruthy then b else a)
  | .or => .ok (if a.isTruthy then a else b)

/-- The operand on the left, if it alone decides a logical operator. -/
def settles? (op : BinaryOp) (a : Value) : Option Value :=
  match op with
  | .and => if a.isTruthy then none else some a
  | .or => if a.isTruthy then some a else none
  | _ => none

/-- What an operator makes of one operand. -/
def applyUnary (op : UnaryOp) (a : Value) : Except RunError Value :=
  match op, a with
  | .not, a => .ok (.boolean (!a.isTruthy))
  | .negate, .number n => .ok (.number (-n))
  | .negate, _ => .error (.typeMismatch "Cannot negate non-numeric values")

end Value

end Colloquy
