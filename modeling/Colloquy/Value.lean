import Colloquy.Text.Blank
import Colloquy.Decimal.Numeral
import Colloquy.Syntax
import Colloquy.Table
import Colloquy.Fault

/-!
# Values

The values that programs compute with, how they are shown, when they count as true, how they
compare, and what their members are.
-/

namespace Colloquy

/-- Values. The fields of a record are in ascending order of their names. -/
inductive Value where
  | number (n : Float)
  | text (s : String)
  | boolean (b : Bool)
  | list (items : List Value)
  | record (fields : List (String × Value))
  | absent

namespace Value

instance : Inhabited Value := ⟨.absent⟩

/-- The value of a literal. -/
def ofLiteral : Literal → Value
  | .number n => .number n
  | .text s => .text s
  | .boolean b => .boolean b

/-- The name of a value's type. -/
def typeName : Value → String
  | .number _ => "number"
  | .text _ => "string"
  | .boolean _ => "boolean"
  | .list _ => "list"
  | .record _ => "record"
  | .absent => "null"

/-- Whether a value counts as true. -/
def isTruthy : Value → Bool
  | .absent => false
  | .boolean b => b
  | .number n => n != 0 && !n.isNaN
  | .text s => s != ""
  | .list _ | .record _ => true

/-- The number that a value is. -/
def number? : Value → Option Float
  | .number n => some n
  | _ => none

/-- Numbers are shown positionally from a millionth up to, but not including, 10 ^ 21. -/
def numberLayout : Decimal.Layout :=
  { positional := fun leading => -6 ≤ leading && leading < 21, pointZero := false,
    signedZero := false, tie := .up, infinite := "Infinity", undefined := "NaN" }

mutual

/-- How a value is shown. -/
def display : Value → String
  | .number n => numberLayout.write n
  | .text s => s
  | .boolean b => TokenKind.booleanWord b
  | .list items => ", ".intercalate (displayItems items)
  | .record fields => "\x7b" ++ ", ".intercalate (displayFields fields) ++ "\x7d"
  | .absent => "null"

/-- How each of some values is shown. -/
def displayItems : List Value → List String
  | [] => []
  | item :: rest => item.display :: displayItems rest

/-- How each of some fields is shown. -/
def displayFields : List (String × Value) → List String
  | [] => []
  | (key, value) :: rest => (key ++ ": " ++ value.display) :: displayFields rest

end

mutual

/-- Whether two values are equal. Values of different types never are, and numbers are compared as
numbers: the two zeros are equal, and what is not a number differs from itself. -/
def equals : Value → Value → Bool
  | .number a, .number b => a == b
  | .text a, .text b => a == b
  | .boolean a, .boolean b => a == b
  | .list a, .list b => equalItems a b
  | .record a, .record b => equalFields a b
  | .absent, .absent => true
  | _, _ => false

/-- Whether two lists have equal items. -/
def equalItems : List Value → List Value → Bool
  | [], [] => true
  | a :: as, b :: bs => a.equals b && equalItems as bs
  | _, _ => false

/-- Whether two records have the same fields. -/
def equalFields : List (String × Value) → List (String × Value) → Bool
  | [], [] => true
  | (k, a) :: as, (l, b) :: bs => k == l && a.equals b && equalFields as bs
  | _, _ => false

end

/-- What typed text stands for: a number if it reads as a finite one, and otherwise itself. -/
def ofInput (text : String) : Value :=
  match Decimal.read? (Text.trim text.toList) with
  | some n => if n.isFinite then .number n else .text text
  | none => .text text

/-- The number by which a value is ordered beside values of another type. -/
def orderingNumber? : Value → Option Float
  | .number n => some n
  | .boolean b => some (if b then 1 else 0)
  | .text s =>
    let trimmed := Text.trim s.toList
    if trimmed.isEmpty then some 0 else Decimal.read? trimmed
  | _ => none

/-- How two numbers compare; what is not a number compares with nothing. -/
def compareNumbers (a b : Float) : Option Ordering :=
  if a < b then some .lt else if a == b then some .eq else if b < a then some .gt else none

/-- How two values compare: texts by their characters, all else as numbers. -/
def compare? : Value → Value → Option Ordering
  | .number a, .number b => compareNumbers a b
  | .text a, .text b => some (compare a b)
  | a, b =>
    match a.orderingNumber?, b.orderingNumber? with
    | some m, some n => compareNumbers m n
    | _, _ => none

/-- The natural number that a number is; only such numbers count places. -/
def place? (n : Float) : Option Nat :=
  if Decimal.isNegative n && n != 0 then none
  else
    match Decimal.magnitude? n with
    | none => none
    | some x =>
      let (num, den) := x.ratio
      if num % den = 0 then some (num / den) else none

/-- The number of items or of characters. -/
def size? : Value → Option Nat
  | .list items => some items.length
  | .text s => some s.length
  | _ => none

/-- A natural number as a value. -/
def ofNat (n : Nat) : Value := .number (Decimal.nearest n 1)

/-- The member of a value that is not its length. -/
def memberBeside : Value → Value → Except RunError Value
  | .absent, _ => .error .nullAccess
  | .list items, .number n => .ok (((place? n).bind fun i => items[i]?).getD .absent)
  | .text s, .number n =>
    .ok (((place? n).bind fun i => s.toList[i]?).elim .absent fun c => .text c.toString)
  | .record fields, key => .ok ((Table.get? fields key.display).getD .absent)
  | _, _ => .ok .absent

/-- The member of a value: the length of a list or text, an item or character by its place from
zero, or a field by its name. What a value does not have is absent, and only the absent value has no
members at all. -/
def member (object property : Value) : Except RunError Value :=
  match property, object.size? with
  | .text "length", some n => .ok (ofNat n)
  | _, _ => memberBeside object property

end Value

end Colloquy
