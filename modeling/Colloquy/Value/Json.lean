import Colloquy.Value

/-!
# Values as JSON

Values are written as JSON in two ways: on one line without spaces, and with one item a line.
Numbers always show that they are not integers, and what JSON cannot express is null.
-/

namespace Colloquy

namespace Value

/-- Numbers are written positionally from 10 ^ -5 up to, but not including, 10 ^ 16. -/
def jsonNumber : Decimal.Layout :=
  { positional := fun leading => -5 ≤ leading && leading < 16, pointZero := true,
    signedZero := true, tie := .toEven, infinite := "null", undefined := "null" }

/-- A character inside a JSON string. -/
def jsonChar (c : Char) : List Char :=
  if c = '"' then ['\\', '"']
  else if c = '\\' then ['\\', '\\']
  else if c = '\n' then ['\\', 'n']
  else if c = '\r' then ['\\', 'r']
  else if c = '\t' then ['\\', 't']
  else if c.toNat = 8 then ['\\', 'b']
  else if c.toNat = 12 then ['\\', 'f']
  else if c.toNat < 32 then
    ['\\', 'u', '0', '0', Nat.digitChar (c.toNat / 16), Nat.digitChar (c.toNat % 16)]
  else [c]

/-- A JSON string. -/
def jsonString (s : String) : String :=
  "\"" ++ String.ofList (s.toList.flatMap jsonChar) ++ "\""

/-- A number, or null if it is not finite. -/
def jsonOfNumber (n : Float) : String :=
  if n.isFinite then jsonNumber.write n else "null"

mutual

/-- A value on one line. -/
def json : Value → String
  | .number n => jsonOfNumber n
  | .text s => jsonString s
  | .boolean b => TokenKind.booleanWord b
  | .absent => "null"
  | .list items => "[" ++ ",".intercalate (jsonItems items) ++ "]"
  | .record fields => "\x7b" ++ ",".intercalate (jsonFields fields) ++ "\x7d"

/-- Each of some values on one line. -/
def jsonItems : List Value → List String
  | [] => []
  | item :: rest => item.json :: jsonItems rest

/-- Each of some fields on one line. -/
def jsonFields : List (String × Value) → List String
  | [] => []
  | (key, value) :: rest => (jsonString key ++ ":" ++ value.json) :: jsonFields rest

end

/-- Two spaces for each level. -/
def indentation (level : Nat) : String := String.ofList (List.replicate (2 * level) ' ')

/-- Parts one a line between two brackets; without parts the brackets stand together. -/
def bracketed (left right : String) (level : Nat) (parts : List String) : String :=
  if parts.isEmpty then left ++ right
  else
    left ++ "\n" ++ ",\n".intercalate (parts.map (indentation (level + 1) ++ ·)) ++ "\n" ++
      indentation level ++ right

mutual

/-- A value with one item a line, inside so many levels. -/
def prettyJson (level : Nat) : Value → String
  | .number n => jsonOfNumber n
  | .text s => jsonString s
  | .boolean b => TokenKind.booleanWord b
  | .absent => "null"
  | .list items => bracketed "[" "]" level (prettyItems (level + 1) items)
  | .record fields => bracketed "\x7b" "\x7d" level (prettyFields (level + 1) fields)

/-- Each of some values with one item a line. -/
def prettyItems (level : Nat) : List Value → List String
  | [] => []
  | item :: rest => item.prettyJson level :: prettyItems level rest

/-- Each of some fields with one item a line. -/
def prettyFields (level : Nat) : List (String × Value) → List String
  | [] => []
  | (key, value) :: rest =>
    (jsonString key ++ ": " ++ value.prettyJson level) :: prettyFields level rest

end

end Value

end Colloquy
