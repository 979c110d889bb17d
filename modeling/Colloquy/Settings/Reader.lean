import Colloquy.Settings.Item

/-!
# Reading TOML documents

A document is read line by line: a line is empty, gives a key its item, or puts the header of a
table, and may end in a comment. Strings stand between double quotes, where a backslash begins an
escape, or between single quotes, where nothing does.
-/

namespace Colloquy.Toml

/-- Reads something at the beginning of a text and leaves the rest. -/
abbrev Reader (α : Type) : Type := StateT (List Char) Option α

/-- Whether a character divides words within a line. -/
def isSpace (c : Char) : Bool := c = ' ' || c = '\t'

/-- Whether a character may stand in a comment or a string. -/
def isPrintable (c : Char) : Bool := c = '\t' || (0x20 ≤ c.toNat && c.toNat ≠ 0x7f)

/-- Whether a character may stand in a key without quotes. -/
def isKeyChar (c : Char) : Bool := c.isAlphanum || c = '_' || c = '-'

/-- Whether a character may stand in a number or in a truth value. -/
def isScalarChar (c : Char) : Bool := isKeyChar c || c = '+' || c = '.'

/-- The value of a hexadecimal digit. -/
def hexDigit? (c : Char) : Option Nat :=
  if c.isDigit then some (c.toNat - 48)
  else if 'a' ≤ c && c ≤ 'f' then some (c.toNat - 87)
  else if 'A' ≤ c && c ≤ 'F' then some (c.toNat - 55)
  else none

/-- The character whose number has these hexadecimal digits. -/
def charOfHex? (digits : List Char) : Option Char := do
  let values ← digits.mapM hexDigit?
  let code := values.foldl (fun n d => 16 * n + d) 0
  if code.isValidChar then some (Char.ofNat code) else none

/-- The character that a letter after a backslash stands for. -/
def escape? : Char → Option Char
  | 'b' => some '\x08'
  | 't' => some '\t'
  | 'n' => some '\n'
  | 'f' => some '\x0c'
  | 'r' => some '\r'
  | '"' => some '"'
  | '\\' => some '\\'
  | _ => none

/-- The rest of a string between double quotes. -/
def basicRest : List Char → Option (List Char × List Char)
  | [] => none
  | '"' :: rest => some ([], rest)
  | '\\' :: 'u' :: a :: b :: c :: d :: rest => do
    let char ← charOfHex? [a, b, c, d]
    let (chars, rest) ← basicRest rest
    return (char :: chars, rest)
  | '\\' :: 'U' :: a :: b :: c :: d :: e :: f :: g :: h :: rest => do
    let char ← charOfHex? [a, b, c, d, e, f, g, h]
    let (chars, rest) ← basicRest rest
    return (char :: chars, rest)
  | '\\' :: c :: rest => do
    let char ← escape? c
    let (chars, rest) ← basicRest rest
    return (char :: chars, rest)
  | c :: rest =>
    if isPrintable c && c ≠ '\\' then do
      let (chars, rest) ← basicRest rest
      return (c :: chars, rest)
    else none

/-- The rest of a string between single quotes. -/
def literalRest : List Char → Option (List Char × List Char)
  | [] => none
  | c :: rest =>
    if c = '\'' then some ([], rest)
    else if isPrintable c then do
      let (chars, rest) ← literalRest rest
      return (c :: chars, rest)
    else none

namespace Reader

/-- The next character, which stays. -/
def peek : Reader (Option Char) := do return (← get).head?

/-- Passes the next character. -/
def skip : Reader Unit := modify List.tail

/-- Passes one character if it is the next. -/
def accept (c : Char) : Reader Bool := do
  if (← peek) = some c then
    skip
    return true
  else return false

/-- Passes one character, which has to be the next. -/
def require (c : Char) : Reader Unit := do
  if !(← accept c) then failure

/-- Passes characters of a class. -/
def span (p : Char → Bool) : Reader (List Char) := do
  let text ← get
  set (text.dropWhile p)
  return text.takeWhile p

/-- Passes spaces. -/
def spaces : Reader Unit := do
  let _ ← span isSpace

/-- A string in quotes. -/
def quoted (rest : List Char → Option (List Char × List Char)) : Reader String := do
  skip
  let (chars, after) ← rest (← get)
  set after
  return String.ofList chars

/-- One part of a key. -/
def keyPart : Reader String := do
  match ← peek with
  | some '"' => quoted basicRest
  | some '\'' => quoted literalRest
  | _ =>
    let chars ← span isKeyChar
    if chars.isEmpty then failure else return String.ofList chars

/-- A key with at most so many parts. -/
def key : Nat → Reader (List String)
  | 0 => failure
  | parts + 1 => do
    let part ← keyPart
    spaces
    if ← accept '.' then
      spaces
      return part :: (← key parts)
    else return [part]

/-- Passes a comment. -/
def comment : Reader Unit := do
  if ← accept '#' then
    let _ ← span isPrintable

/-- Passes the end of a line, if there is one; at the end of the text none is needed. -/
def lineEnd : Reader Unit := do
  match ← get with
  | [] => return
  | '\n' :: rest => set rest
  | '\r' :: '\n' :: rest => set rest
  | _ => failure

/-- Passes spaces, comments and ends of lines, at most so many. -/
def gap : Nat → Reader Unit
  | 0 => return
  | steps + 1 => do
    spaces
    comment
    match ← get with
    | '\n' :: rest =>
      set rest
      gap steps
    | '\r' :: '\n' :: rest =>
      set rest
      gap steps
    | _ => return

end Reader

/-- Digits of a class, with single underscores between them. -/
def digits? (p : Char → Bool) : List Char → Option (List Char)
  | [] => none
  | [c] => if p c then some [c] else none
  | c :: '_' :: rest => if p c then (digits? p rest).map (c :: ·) else none
  | c :: rest => if p c then (digits? p rest).map (c :: ·) else none

/-- The number with these digits. -/
def valueIn (base : Nat) (digits : List Char) : Nat :=
  digits.foldl (fun n c => base * n + (hexDigit? c).getD 0) 0

/-- A whole number in decimal notation, without a leading zero. -/
def decimal? (word : List Char) : Option Nat := do
  let digits ← digits? Char.isDigit word
  if digits.head? = some '0' && digits.length ≠ 1 then none else some (valueIn 10 digits)

/-- A whole number with a sign. -/
def signed? : List Char → Option Int
  | '-' :: word => (decimal? word).map fun n => -(n : Int)
  | '+' :: word => (decimal? word).map Int.ofNat
  | word => (decimal? word).map Int.ofNat

/-- A whole number, also with base 16, 8 or 2. -/
def integer? : List Char → Option Int
  | '0' :: 'x' :: word =>
    (digits? (fun c => (hexDigit? c).isSome) word).map fun ds => Int.ofNat (valueIn 16 ds)
  | '0' :: 'o' :: word =>
    (digits? (fun c => '0' ≤ c && c ≤ '7') word).map fun ds => Int.ofNat (valueIn 8 ds)
  | '0' :: 'b' :: word =>
    (digits? (fun c => c = '0' || c = '1') word).map fun ds => Int.ofNat (valueIn 2 ds)
  | word => signed? word

/-- Whether a whole number fits into 64 bits with a sign. -/
def fits (n : Int) : Bool := -9223372036854775808 ≤ n && n < 9223372036854775808

/-- A word without its sign. -/
def unsignedPart : List Char → List Char
  | '-' :: word | '+' :: word => word
  | word => word

/-- Whether a word is a number that is not whole. -/
def isFloat (word : List Char) : Bool :=
  let bare := unsignedPart word
  let (mantissa, exponent) := bare.span fun c => c ≠ 'e' && c ≠ 'E'
  let (whole, fraction) := mantissa.span (· ≠ '.')
  bare = "inf".toList || bare = "nan".toList ||
    ((decimal? whole).isSome && !(fraction.isEmpty && exponent.isEmpty) &&
      (fraction.isEmpty || (digits? Char.isDigit fraction.tail).isSome) &&
      (exponent.isEmpty || (digits? Char.isDigit (unsignedPart exponent.tail)).isSome))

/-- The item that a word without quotes spells. -/
def scalar? (word : List Char) : Option Item :=
  if word = "true".toList then some (.boolean true)
  else if word = "false".toList then some (.boolean false)
  else
    match integer? word with
    | some n => if fits n then some (.integer n) else none
    | none => if isFloat word then some .float else none

namespace Reader

/-- The items of an array up to its end, at most so many. -/
def elements (item : Reader Item) (room : Nat) : Nat → Reader (List Item)
  | 0 => failure
  | count + 1 => do
    gap room
    if ← accept ']' then return []
    else
      let first ← item
      gap room
      if ← accept ',' then return first :: (← elements item room count)
      else
        require ']'
        return [first]

/-- The entries of a table in line up to its end, at most so many. -/
def entries (item : Reader Item) (room : Nat) : Nat → Draft → Reader Draft
  | 0, _ => failure
  | count + 1, d => do
    spaces
    let keys ← key room
    require '='
    spaces
    let value ← item
    let d ← (d.assign keys value : Option Draft)
    spaces
    if ← accept ',' then entries item room count d
    else
      require '\x7d'
      return d

/-- The item after the sign of equality, nested at most so deep, in a text of at most so many
characters. -/
def item (room : Nat) : Nat → Reader Item
  | 0 => failure
  | depth + 1 => do
    match ← peek with
    | some '"' => return .string (← quoted basicRest)
    | some '\'' => return .string (← quoted literalRest)
    | some '[' =>
      skip
      return .array (← elements (item room depth) room room)
    | some '\x7b' =>
      skip
      spaces
      if ← accept '\x7d' then return .table .inline []
      else
        let d ← entries (item room depth) room room {}
        return .table .inline d.entries
    | _ => (scalar? (← span isScalarChar) : Option Item)

/-- A document under construction, and the path of the last header. -/
structure Progress where
  root : Draft := {}
  path : List String := []

/-- One line of a document of at most so many characters. -/
def line (room : Nat) (p : Progress) : Reader Progress := do
  spaces
  let next ← match ← peek with
    | none | some '\n' | some '\r' | some '#' => pure p
    | some '[' => do
      skip
      spaces
      let keys ← key room
      require ']'
      let root ← (p.root.putHeader keys : Option Draft)
      pure ⟨root, keys⟩
    | some _ => do
      let keys ← key room
      require '='
      spaces
      let value ← item room room
      let root ← (p.root.update .implied (Draft.assign keys value) p.path : Option Draft)
      pure { p with root := root }
  spaces
  comment
  lineEnd
  return next

/-- The lines of a document, at most so many. -/
def lines (room : Nat) : Nat → Progress → Reader Progress
  | 0, p => return p
  | count + 1, p => do
    if (← get).isEmpty then return p
    else lines room count (← line room p)

end Reader

/-- The table that a document spells. A mark of byte order at the beginning is passed. -/
def read? (document : String) : Option (Table Item) :=
  let text := match document.toList with
    | '\ufeff' :: rest => rest
    | text => text
  let room := text.length + 1
  ((Reader.lines room room {}).run text).map fun (p, _) => p.root.entries

end Colloquy.Toml
