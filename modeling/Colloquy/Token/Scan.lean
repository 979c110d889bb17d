import Colloquy.Text.Letter
import Colloquy.Decimal.Numeral
import Colloquy.Token

/-!
# Scanning

A scanner reads a source text one character at a time, knowing the character after it. What it is in
the middle of is its `Mode`; a token is emitted with its last character. After each line break the
leading width of the next line is measured and compared with the widths of the open blocks, which
gives the layout tokens. Lines that are blank or hold only a comment have no layout, and the first
line of a text is not measured.

An unreadable character stops the scanner just after that character. It can go on from there: what
it has collected so far and the open blocks stay with it.
-/

namespace Colloquy

/-- Why a text cannot be split into tokens. -/
inductive ScanProblem where
  | unterminatedString
  | unexpectedCharacter (c : Char)
deriving DecidableEq

/-- The words for a problem. -/
def ScanProblem.message : ScanProblem → String
  | .unterminatedString => "Unterminated string"
  | .unexpectedCharacter c => "Unexpected character '" ++ c.toString ++ "'"

/-- A problem and the place where it begins. -/
structure ScanError where
  problem : ScanProblem
  position : Position
deriving DecidableEq

/-- The report of a scan error. -/
def ScanError.message (e : ScanError) : String :=
  e.problem.message ++ " at line " ++ toString e.position.line ++
    ", column " ++ toString e.position.column

/-- What a scanner is in the middle of. The characters read so far are kept in reverse. -/
inductive Mode where
  /-- Between two tokens. -/
  | between
  /-- In the white space that begins a line, of this width so far. -/
  | lineStart (width : Nat)
  /-- In a comment, which ends before the next line break. -/
  | comment
  | word (start : Position) (read : List Char)
  /-- In a number, before any point. -/
  | whole (start : Position) (read : List Char)
  /-- In a number, after its point. -/
  | fraction (start : Position) (read : List Char)
  /-- In a string that this quote will close. -/
  | quoted (start : Position) (quote : Char) (read : List Char)
  /-- In a string, after a backslash. -/
  | escaped (start : Position) (quote : Char) (read : List Char)
  /-- Before the second half of a symbol of two characters. -/
  | pair (start : Position) (first : Char) (sign : Symbol)
deriving DecidableEq

/-- A scanner: the characters still to be read, the place of the first of them, what it is in the
middle of, the widths of the open blocks with the innermost first, and the tokens since the last
complete list, in reverse. -/
structure Scanner where
  unread : List Char
  position : Position
  mode : Mode
  blocks : List Nat
  emitted : List Token
deriving DecidableEq

namespace Scanner

/-- A scanner at the beginning of a text. -/
def start (source : List Char) : Scanner :=
  { unread := source, position := .start, mode := .between, blocks := [], emitted := [] }

/-- The width that a tab adds to the beginning of a line. -/
def tabWidth : Nat := 4

/-- The symbols of one character that begin no longer symbol. -/
def symbol? : Char → Option Symbol
  | '+' => some .plus
  | '-' => some .minus
  | '*' => some .star
  | '/' => some .slash
  | '<' => some .less
  | '>' => some .greater
  | '(' => some .leftParen
  | ')' => some .rightParen
  | '[' => some .leftBracket
  | ']' => some .rightBracket
  | '\x7b' => some .leftBrace
  | '\x7d' => some .rightBrace
  | ',' => some .comma
  | ':' => some .colon
  | '.' => some .dot
  | _ => none

/-- The symbols of two characters by their first; the second is an equals sign. -/
def pairSymbol? : Char → Option Symbol
  | '=' => some .equalEqual
  | '!' => some .notEqual
  | '<' => some .lessEqual
  | '>' => some .greaterEqual
  | _ => none

/-- Appends a token. -/
def emit (s : Scanner) (kind : TokenKind) (text : String) (position : Position) : Scanner :=
  { s with emitted := ⟨kind, text, position⟩ :: s.emitted }

/-- Appends the token of a word. -/
def emitWord (s : Scanner) (start : Position) (read : List Char) : Scanner :=
  let word := String.ofList read.reverse
  s.emit (.ofWord word) word start

/-- The number that digits with at most one point among them denote. -/
def numberOf (text : List Char) : Float :=
  (Decimal.digitNumeral? text).getD 0

/-- Appends the token of a number. -/
def emitNumber (s : Scanner) (start : Position) (read : List Char) : Scanner :=
  s.emit (.number (numberOf read.reverse)) (String.ofList read.reverse) start

/-- Appends the token of a string; its characters are kept as they are written. -/
def emitString (s : Scanner) (start : Position) (quote : Char) (read : List Char) : Scanner :=
  s.emit (.string (String.ofList read.reverse))
  (String.ofList (quote :: read.reverse ++ [quote])) start

/-- Appends one end of block for each of the widths. -/
def emitDedents (s : Scanner) (closed : List Nat) : Scanner :=
  closed.foldl (fun s _ => s.emit .dedent "" s.position) s

/-- Compares the width of a line with the open blocks: a wider line opens a block, a narrower one
closes all blocks that are wider than it. -/
def measure (s : Scanner) (width : Nat) : Scanner :=
  if s.blocks.headD 0 < width then
    { s with blocks := width :: s.blocks }.emit .indent "" s.position
  else
    { s with blocks := s.blocks.dropWhile (width < ·) }.emitDedents (s.blocks.takeWhile (width < ·))

/-- The mode of a scanner inside a number of which this character is the last read. -/
def inWhole (s : Scanner) (start : Position) (read : List Char) (next : Option Char) : Scanner :=
  if next.any fun c => c.isDigit || c == '.' then { s with mode := .whole start read }
  else { s with mode := .between }.emitNumber start read

/-- Reads a character of a word. -/
def inWord (s : Scanner) (start : Position) (read : List Char) (next : Option Char) : Scanner :=
  if next.any Text.isWordChar then { s with mode := .word start read }
  else { s with mode := .between }.emitWord start read

/-- Reads a character after the point of a number. -/
def inFraction (s : Scanner) (start : Position) (read : List Char) (next : Option Char) : Scanner :=
  if next.any Char.isDigit then { s with mode := .fraction start read }
  else { s with mode := .between }.emitNumber start read

/-- A comment begins with a number sign or with two slashes. -/
def beginsComment (c : Char) (next : Option Char) : Bool :=
  c == '#' || (c == '/' && next == some '/')

/-- Reads a character where a new token may begin. -/
def fresh (s : Scanner) (c : Char) (next : Option Char) : Option ScanError × Scanner :=
  let s := { s with mode := .between }
  if c = ' ' ∨ c = '\t' ∨ c = '\r' then (none, s)
  else if c = '\n' then (none, { s with mode := .lineStart 0 }.emit .newline "\n" s.position)
  else if beginsComment c next then (none, { s with mode := .comment })
  else if c = '"' ∨ c = '\'' then (none, { s with mode := .quoted s.position c [] })
  else if c.isDigit then (none, s.inWhole s.position [c] next)
  else if Text.isWordStart c then (none, s.inWord s.position [c] next)
  else
    match (if next = some '=' then pairSymbol? c else none) with
    | some sign => (none, { s with mode := .pair s.position c sign })
    | none =>
      match symbol? c with
      | some sign => (none, s.emit (.symbol sign) c.toString s.position)
      | none => (some ⟨.unexpectedCharacter c, s.position⟩, s)

/-- Reads one character, except for moving past it. -/
def react (s : Scanner) (c : Char) (next : Option Char) : Option ScanError × Scanner :=
  match s.mode with
  | .between => s.fresh c next
  | .lineStart width =>
    if c = ' ' then (none, { s with mode := .lineStart (width + 1) })
    else if c = '\t' then (none, { s with mode := .lineStart (width + tabWidth) })
    else if c = '\n' ∨ c = '\r' ∨ beginsComment c next then s.fresh c next
    else (s.measure width).fresh c next
  | .comment => if c = '\n' then s.fresh c next else (none, s)
  | .word start read => (none, s.inWord start (c :: read) next)
  | .whole start read =>
    if c.isDigit then (none, s.inWhole start (c :: read) next)
    else if next.any Char.isDigit then (none, { s with mode := .fraction start (c :: read) })
    else (s.emitNumber start read).fresh c next
  | .fraction start read => (none, s.inFraction start (c :: read) next)
  | .quoted start quote read =>
    if c = quote then (none, { s with mode := .between }.emitString start quote read)
    else if c = '\\' then (none, { s with mode := .escaped start quote (c :: read) })
    else (none, { s with mode := .quoted start quote (c :: read) })
  | .escaped start quote read => (none, { s with mode := .quoted start quote (c :: read) })
  | .pair start first sign =>
    (none, { s with mode := .between }.emit (.symbol sign) (String.ofList [first, c]) start)

/-- The scanner past one character. -/
def past (s : Scanner) (c : Char) (rest : List Char) : Scanner :=
  { s with unread := rest, position := s.position.after c }

/-- Reads characters until the text ends or one of them cannot be read. -/
def readAll (s : Scanner) : List Char → Option ScanError × Scanner
  | [] => (none, { s with unread := [] })
  | c :: rest =>
    match s.react c rest.head? with
    | (none, s') => (s'.past c rest).readAll rest
    | (some e, s') => (some e, s'.past c rest)

/-- Closes what is open at the end of a text. -/
def close (s : Scanner) : Scanner :=
  { s with blocks := [] }.emitDedents s.blocks

/-- The complete list of tokens, and the scanner that has handed it out. -/
def finish (s : Scanner) : Except ScanError (List Token) × Scanner :=
  match s.mode with
  | .quoted start _ _ | .escaped start _ _ =>
    (.error ⟨.unterminatedString, start⟩, { s with mode := .between })
  | _ =>
    let closed := s.close.emit .eof "" s.position
    (.ok closed.emitted.reverse, { closed with emitted := [], mode := .between })

/-- Scans up to the end of the text, or up to the first problem. -/
def tokenize (s : Scanner) : Except ScanError (List Token) × Scanner :=
  match s.readAll s.unread with
  | (some e, s') => (.error e, s')
  | (none, s') => s'.finish

/-- The outcomes of several scans in a row. -/
def attempts : Nat → Scanner → List (Except ScanError (List Token))
  | 0, _ => []
  | n + 1, s => s.tokenize.1 :: attempts n s.tokenize.2

end Scanner

/-- The tokens of a source text. -/
def tokenize (source : String) : Except ScanError (List Token) :=
  (Scanner.start source.toList).tokenize.1

/-- A result of which something is known is there. -/
theorem exists_ok {ε α β : Type} {x : Except ε α} {f : α → β} {b : β}
    (h : x.toOption.map f = some b) : ∃ a, x = .ok a ∧ f a = b := by
  cases x with
  | error e => cases h
  | ok a => exact ⟨a, rfl, Option.some.inj h⟩

end Colloquy
