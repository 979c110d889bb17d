import Colloquy.Decimal.Layout

/-!
# Tokens

A source text is read as a row of tokens: words and literals, the fixed words and symbols of the
language, and the layout tokens that mark the ends of lines and the beginnings and ends of indented
blocks.
-/

namespace Colloquy

/-- A place in a source text. Lines and columns count from one, offsets from zero, all in
characters. -/
structure Position where
  line : Nat
  column : Nat
  offset : Nat
deriving DecidableEq

namespace Position

/-- The first place of a text. -/
def start : Position := ⟨1, 1, 0⟩

/-- The place after reading one character at this place. -/
def after (p : Position) (c : Char) : Position :=
  if c = '\n' then ⟨p.line + 1, 1, p.offset + 1⟩ else ⟨p.line, p.column + 1, p.offset + 1⟩

end Position

/-- The words that have a meaning of their own. -/
inductive Keyword where
  | when | program | starts | start | every | to | remember | var | set | as | global | increase
  | decrease | add | subtract | multiply | divide | byWord | fromWord | delete | store | result
  | ifWord | elseWord | whileWord | repeatWord | forWord | inWord | give | back | terminate | say
  | display | ask | usingWord | withWord | and | or | not | the | is | equal | greater | less | than
  | more | atWord | least | most | followed | divided | of | list | length
deriving DecidableEq

namespace Keyword

/-- How a keyword is written. -/
def spelling : Keyword → String
  | .when => "when"
  | .program => "program"
  | .starts => "starts"
  | .start => "start"
  | .every => "every"
  | .to => "to"
  | .remember => "remember"
  | .var => "var"
  | .set => "set"
  | .as => "as"
  | .global => "global"
  | .increase => "increase"
  | .decrease => "decrease"
  | .add => "add"
  | .subtract => "subtract"
  | .multiply => "multiply"
  | .divide => "divide"
  | .byWord => "by"
  | .fromWord => "from"
  | .delete => "delete"
  | .store => "store"
  | .result => "result"
  | .ifWord => "if"
  | .elseWord => "else"
  | .whileWord => "while"
  | .repeatWord => "repeat"
  | .forWord => "for"
  | .inWord => "in"
  | .give => "give"
  | .back => "back"
  | .terminate => "terminate"
  | .say => "say"
  | .display => "display"
  | .ask => "ask"
  | .usingWord => "using"
  | .withWord => "with"
  | .and => "and"
  | .or => "or"
  | .not => "not"
  | .the => "the"
  | .is => "is"
  | .equal => "equal"
  | .greater => "greater"
  | .less => "less"
  | .than => "than"
  | .more => "more"
  | .atWord => "at"
  | .least => "least"
  | .most => "most"
  | .followed => "followed"
  | .divided => "divided"
  | .of => "of"
  | .list => "list"
  | .length => "length"

/-- Every keyword. -/
def all : List Keyword := [
  .when, .program, .starts, .start, .every, .to, .remember, .var, .set, .as, .global, .increase,
  .decrease, .add, .subtract, .multiply, .divide, .byWord, .fromWord, .delete, .store, .result,
  .ifWord, .elseWord, .whileWord, .repeatWord, .forWord, .inWord, .give, .back, .terminate, .say,
  .display, .ask, .usingWord, .withWord, .and, .or, .not, .the, .is, .equal, .greater, .less, .than,
  .more, .atWord, .least, .most, .followed, .divided, .of, .list, .length]

/-- The keyword that a word spells, if it spells one. -/
def ofWord? (word : String) : Option Keyword :=
  all.find? fun keyword => keyword.spelling == word

end Keyword

/-- The operators and the punctuation. -/
inductive Symbol where
  | plus | minus | star | slash | equalEqual | notEqual | greater | greaterEqual | less | lessEqual
  | colon | comma | dot | leftParen | rightParen | leftBracket | rightBracket | leftBrace
  | rightBrace
deriving DecidableEq

/-- How a symbol is written. -/
def Symbol.spelling : Symbol → String
  | .plus => "+"
  | .minus => "-"
  | .star => "*"
  | .slash => "/"
  | .equalEqual => "=="
  | .notEqual => "!="
  | .greater => ">"
  | .greaterEqual => ">="
  | .less => "<"
  | .lessEqual => "<="
  | .colon => ":"
  | .comma => ","
  | .dot => "."
  | .leftParen => "("
  | .rightParen => ")"
  | .leftBracket => "["
  | .rightBracket => "]"
  | .leftBrace => "\x7b"
  | .rightBrace => "\x7d"

/-- What a token is. -/
inductive TokenKind where
  | identifier (name : String)
  | number (value : Float)
  | string (text : String)
  | boolean (flag : Bool)
  | keyword (word : Keyword)
  | symbol (sign : Symbol)
  | newline
  | indent
  | dedent
  | eof
deriving DecidableEq

namespace TokenKind

/-- Numbers in a token are written in full, without an exponent. -/
def plainNumber : Decimal.Layout :=
  { positional := fun _ => true, pointZero := false, signedZero := true, tie := .up,
    infinite := "inf", undefined := "NaN" }

/-- The words `true` and `false`. -/
def booleanWord (flag : Bool) : String := if flag then "true" else "false"

/-- The kind of token that a word makes. -/
def ofWord (word : String) : TokenKind :=
  if word = "true" then .boolean true
  else if word = "false" then .boolean false
  else
    match Keyword.ofWord? word with
    | some fixed => .keyword fixed
    | none => .identifier word

/-- The text that stands for a kind of token. -/
def display : TokenKind → String
  | .identifier name => name
  | .number value => plainNumber.write value
  | .string text => "\"" ++ text ++ "\""
  | .boolean flag => booleanWord flag
  | .keyword word => word.spelling
  | .symbol sign => sign.spelling
  | .newline => "Newline"
  | .indent => "Indent"
  | .dedent => "Dedent"
  | .eof => "Eof"

/-- How a kind of token is named in a message. -/
def describe : TokenKind → String
  | .string text => "\"" ++ text ++ "\""
  | .newline => "end of line"
  | .indent => "indentation"
  | .dedent => "end of block"
  | .eof => "end of input"
  | kind => "'" ++ kind.display ++ "'"

/-- Whether the kind belongs to the layout of the text. -/
def isLayout : TokenKind → Bool
  | .newline | .indent | .dedent => true
  | _ => false

end TokenKind

/-- A token: its kind, the characters it was read from and the place where they begin. -/
structure Token where
  kind : TokenKind
  text : String
  position : Position
deriving DecidableEq

namespace Token

/-- The line on which a token begins. -/
def line (t : Token) : Nat := t.position.line

/-- The column at which a token begins. -/
def column (t : Token) : Nat := t.position.column

end Token

end Colloquy
