import Colloquy.Token

/-!
# Reading tokens

A `Cursor` stands at one token of a non-empty row and knows those that follow. It never moves past a
token of kind `eof`. A `Production` reads a phrase from a cursor and says where the cursor stands
afterwards, also when it fails: a reader may go on after a failure from wherever it happened.
-/

namespace Colloquy

/-- Rules of the language that a row of well-placed tokens can still break. -/
inductive Violation where
  | nestedTooDeeply
  | declarationInBlock (keyword : String)
  | intervalNotPositive
  | unknownUnit (word : String)
  | calleeNotNamed
deriving DecidableEq

/-- The words for a broken rule. -/
def Violation.message : Violation → String
  | .nestedTooDeeply => "Code is nested too deeply"
  | .declarationInBlock keyword =>
    "'" ++ keyword ++ "' declarations are only allowed at the top level"
  | .intervalNotPositive => "Timer interval must be greater than zero"
  | .unknownUnit word => "Unknown time unit '" ++ word ++ "'"
  | .calleeNotNamed => "Only named functions can be called"

/-- Why a row of tokens is not a phrase. -/
inductive SyntaxProblem where
  | unexpectedToken (expected : String) (found : TokenKind)
  | unexpectedEnd (expected : String)
  | invalid (violation : Violation)
deriving DecidableEq

/-- The words for a syntax problem. -/
def SyntaxProblem.message : SyntaxProblem → String
  | .unexpectedToken expected found => "Expected " ++ expected ++ " but found " ++ found.describe
  | .unexpectedEnd expected => "Unexpected end of input, expected " ++ expected
  | .invalid violation => "Invalid syntax: " ++ violation.message

/-- A problem and the token where it shows. -/
structure SyntaxError where
  problem : SyntaxProblem
  position : Position
deriving DecidableEq

/-- The report of a syntax error. -/
def SyntaxError.message (e : SyntaxError) : String :=
  e.problem.message ++ " at line " ++ toString e.position.line ++
    ", column " ++ toString e.position.column

/-- A place in a row of tokens, and how many blocks are open there. -/
structure Cursor where
  here : Token
  ahead : List Token
  depth : Nat
deriving DecidableEq

namespace Cursor

/-- Ends a row with a token of kind `eof` at the place of its last token, unless it has one. -/
def terminated (tokens : List Token) : List Token :=
  match tokens.getLast? with
  | none => [⟨.eof, "", .start⟩]
  | some last => if last.kind = .eof then tokens else tokens ++ [⟨.eof, "", last.position⟩]

/-- A cursor at the first of some tokens. -/
def ofTokens (tokens : List Token) : Cursor :=
  match terminated tokens with
  | [] => ⟨⟨.eof, "", .start⟩, [], 0⟩
  | first :: rest => ⟨first, rest, 0⟩

/-- How many tokens follow. -/
def remaining (c : Cursor) : Nat := c.ahead.length

/-- The cursor at the next token; the end of the input is not left. -/
def next (c : Cursor) : Cursor :=
  if c.here.kind = .eof then c
  else
    match c.ahead with
    | [] => c
    | token :: rest => { c with here := token, ahead := rest }

/-- The token some places ahead, or the last one if there are not so many. -/
def peek (c : Cursor) (distance : Nat) : Token :=
  match (c.here :: c.ahead).drop distance with
  | token :: _ => token
  | [] => c.ahead.getLastD c.here

/-- Whether the token here is of a fixed kind. -/
def sees (c : Cursor) (kind : TokenKind) : Bool := c.here.kind = kind

/-- Whether the next token is of a fixed kind. -/
def seesNext (c : Cursor) (kind : TokenKind) : Bool := (c.peek 1).kind = kind

/-- The report that something else should stand here. -/
def mismatch (c : Cursor) (expected : String) : SyntaxError :=
  ⟨if c.here.kind = .eof then .unexpectedEnd expected else .unexpectedToken expected c.here.kind,
    c.here.position⟩

end Cursor

/-- A way to read a phrase. -/
def Production (α : Type) : Type := Cursor → Except SyntaxError α × Cursor

namespace Production

variable {α β σ : Type}

/-- Reads with a production from a cursor. -/
def run (p : Production α) (c : Cursor) : Except SyntaxError α × Cursor := p c

/-- Reads nothing. -/
protected def pure (a : α) : Production α := fun c => (.ok a, c)

/-- Reads one phrase and, if that succeeds, another that may depend on it. -/
protected def bind (p : Production α) (f : α → Production β) : Production β := fun c =>
  match p c with
  | (.ok a, c') => f a c'
  | (.error e, c') => (.error e, c')

instance : Monad Production where
  pure := Production.pure
  bind := Production.bind

/-- Fails without moving. -/
def fail (e : SyntaxError) : Production α := fun c => (.error e, c)

/-- The cursor as it stands. -/
def cursor : Production Cursor := fun c => (.ok c, c)

/-- Replaces the number of open blocks. -/
def setDepth (f : Nat → Nat) : Production Unit := fun c => (.ok (), { c with depth := f c.depth })

/-- Moves to the next token and returns the one left behind. -/
def take : Production Token := fun c => (.ok c.here, c.next)

/-- Fails because something else should stand here. -/
def expected (what : String) : Production α := fun c => (.error (c.mismatch what), c)

/-- Fails because of a rule that a token breaks. -/
def invalid (token : Token) (violation : Violation) : Production α :=
  fail ⟨.invalid violation, token.position⟩

/-- Passes a token of a fixed kind if one stands here, and says whether it did. -/
def accept (kind : TokenKind) : Production Bool := fun c =>
  if c.sees kind then (.ok true, c.next) else (.ok false, c)

/-- Passes a token of a fixed kind, which has to stand here. -/
def require (kind : TokenKind) (what : String) : Production Token := fun c =>
  if c.sees kind then (.ok c.here, c.next) else (.error (c.mismatch what), c)

/-- Reads a name. -/
def name (what : String) : Production String := fun c =>
  match c.here.kind with
  | .identifier word => (.ok word, c.next)
  | _ => (.error (c.mismatch what), c)

/-- Repeats a step, handing its result on, until it finds nothing more to do. Every step that does
something moves the cursor, so as many rounds as there are tokens suffice. -/
def iterate (step : σ → Production (Option σ)) : Nat → σ → Production σ
  | 0, s => pure s
  | rounds + 1, s => do
    match ← step s with
    | none => pure s
    | some s' => iterate step rounds s'

/-- Passes all tokens of the given kinds that stand here. -/
def skipAll (kinds : List TokenKind) (rounds : Nat) : Production Unit :=
  iterate (fun _ => do
    if kinds.contains (← cursor).here.kind then
      let _ ← take
      pure (some ())
    else pure none) rounds ()

/-- Reads inside one more level of nesting, of which there is only so much room. -/
def nested (room : Nat) (inner : Nat → Production α) : Production α := fun c =>
  match room with
  | 0 => invalid c.here .nestedTooDeeply c
  | less + 1 => inner less c

@[simp] theorem run_pure (a : α) (c : Cursor) : run (pure a : Production α) c = (.ok a, c) := rfl

@[simp] theorem run_bind (p : Production α) (f : α → Production β) (c : Cursor) :
    run (p >>= f) c =
      match run p c with
      | (.ok a, c') => run (f a) c'
      | (.error e, c') => (.error e, c') := rfl

end Production

end Colloquy
