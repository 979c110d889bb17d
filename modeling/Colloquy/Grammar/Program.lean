import Colloquy.Token.Scan
import Colloquy.Grammar.Statement

/-!
# Programs

A program is read statement by statement to the end of the input, and a source text is compiled by
splitting it into tokens and reading them as a program.
-/

namespace Colloquy

namespace Grammar

/-- The statements up to the end of a row of at most so many tokens. -/
def programAt (tokens : Nat) : Production Program := do
  skipNewlines tokens
  let body ← Production.iterate (fun body => do
    if (← Production.cursor).sees .eof then return none
    else
      let next ← statementAt tokens maxNesting
      skipNewlines tokens
      return some (body ++ [next])) tokens []
  return ⟨body⟩

end Grammar

/-- A whole program. -/
def program : Production Program := fun c => Grammar.programAt (c.remaining + 1) c

/-- Why a source text is not a program. -/
inductive CompileError where
  | scan (error : ScanError)
  | grammar (error : SyntaxError)
deriving DecidableEq

/-- The report of a compile error. -/
def CompileError.message : CompileError → String
  | .scan e => e.message
  | .grammar e => e.message

/-- What a production reads at the beginning of a source text. -/
def readSource {α : Type} (p : Production α) (source : String) : Except CompileError α :=
  match tokenize source with
  | .error e => .error (.scan e)
  | .ok tokens =>
    match (p.run (.ofTokens tokens)).1 with
    | .error e => .error (.grammar e)
    | .ok a => .ok a

/-- The program that a source text spells. -/
def compile (source : String) : Except CompileError Program := readSource program source

/-- The expression with which a source text begins. -/
def compileExpression (source : String) : Except CompileError Expr := readSource expression source

end Colloquy
