import Mathlib.Tactic.Lemma
import Colloquy.Grammar.Statement

/-!
# The parts of statements

The rounds of the loops in statements, and what several statements end with.
-/

namespace Colloquy

namespace Grammar

open Production

variable (tokens room : Nat) (inner : InnerStatement)

/-- One round of the loop over the statements of a block. -/
def blockRound (body : List Stmt) : Production (Option (List Stmt)) := do
  skipNewlines tokens
  let c ← cursor
  if c.sees .dedent || c.sees .eof then return none
  else return some (body ++ [← inner])

/-- The end of a block. -/
def endOfBlock (body : List Stmt) : Production (List Stmt) := do
  setDepth (· - 1)
  let _ ← require .dedent "end of block"
  return body

/-- The words for an event, apart from an article. -/
def eventWords : Production String := do
  if ← accept (.keyword .program) then
    let _ ← require (.keyword .starts) "'starts' after 'program'"
    return Program.startEvent
  else if ← accept (.keyword .start) then
    return Program.startEvent
  else name "event name"

/-- One round of the loop over the parameters of a function. -/
def paramRound (params : List String) : Production (Option (List String)) := do
  let more ←
    if ← accept (.keyword .and) then pure true
    else accept (.symbol .comma)
  if more then return some (params ++ [← name "parameter name"])
  else return none

/-- The names of the parameters of a function that has some. -/
def paramNames : Production (List String) := do
  let first ← name "parameter name"
  iterate paramRound tokens [first]

lemma parameters_eq {tokens : Nat} :
    parameters tokens = do
      let introduced ←
        if ← accept (.keyword .usingWord) then pure true
        else accept (.keyword .withWord)
      if introduced then paramNames tokens
      else return [] := rfl

/-- One round of the loop over the further conditions of a chain. -/
def linkRound (others : List Guarded) : Production (Option (List Guarded)) := do
  if seesElseIf (← cursor) then
    let _ ← take
    return some (others ++ [← guarded tokens room inner])
  else return none

/-- An expression and the block that depends on it. -/
def governed {α : Type} (build : Expr → List Stmt → α) : Production α := do
  let e ← value tokens room
  return build e (← block tokens inner)

/-- What a loop goes over, and its block. -/
def loopOver {α : Type} (build : Expr → List Stmt → α) : Production α := do
  if seesNamedList (← cursor) then
    let _ ← take
    let _ ← take
  governed tokens room inner build

/-- The variable of a loop, what the loop goes over, and its block. -/
def loopFor (build : String → Expr → List Stmt → Stmt) : Production Stmt := do
  let item ← name "loop variable"
  let _ ← require (.keyword .inWord) "'in' after loop variable"
  let _ ← accept (.keyword .the)
  loopOver tokens room inner (build item)

/-- The expression at the end of a statement. -/
def lastValue (build : Expr → Stmt) : Production Stmt := do
  let e ← value tokens room
  endOfStatement
  return build e

/-- The name that is written to, at the end of a statement. -/
def lastTarget (build : Scope → String → Stmt) : Production Stmt := do
  let scope ← scopeMark
  let target ← name "variable name"
  endOfStatement
  return build scope target

/-- The words after `store the`, and the name that is written to. -/
def resultTarget (build : Scope → String → Stmt) : Production Stmt := do
  let _ ← require (.keyword .result) "'result' after 'store'"
  let _ ← require (.keyword .inWord) "'in' after 'store result'"
  lastTarget build

/-- The statement that begins with a token of this kind. -/
def statementOf : TokenKind → Production Stmt
  | .keyword .when => eventDeclaration tokens inner
  | .keyword .every => timerDeclaration tokens inner
  | .keyword .to => functionDeclaration tokens inner
  | .keyword .set | .keyword .remember | .keyword .var => assignment tokens room
  | .keyword .add | .keyword .subtract => accumulation tokens room
  | .keyword .increase | .keyword .decrease => adjustment tokens room
  | .keyword .multiply | .keyword .divide => scaling tokens room
  | .keyword .delete => deletion
  | .keyword .ifWord => conditional tokens room inner
  | .keyword .whileWord | .keyword .repeatWord => looping tokens room inner
  | .keyword .forWord => iterating tokens room inner
  | .keyword .say | .keyword .display => printing tokens room
  | .keyword .give => returning tokens room
  | .keyword .ask => asking tokens room
  | .keyword .store => storing tokens room
  | .keyword .terminate => termination
  | _ => expressionStatement tokens room

/-- How the statements in the blocks of a statement are read. -/
def innerStatement (tokens : Nat) : Nat → InnerStatement
  | 0 => nested 0 fun _ => expected ""
  | room + 1 => nested (room + 1) fun _ => statementAt tokens room

section Runs

variable {tokens room : Nat} {inner : InnerStatement} {c : Cursor} {kind : TokenKind}

lemma statementAt_eq :
    statementAt tokens room = statement tokens room (innerStatement tokens room) := by
  cases room <;> rfl

lemma run_statement (hk : c.here.kind = kind) :
    (statement tokens room inner).run c = (statementOf tokens room inner kind).run c := by
  rw [← hk]
  rfl

lemma run_statementAt (hk : c.here.kind = kind) :
    (statementAt tokens room).run c =
      (statementOf tokens room (innerStatement tokens room) kind).run c := by
  rw [statementAt_eq, run_statement hk]

end Runs

end Grammar

end Colloquy
