import Colloquy.Grammar.Expression

/-!
# The grammar of statements

A statement takes one line, or a line that ends in a colon and an indented block after it. Blocks
nest only as deep as there is room; the chain of an `else if` does not count as nesting.
-/

namespace Colloquy

namespace Grammar

section Statements

/-- The statement of an inner block. -/
abbrev InnerStatement := Production Stmt

variable (tokens room : Nat) (inner : InnerStatement)

/-- The expressions of a statement. -/
def value : Production Expr := expressionAt tokens room

/-- The optional word `global` in front of a name that is written to. -/
def scopeMark : Production Scope := do
  return if ← Production.accept (.keyword .global) then .global else .plain

/-- The end of a statement: the end of its line, of its block or of the input. -/
def endOfStatement : Production Unit := do
  if ← Production.accept .newline then return ()
  let c ← Production.cursor
  if c.sees .eof || c.sees .dedent then return ()
  Production.expected "end of line"

/-- Passes the ends of lines. -/
def skipNewlines : Production Unit := Production.skipAll [.newline] tokens

/-- The statements of a block, which are one level deeper. -/
def block : Production (List Stmt) := do
  let _ ← Production.require (.symbol .colon) "':'"
  let _ ← Production.require .newline "new line after ':'"
  skipNewlines tokens
  let _ ← Production.require .indent "indented block"
  Production.setDepth (· + 1)
  let body ← Production.iterate (fun body => do
    skipNewlines tokens
    let c ← Production.cursor
    if c.sees .dedent || c.sees .eof then return none
    else return some (body ++ [← inner])) tokens []
  Production.setDepth (· - 1)
  let _ ← Production.require .dedent "end of block"
  return body

/-- Declarations stand at the top of a program only. -/
def requireTop (keyword : Token) : Production Unit := do
  if 0 < (← Production.cursor).depth then
    Production.invalid keyword (.declarationInBlock keyword.text)

/-- An event after the word `when`. -/
def eventName : Production String := do
  let _ ← Production.accept (.keyword .the)
  if ← Production.accept (.keyword .program) then
    let _ ← Production.require (.keyword .starts) "'starts' after 'program'"
    return Program.startEvent
  else if ← Production.accept (.keyword .start) then
    return Program.startEvent
  else Production.name "event name"

/-- A declaration that begins with `when`. -/
def eventDeclaration : Production Stmt := do
  let keyword ← Production.take
  requireTop keyword
  let name ← eventName
  return .event name none (← block tokens inner) keyword.line

/-- The interval and the unit after `every`. -/
def schedule : Production Schedule := do
  let token := (← Production.cursor).here
  match token.kind with
  | .number interval =>
    let _ ← Production.take
    if interval ≤ 0 then Production.invalid token .intervalNotPositive
    else
      let unitToken := (← Production.cursor).here
      let word ← Production.name "time unit (seconds/ms)"
      match TimeUnit.ofWord? word with
      | some unit => return ⟨interval, unit⟩
      | none => Production.invalid unitToken (.unknownUnit word)
  | _ => Production.expected "timer interval"

/-- A declaration that begins with `every`. -/
def timerDeclaration : Production Stmt := do
  let keyword ← Production.take
  requireTop keyword
  let timer ← schedule
  return .event Program.timerEvent (some timer) (← block tokens inner) keyword.line

/-- The names after `using` or `with` in a declaration. -/
def parameters : Production (List String) := do
  let introduced ←
    if ← Production.accept (.keyword .usingWord) then pure true
    else Production.accept (.keyword .withWord)
  if introduced then
    let first ← Production.name "parameter name"
    Production.iterate (fun params => do
      let more ←
        if ← Production.accept (.keyword .and) then pure true
        else Production.accept (.symbol .comma)
      if more then return some (params ++ [← Production.name "parameter name"])
      else return none) tokens [first]
  else return []

/-- A declaration that begins with `to`. -/
def functionDeclaration : Production Stmt := do
  let keyword ← Production.take
  requireTop keyword
  let name ← Production.name "function name"
  let params ← parameters tokens
  return .function name params (← block tokens inner) keyword.line

/-- `set x to`, `remember x as` and `var x as`. -/
def assignment : Production Stmt := do
  let keyword ← Production.take
  let scope ← scopeMark
  let target ← Production.name "variable name"
  let _ ←
    if keyword.kind = .keyword .set then
      Production.require (.keyword .to) "'to' after variable name"
    else Production.require (.keyword .as) "'as' after variable name"
  let value ← value tokens room
  endOfStatement
  return .assign target scope value keyword.line

/-- `add ... to x` and `subtract ... from x`. -/
def accumulation : Production Stmt := do
  let keyword ← Production.take
  let amount ← value tokens room
  let adding := keyword.kind = .keyword .add
  let _ ←
    if adding then Production.require (.keyword .to) "'to' after amount"
    else Production.require (.keyword .fromWord) "'from' after amount"
  let scope ← scopeMark
  let target ← Production.name "variable name"
  endOfStatement
  return if adding then .increase target scope amount keyword.line
    else .decrease target scope amount keyword.line

/-- The target and the amount after `increase`, `decrease`, `multiply` and `divide`. -/
def targetByAmount : Production (String × Scope × Expr) := do
  let scope ← scopeMark
  let target ← Production.name "variable name"
  let _ ← Production.require (.keyword .byWord) "'by' after variable name"
  let amount ← value tokens room
  endOfStatement
  return (target, scope, amount)

/-- `increase x by` and `decrease x by`. -/
def adjustment : Production Stmt := do
  let keyword ← Production.take
  let (target, scope, amount) ← targetByAmount tokens room
  return if keyword.kind = .keyword .increase then .increase target scope amount keyword.line
    else .decrease target scope amount keyword.line

/-- `multiply x by` and `divide x by`, which assign to the variable that they read. -/
def scaling : Production Stmt := do
  let keyword ← Production.take
  let (target, scope, amount) ← targetByAmount tokens room
  let op := if keyword.kind = .keyword .multiply then BinaryOp.multiply else BinaryOp.divide
  return .assign target scope
    (.binary op (.identifier target scope keyword.line) amount keyword.line) keyword.line

/-- `delete x`. -/
def deletion : Production Stmt := do
  let keyword ← Production.take
  let scope ← scopeMark
  let target ← Production.name "variable name"
  endOfStatement
  return .delete target scope keyword.line

/-- `say` and `display`. -/
def printing : Production Stmt := do
  let keyword ← Production.take
  let value ← value tokens room
  endOfStatement
  return .print value (keyword.kind = .keyword .say) keyword.line

/-- `give back`, with or without a value. -/
def returning : Production Stmt := do
  let keyword ← Production.take
  let _ ← Production.require (.keyword .back) "'back' after 'give'"
  let c ← Production.cursor
  let value ←
    if c.sees .newline || c.sees .eof || c.sees .dedent then pure none
    else do pure (some (← value tokens room))
  endOfStatement
  return .giveBack value keyword.line

/-- `ask ... and store the result in x`, which assigns what the function `input` returns. -/
def asking : Production Stmt := do
  let keyword ← Production.take
  let prompt ← value tokens room
  let _ ← Production.require (.keyword .and) "'and' after ask prompt"
  let _ ← Production.require (.keyword .store) "'store' after 'and'"
  let _ ← Production.accept (.keyword .the)
  let _ ← Production.require (.keyword .result) "'result' after 'store'"
  let _ ← Production.require (.keyword .inWord) "'in' after 'store result'"
  let scope ← scopeMark
  let target ← Production.name "variable name"
  endOfStatement
  return .assign target scope (.call "input" [prompt] keyword.line) keyword.line

/-- `store ... in x`. -/
def storing : Production Stmt := do
  let keyword ← Production.take
  let value ← value tokens room
  let _ ← Production.require (.keyword .inWord) "'in' after value"
  let scope ← scopeMark
  let target ← Production.name "variable name"
  endOfStatement
  return .assign target scope value keyword.line

/-- `terminate program`, a call of the function `terminate`. -/
def termination : Production Stmt := do
  let keyword ← Production.take
  let _ ← Production.require (.keyword .program) "'program' after 'terminate'"
  endOfStatement
  return .call "terminate" [] keyword.line

/-- A statement made of an expression; a call is a statement of its own. -/
def ofExpression : Expr → Stmt
  | .call function args line => .call function args line
  | value => .expression value value.line

/-- An expression that stands alone. -/
def expressionStatement : Production Stmt := do
  let value ← value tokens room
  endOfStatement
  return ofExpression value

/-- A condition with the block that it guards. -/
structure Guarded where
  condition : Expr
  body : List Stmt
  line : Nat

/-- One link of a chain of conditions, at the word `if`. -/
def guarded : Production Guarded := do
  let keyword ← Production.take
  let condition ← value tokens room
  return ⟨condition, ← block tokens inner, keyword.line⟩

/-- The statement of a chain: each further link is the only statement of the branch before it. -/
def chain (first : Guarded) (others : List Guarded) (last : Option (List Stmt)) : Stmt :=
  let tail := others.foldr (fun g rest => some [.ifElse g.condition g.body rest g.line]) last
  .ifElse first.condition first.body tail first.line

/-- Whether `else if` stands here. -/
def seesElseIf (c : Cursor) : Bool := c.sees (.keyword .elseWord) && c.seesNext (.keyword .ifWord)

/-- `if` with its `else if` and `else` branches. -/
def conditional : Production Stmt := do
  let first ← guarded tokens room inner
  let others ← Production.iterate (fun others => do
    if seesElseIf (← Production.cursor) then
      let _ ← Production.take
      return some (others ++ [← guarded tokens room inner])
    else return none) tokens []
  let last ←
    if ← Production.accept (.keyword .elseWord) then do pure (some (← block tokens inner))
    else pure none
  return chain first others last

/-- `while`, `repeat while` and `repeat`. -/
def looping : Production Stmt := do
  let keyword ← Production.take
  if keyword.kind = .keyword .repeatWord then
    let _ ← Production.accept (.keyword .whileWord)
  let condition ← value tokens room
  return .whileLoop condition (← block tokens inner) keyword.line

/-- Whether `list of` and one name up to the colon stand here: the name is then a variable. -/
def seesNamedList (c : Cursor) : Bool :=
  c.sees (.keyword .list) && c.seesNext (.keyword .of) && (c.peek 3).kind = .symbol .colon &&
    match (c.peek 2).kind with
    | .identifier _ => true
    | _ => false

/-- `for every x in`. -/
def iterating : Production Stmt := do
  let keyword ← Production.take
  let _ ← Production.accept (.keyword .every)
  let item ← Production.name "loop variable"
  let _ ← Production.require (.keyword .inWord) "'in' after loop variable"
  let _ ← Production.accept (.keyword .the)
  if seesNamedList (← Production.cursor) then
    let _ ← Production.take
    let _ ← Production.take
  let iterable ← value tokens room
  return .forEach item iterable (← block tokens inner) keyword.line

/-- Any statement; its first word decides which. -/
def statement : Production Stmt := do
  match (← Production.cursor).here.kind with
  | .keyword .when => eventDeclaration tokens inner
  | .keyword .every => timerDeclaration tokens inner
  | .keyword .to => functionDeclaration tokens inner
  | .keyword .set | .keyword .remember | .keyword .var => assignment tokens room
  | .keyword .add | .keyword .subtract => accumulation tokens room
  | .keyword .increase | .keyword .decrease => adjustment tokens room
  | .keyword .multiply | .keyword .divide => scaling tokens room
  | .keyword .delete => deletion
  | .keyword .ifWord => conditional tokens room inner
  | .keyword .whileWord | .keyword .repeatWord => looping tokens room inner
  | .keyword .forWord => iterating tokens room inner
  | .keyword .say | .keyword .display => printing tokens room
  | .keyword .give => returning tokens room
  | .keyword .ask => asking tokens room
  | .keyword .store => storing tokens room
  | .keyword .terminate => termination
  | _ => expressionStatement tokens room

end Statements

/-- Statements with this much room left for nesting, in a row of at most so many tokens. -/
def statementAt (tokens : Nat) : Nat → Production Stmt
  | 0 => statement tokens 0 (Production.nested 0 fun _ => Production.expected "")
  | room + 1 =>
    statement tokens (room + 1) (Production.nested (room + 1) fun _ => statementAt tokens room)

end Grammar

end Colloquy
