import Colloquy.Syntax
import Colloquy.Text.Letter
import Colloquy.Grammar.Cursor

/-!
# The grammar of expressions

From loosest to tightest the levels are `or`, `and`, the comparisons with `is`, the comparisons with
symbols, sums, products, the operators with one operand, and calls and members; every level with two
operands groups to the left. `and store` never continues an expression, because it belongs to the
statement around it.

Each level is written in terms of the next one and of `Inner`, the expressions that a token of this
one encloses. `Inner` is tied to the grammar itself in `exprAt`. An inner expression begins after at
least one token of the outer one, so recursion to a depth of the number of tokens is enough.
-/

namespace Colloquy

namespace Grammar

/-- The productions that expressions refer back to. -/
inductive Level where
  | disjunction
  | comparison
  | unary
  | call
deriving DecidableEq

/-- The deepest nesting of brackets, arguments, operands and blocks. -/
def maxNesting : Nat := 100

section Levels

/-- How expressions inside this one are read, with this much room left for nesting. -/
abbrev Inner := Level → Nat → Production Expr

variable (rounds : Nat) (inner : Inner) (room : Nat)

/-- An expression one level deeper. -/
def innerExpression : Production Expr := Production.nested room (inner .disjunction)

/-- Whether an `and` stands here that is not the one of `and store`. -/
def seesAnd (c : Cursor) : Bool := c.sees (.keyword .and) && !c.seesNext (.keyword .store)

/-- Items with commas between them. -/
def commaSeparated (item : Production Expr) : Production (List Expr) := do
  let first ← item
  let items ← Production.iterate (fun items => do
    if ← Production.accept (.symbol .comma) then
      return some (items ++ [← item])
    else return none) rounds [first]
  return items

/-- Arguments up to the closing parenthesis. -/
def parenthesized : Production (List Expr) := do
  let args ←
    if (← Production.cursor).sees (.symbol .rightParen) then pure []
    else commaSeparated rounds (innerExpression inner room)
  let _ ← Production.require (.symbol .rightParen) "')' after arguments"
  return args

/-- Whether no argument can begin here. -/
def atArgumentBoundary (kind : TokenKind) : Bool :=
  match kind with
  | .newline | .eof | .dedent => true
  | .symbol .colon | .symbol .comma => true
  | .symbol .rightParen | .symbol .rightBracket | .symbol .rightBrace => true
  | .keyword .and => true
  | _ => false

/-- Arguments after `using` or `with`. They are comparisons, so that the `and` between them is never
an operator. -/
def naturalArguments : Production (List Expr) := do
  if atArgumentBoundary (← Production.cursor).here.kind then return []
  let first ← inner .comparison room
  Production.iterate (fun args => do
    let c ← Production.cursor
    if seesAnd c || c.sees (.symbol .comma) then
      let _ ← Production.take
      return some (args ++ [← inner .comparison room])
    else return none) rounds [first]

/-- The name after a dot: any word, also one that is a keyword elsewhere. -/
def propertyName : Production String := do
  let token := (← Production.cursor).here
  match token.kind with
  | .identifier word =>
    let _ ← Production.take
    return word
  | .string _ | .number _ => Production.expected "property name after '.'"
  | _ =>
    if token.text.toList.head?.any Text.isWordStart then
      let _ ← Production.take
      return token.text
    else Production.expected "property name after '.'"

/-- The function that an expression in front of arguments names. -/
def calleeName (callee : Expr) (token : Token) : Production String :=
  match callee with
  | .identifier word .plain _ => pure word
  | _ => Production.invalid token .calleeNotNamed

/-- An element after `list of`; a bare word stands for itself. -/
def listElement : Production Expr := do
  let token := (← Production.cursor).here
  match token.kind with
  | .identifier word =>
    let _ ← Production.take
    return .literal (.text word) token.line
  | _ => inner .unary room

/-- The elements after `list of`. -/
def spelledList (line : Nat) : Production Expr := do
  let first ← listElement inner room
  let elements ← Production.iterate (fun elements => do
    if ← Production.accept (.symbol .comma) then
      let _ ← Production.accept (.keyword .and)
      return some (elements ++ [← listElement inner room])
    else if seesAnd (← Production.cursor) then
      let _ ← Production.take
      return some (elements ++ [← listElement inner room])
    else return none) rounds [first]
  return .list elements line

/-- The layout tokens, which have no meaning inside braces. -/
def skipLayout : Production Unit := Production.skipAll [.newline, .indent, .dedent] rounds

/-- One field of a record. -/
def recordField : Production (String × Expr) := do
  skipLayout rounds
  let key ←
    match (← Production.cursor).here.kind with
    | .identifier word | .string word => do
      let _ ← Production.take
      pure word
    | _ => Production.expected "property name"
  let _ ← Production.require (.symbol .colon) "':' after property name"
  let value ← innerExpression inner room
  skipLayout rounds
  return (key, value)

/-- A record after its opening brace. -/
def recordLiteral (line : Nat) : Production Expr := do
  skipLayout rounds
  let fields ←
    if (← Production.cursor).sees (.symbol .rightBrace) then pure []
    else do
      let first ← recordField rounds inner room
      Production.iterate (fun fields => do
        if ← Production.accept (.symbol .comma) then
          return some (fields ++ [← recordField rounds inner room])
        else return none) rounds [first]
  skipLayout rounds
  let _ ← Production.require (.symbol .rightBrace) "'\x7d' after record"
  return .record fields line

/-- What follows the word `length`: `of` and what to measure, or arguments. -/
def lengthCall (line : Nat) : Production Expr := do
  if ← Production.accept (.keyword .of) then
    return .call "length" [← inner .call room] line
  else if ← Production.accept (.symbol .leftParen) then
    return .call "length" (← parenthesized rounds inner room) line
  else Production.expected "'of' after 'length'"

/-- An operand without operators. -/
def primary : Production Expr := do
  let c ← Production.cursor
  let line := c.here.line
  match c.here.kind with
  | .number value =>
    let _ ← Production.take
    return .literal (.number value) line
  | .string value =>
    let _ ← Production.take
    return .literal (.text value) line
  | .boolean value =>
    let _ ← Production.take
    return .literal (.boolean value) line
  | .identifier word =>
    let _ ← Production.take
    return .identifier word .plain line
  | .keyword .global =>
    let _ ← Production.take
    return .identifier (← Production.name "variable name after 'global'") .global line
  | .keyword .length =>
    let _ ← Production.take
    lengthCall rounds inner room line
  | .keyword .list =>
    if c.seesNext (.keyword .of) then
      let _ ← Production.take
      let _ ← Production.take
      spelledList rounds inner room line
    else Production.expected "expression"
  | .symbol .leftParen =>
    let _ ← Production.take
    let value ← innerExpression inner room
    let _ ← Production.require (.symbol .rightParen) "')' after expression"
    return value
  | .symbol .leftBracket =>
    let _ ← Production.take
    let elements ←
      if (← Production.cursor).sees (.symbol .rightBracket) then pure []
      else commaSeparated rounds (innerExpression inner room)
    let _ ← Production.require (.symbol .rightBracket) "']' after list elements"
    return .list elements line
  | .symbol .leftBrace =>
    let _ ← Production.take
    recordLiteral rounds inner room line
  | _ => Production.expected "expression"

/-- One call or member access on what stands before it. -/
def suffix (object : Expr) : Production (Option Expr) := do
  match (← Production.cursor).here.kind with
  | .symbol .leftParen =>
    let token ← Production.take
    let function ← calleeName object token
    return some (.call function (← parenthesized rounds inner room) token.line)
  | .symbol .dot =>
    let token ← Production.take
    let property ← propertyName
    return some (.member object (.literal (.text property) token.line) token.line)
  | .symbol .leftBracket =>
    let token ← Production.take
    let index ← innerExpression inner room
    let _ ← Production.require (.symbol .rightBracket) "']' after index"
    return some (.member object index token.line)
  | .keyword .usingWord | .keyword .withWord =>
    let token ← Production.take
    let function ← calleeName object token
    return some (.call function (← naturalArguments rounds inner room) token.line)
  | _ => return none

/-- An operand with the calls and member accesses after it. -/
def call : Production Expr := do
  Production.iterate (suffix rounds inner room) rounds (← primary rounds inner room)

/-- An operand with the operators in front of it. -/
def unary : Production Expr := do
  match (← Production.cursor).here.kind with
  | .keyword .not =>
    let token ← Production.take
    return .unary .not (← Production.nested room (inner .unary)) token.line
  | .symbol .minus =>
    let token ← Production.take
    return .unary .negate (← Production.nested room (inner .unary)) token.line
  | _ => call rounds inner room

/-- Operands of one level with operators of that level between them, grouped to the left. -/
def leftAssociative (operator : Production (Option (BinaryOp × Nat))) (operand : Production Expr) :
    Production Expr := do
  let first ← operand
  Production.iterate (fun left => do
    match ← operator with
    | none => return none
    | some (op, line) => return some (.binary op left (← operand) line)) rounds first

/-- An operator of the level of products. -/
def factorOperator : Production (Option (BinaryOp × Nat)) := do
  match (← Production.cursor).here.kind with
  | .symbol .star => return some (.multiply, (← Production.take).line)
  | .symbol .slash => return some (.divide, (← Production.take).line)
  | .keyword .divided =>
    let token ← Production.take
    let _ ← Production.accept (.keyword .byWord)
    return some (.divide, token.line)
  | _ => return none

/-- An operator of the level of sums. -/
def termOperator : Production (Option (BinaryOp × Nat)) := do
  match (← Production.cursor).here.kind with
  | .symbol .plus => return some (.add, (← Production.take).line)
  | .symbol .minus => return some (.subtract, (← Production.take).line)
  | .keyword .followed =>
    let token ← Production.take
    let _ ← Production.require (.keyword .byWord) "'by' after 'followed'"
    return some (.add, token.line)
  | _ => return none

/-- The comparison that a symbol stands for. -/
def comparisonSymbol? : TokenKind → Option BinaryOp
  | .symbol .greater => some .greater
  | .symbol .greaterEqual => some .greaterEqual
  | .symbol .less => some .less
  | .symbol .lessEqual => some .lessEqual
  | .symbol .equalEqual => some .equal
  | .symbol .notEqual => some .notEqual
  | _ => none

/-- An operator of the level of symbolic comparisons. -/
def comparisonOperator : Production (Option (BinaryOp × Nat)) := do
  match comparisonSymbol? (← Production.cursor).here.kind with
  | some op => return some (op, (← Production.take).line)
  | none => return none

/-- Products. -/
def factor : Production Expr := leftAssociative rounds factorOperator (unary rounds inner room)

/-- Sums. -/
def term : Production Expr := leftAssociative rounds termOperator (factor rounds inner room)

/-- Comparisons with symbols. -/
def comparison : Production Expr :=
  leftAssociative rounds comparisonOperator (term rounds inner room)

/-- The words `or equal` with an optional `to`, after `greater than` and `less than`. -/
def orEqual : Production Bool := do
  let c ← Production.cursor
  if c.sees (.keyword .or) && c.seesNext (.keyword .equal) then
    let _ ← Production.take
    let _ ← Production.take
    let _ ← Production.accept (.keyword .to)
    return true
  else return false

/-- The comparison that the words after `is` spell, if they spell one before the right operand. -/
def spelledComparison : Production (Option BinaryOp) := do
  match (← Production.cursor).here.kind with
  | .keyword .equal =>
    let _ ← Production.take
    let _ ← Production.accept (.keyword .to)
    return some .equal
  | .keyword .not =>
    let _ ← Production.take
    if ← Production.accept (.keyword .equal) then
      let _ ← Production.accept (.keyword .to)
    return some .notEqual
  | .keyword .greater =>
    let _ ← Production.take
    let _ ← Production.require (.keyword .than) "'than' after 'greater'"
    return some (if ← orEqual then .greaterEqual else .greater)
  | .keyword .less =>
    let _ ← Production.take
    let _ ← Production.require (.keyword .than) "'than' after 'less'"
    return some (if ← orEqual then .lessEqual else .less)
  | .keyword .atWord =>
    let _ ← Production.take
    if ← Production.accept (.keyword .least) then return some .greaterEqual
    else if ← Production.accept (.keyword .most) then return some .lessEqual
    else Production.expected "'least' or 'most' after 'at'"
  | _ => return none

/-- The comparison that `or more` or `or less` after the right operand makes; without them it is
equality. -/
def trailingComparison : Production BinaryOp := do
  let c ← Production.cursor
  if c.sees (.keyword .or) && c.seesNext (.keyword .more) then
    let _ ← Production.take
    let _ ← Production.take
    return .greaterEqual
  else if c.sees (.keyword .or) && c.seesNext (.keyword .less) then
    let _ ← Production.take
    let _ ← Production.take
    return .lessEqual
  else return .equal

/-- Comparisons with `is`. -/
def equality : Production Expr := do
  let first ← comparison rounds inner room
  Production.iterate (fun left => do
    if (← Production.cursor).sees (.keyword .is) then
      let token ← Production.take
      match ← spelledComparison with
      | some op => return some (.binary op left (← comparison rounds inner room) token.line)
      | none =>
        let right ← comparison rounds inner room
        return some (.binary (← trailingComparison) left right token.line)
    else return none) rounds first

/-- The operator `and`. -/
def andOperator : Production (Option (BinaryOp × Nat)) := do
  if seesAnd (← Production.cursor) then return some (.and, (← Production.take).line)
  else return none

/-- The operator `or`. -/
def orOperator : Production (Option (BinaryOp × Nat)) := do
  if (← Production.cursor).sees (.keyword .or) then return some (.or, (← Production.take).line)
  else return none

/-- Conjunctions. -/
def conjunction : Production Expr := leftAssociative rounds andOperator (equality rounds inner room)

/-- Disjunctions, the loosest level. -/
def disjunction : Production Expr :=
  leftAssociative rounds orOperator (conjunction rounds inner room)

/-- The production of each level that is referred back to. -/
def atLevel : Level → Production Expr
  | .disjunction => disjunction rounds inner room
  | .comparison => comparison rounds inner room
  | .unary => unary rounds inner room
  | .call => call rounds inner room

end Levels

/-- Expressions of a level, with inner expressions to the given depth. -/
def exprAt : Nat → Level → Nat → Production Expr
  | 0, _, _ => Production.expected "expression"
  | tokens + 1, level, room => atLevel tokens (exprAt tokens) room level

/-- An expression in a row of at most so many tokens, with this much room left for nesting. -/
def expressionAt (tokens room : Nat) : Production Expr :=
  Production.nested room (exprAt tokens .disjunction)

end Grammar

/-- An expression. -/
def expression : Production Expr := fun c =>
  Grammar.expressionAt (c.remaining + 1) Grammar.maxNesting c

end Colloquy
