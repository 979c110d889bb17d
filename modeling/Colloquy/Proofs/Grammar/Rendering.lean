import Colloquy.Proofs.Grammar.Settling
import Colloquy.Proofs.Grammar.Yield

/-!
# Expressions as they are spelled with symbols

Each operator has a level, and an operand is put into parentheses if its level is looser than its
place. `Rendered` relates an expression to the rows of tokens that spell it so, and the grammar
reads such a row as that expression. Levels are read by loops: an expression brings the loop of its
level to the point where it goes on (`Opens`), and the token that follows decides (`Stops`).
-/

namespace Colloquy

open Grammar Production List Cursor

/-- How tightly an operator with two operands binds. -/
def BinaryOp.level : BinaryOp → Nat
  | .or => 0
  | .and => 1
  | .equal | .notEqual | .greater | .greaterEqual | .less | .lessEqual => 2
  | .add | .subtract => 3
  | .multiply | .divide => 4

/-- The token of an operator with two operands. -/
def BinaryOp.kind : BinaryOp → TokenKind
  | .or => .keyword .or
  | .and => .keyword .and
  | .equal => .symbol .equalEqual
  | .notEqual => .symbol .notEqual
  | .greater => .symbol .greater
  | .greaterEqual => .symbol .greaterEqual
  | .less => .symbol .less
  | .lessEqual => .symbol .lessEqual
  | .add => .symbol .plus
  | .subtract => .symbol .minus
  | .multiply => .symbol .star
  | .divide => .symbol .slash

/-- The token of an operator with one operand. -/
def UnaryOp.kind : UnaryOp → TokenKind
  | .not => .keyword .not
  | .negate => .symbol .minus

/-- The token of a literal. -/
def Literal.kind : Literal → TokenKind
  | .number value => .number value
  | .text value => .string value
  | .boolean value => .boolean value

instance {op : BinaryOp} : op.kind.Passable := ⟨by cases op <;> rintro ⟨⟩⟩

instance {op : UnaryOp} : op.kind.Passable := ⟨by cases op <;> rintro ⟨⟩⟩

instance {value : Literal} : value.kind.Passable := ⟨by cases value <;> rintro ⟨⟩⟩

/-- The level of operators with one operand. -/
def prefixLevel : Nat := 5

/-- The level of calls and members, the tightest one. -/
def postfixLevel : Nat := 6

/-- A word after a dot, which may be a keyword elsewhere. -/
inductive SpellsProperty (name : String) (t : Token) : Prop where
  | identifier :
    t.kind = .identifier name →
    SpellsProperty name t
  | keyword {word} :
    t.kind = .keyword word →
    t.text = name →
    name.toList.head?.any Text.isWordStart = true →
    SpellsProperty name t
  | boolean {flag} :
    t.kind = .boolean flag →
    t.text = name →
    name.toList.head?.any Text.isWordStart = true →
    SpellsProperty name t

/-- The key of a field, as a word or as a string. -/
def SpellsKey (key : String) (t : Token) : Prop := t.kind = .identifier key ∨ t.kind = .string key

mutual

/-- The tokens spell the expression at a place of some level, nested to at most the given depth.
Parentheses stand where the level asks for them, and may stand elsewhere. -/
inductive Rendered : Nat → Nat → Expr → List Token → Prop where
  | parentheses {depth level e o ts c} :
    o.kind = .symbol .leftParen →
    Rendered depth 0 e ts →
    c.kind = .symbol .rightParen →
    Rendered (depth + 1) level e (o :: (ts ++ [c]))
  | literal {depth level value t} :
    t.kind = value.kind →
    Rendered depth level (.literal value t.line) [t]
  | identifier {depth level name t} :
    t.kind = .identifier name →
    Rendered depth level (.identifier name .plain t.line) [t]
  | global {depth level name g t} :
    g.kind = .keyword .global →
    t.kind = .identifier name →
    Rendered depth level (.identifier name .global g.line) [g, t]
  | binary {depth level op left right ls o rs} :
    level ≤ op.level →
    Rendered depth op.level left ls →
    o.kind = op.kind →
    Rendered depth (op.level + 1) right rs →
    Rendered depth level (.binary op left right o.line) (ls ++ o :: rs)
  | unary {depth level op operand o ts} :
    level ≤ prefixLevel →
    o.kind = op.kind →
    Rendered depth prefixLevel operand ts →
    Rendered (depth + 1) level (.unary op operand o.line) (o :: ts)
  | call {depth level function args f o ts c} :
    f.kind = .identifier function →
    o.kind = .symbol .leftParen →
    RenderedItems depth args ts →
    c.kind = .symbol .rightParen →
    Rendered depth level (.call function args o.line) (f :: o :: (ts ++ [c]))
  | property {depth level object name ts d t} :
    Rendered depth postfixLevel object ts →
    d.kind = .symbol .dot →
    SpellsProperty name t →
    Rendered depth level (.member object (.literal (.text name) d.line) d.line) (ts ++ [d, t])
  | index {depth level object index ts o us c} :
    Rendered (depth + 1) postfixLevel object ts →
    o.kind = .symbol .leftBracket →
    Rendered depth 0 index us →
    c.kind = .symbol .rightBracket →
    Rendered (depth + 1) level (.member object index o.line) (ts ++ o :: (us ++ [c]))
  | list {depth level elements o ts c} :
    o.kind = .symbol .leftBracket →
    RenderedItems depth elements ts →
    c.kind = .symbol .rightBracket →
    Rendered depth level (.list elements o.line) (o :: (ts ++ [c]))
  | record {depth level fields o ts c} :
    o.kind = .symbol .leftBrace →
    RenderedFields depth fields ts →
    c.kind = .symbol .rightBrace →
    Rendered depth level (.record fields o.line) (o :: (ts ++ [c]))

/-- The tokens spell the expressions with commas between them. -/
inductive RenderedItems : Nat → List Expr → List Token → Prop where
  | nil {depth} :
    RenderedItems depth [] []
  | cons {depth e es ts us} :
    Rendered depth 0 e ts →
    RenderedMore (depth + 1) es us →
    RenderedItems (depth + 1) (e :: es) (ts ++ us)

/-- The tokens spell further expressions, each after a comma. -/
inductive RenderedMore : Nat → List Expr → List Token → Prop where
  | nil {depth} :
    RenderedMore depth [] []
  | cons {depth e es comma ts us} :
    comma.kind = .symbol .comma →
    Rendered depth 0 e ts →
    RenderedMore (depth + 1) es us →
    RenderedMore (depth + 1) (e :: es) (comma :: (ts ++ us))

/-- The tokens spell the fields with commas between them. -/
inductive RenderedFields : Nat → List (String × Expr) → List Token → Prop where
  | nil {depth} :
    RenderedFields depth [] []
  | cons {depth key e fields k colon ts us} :
    SpellsKey key k →
    colon.kind = .symbol .colon →
    Rendered depth 0 e ts →
    RenderedMoreFields (depth + 1) fields us →
    RenderedFields (depth + 1) ((key, e) :: fields) (k :: colon :: (ts ++ us))

/-- The tokens spell further fields, each after a comma. -/
inductive RenderedMoreFields : Nat → List (String × Expr) → List Token → Prop where
  | nil {depth} :
    RenderedMoreFields depth [] []
  | cons {depth key e fields comma k colon ts us} :
    comma.kind = .symbol .comma →
    SpellsKey key k →
    colon.kind = .symbol .colon →
    Rendered depth 0 e ts →
    RenderedMoreFields (depth + 1) fields us →
    RenderedMoreFields (depth + 1) ((key, e) :: fields) (comma :: k :: colon :: (ts ++ us))

end

namespace Grammar

lemma stops_operator {op : BinaryOp} : Stops (op.level + 1) op.kind := by
  intro j hj
  cases op <;> cases hj <;> exact Nat.lt_succ_self _

lemma stops_tighter {kind : TokenKind} : Stops (postfixLevel + 1) kind := by
  intro j hj
  unfold joint at hj
  split at hj <;> cases hj <;> decide

/-- What ends an operand with its suffixes ends one with an operator in front. -/
lemma stops_prefix {kind : TokenKind} (h : Stops postfixLevel kind) : Stops prefixLevel kind := by
  intro j hj
  have hlt : j < 6 := h j hj
  have hne : j ≠ 5 := by
    rintro rfl
    unfold joint at hj
    split at hj <;> cases hj
  exact Nat.lt_of_le_of_ne (Nat.le_of_lt_succ hlt) hne

end Grammar

lemma beginsExpression_of_operand {kind : TokenKind} (h : beginsOperand kind = true) :
    beginsExpression kind = true := by
  simp [beginsExpression, h]

/-- What spells an expression begins with a token that begins one. -/
lemma Rendered.head {depth level : Nat} {e : Expr} {ts : List Token}
    (h : Rendered depth level e ts) :
    ∃ t us, ts = t :: us ∧ beginsExpression t.kind = true ∧
    (postfixLevel ≤ level → beginsOperand t.kind = true) := by
  have operand {t : Token} {us : List Token} (ht : beginsOperand t.kind = true)
    (hts : ts = t :: us) : ∃ t us, ts = t :: us ∧ beginsExpression t.kind = true ∧
      (postfixLevel ≤ level → beginsOperand t.kind = true) :=
    ⟨t, us, hts, beginsExpression_of_operand ht, fun _ => ht⟩
  cases h with
  | parentheses ho => exact operand (by rw [ho]; rfl) rfl
  | @literal _ _ value _ ht => exact operand (by rw [ht]; cases value <;> rfl) rfl
  | identifier ht => exact operand (by rw [ht]; rfl) rfl
  | global hg => exact operand (by rw [hg]; rfl) rfl
  | @binary _ _ op _ _ _ _ _ hlevel hl =>
    obtain ⟨t, us, rfl, ht, _⟩ := hl.head
    refine ⟨t, _, rfl, ht, fun hpost => ?_⟩
    have : op.level ≤ 4 := by cases op <;> decide
    unfold postfixLevel at hpost
    omega
  | @unary _ _ op _ _ _ hlevel ho =>
    refine ⟨_, _, rfl, by rw [ho]; cases op <;> rfl, fun hpost => ?_⟩
    exact absurd (Nat.le_trans hpost hlevel) (by decide)
  | call hf => exact operand (by rw [hf]; rfl) rfl
  | property hobject | index hobject =>
    obtain ⟨t, us, rfl, _, ht⟩ := hobject.head
    exact operand (ht (Nat.le_refl _)) rfl
  | list ho | record ho => exact operand (by rw [ho]; rfl) rfl

namespace Grammar

section Loops

variable (rounds room : Nat)

/-- The operators of a level. -/
def operatorAt : Nat → Production (Option (BinaryOp × Nat))
  | 0 => orOperator
  | 1 => andOperator
  | 2 => comparisonOperator
  | 3 => termOperator
  | _ => factorOperator

/-- The operands of a level. -/
def operandAt : Nat → Production Expr
  | 0 => conjunction rounds (exprAt rounds) room
  | 1 => equality rounds (exprAt rounds) room
  | 2 => term rounds (exprAt rounds) room
  | 3 => factor rounds (exprAt rounds) room
  | _ => unary rounds (exprAt rounds) room

/-- The expressions of a level. -/
def phraseAt : Nat → Production Expr
  | 0 => disjunction rounds (exprAt rounds) room
  | 1 => conjunction rounds (exprAt rounds) room
  | 2 => comparison rounds (exprAt rounds) room
  | 3 => term rounds (exprAt rounds) room
  | 4 => factor rounds (exprAt rounds) room
  | 5 => unary rounds (exprAt rounds) room
  | _ => call rounds (exprAt rounds) room

/-- One round of the loop of a level. -/
def stepAt : Nat → Expr → Production (Option Expr)
  | 5 => fun _ => pure none
  | 6 => suffix rounds (exprAt rounds) room
  | level => operatorRound (operatorAt level) (operandAt rounds room level)

variable {rounds room} {level : Nat} {ts us : List Token} {e e' : Expr} {k : Cursor}

/-- After these tokens the loop of the level goes on with what it has made. -/
def Opens (rounds room level : Nat) (ts : List Token) (e : Expr) (k : Cursor) : Prop :=
  ∃ left, k.remaining ≤ left ∧
    (phraseAt rounds room level).run (k.before ts) =
      (iterate (stepAt rounds room level) left e).run k

/-- A phrase is its first operand and the loop of its level. -/
lemma phraseAt_run (hlevel : level ≤ 4) (h : Yields (operandAt rounds room level) ts e k) :
    (phraseAt rounds room level).run (k.before ts) =
      (iterate (stepAt rounds room level) rounds e).run k := by
  have hbind : phraseAt rounds room level =
      operandAt rounds room level >>= iterate (stepAt rounds room level) rounds := by
    match level, hlevel with
    | 0, _ | 1, _ | 2, _ | 3, _ | 4, _ => rfl
  rw [hbind, run_bind, h]

/-- A loop that goes on may read one more round. -/
lemma Opens.step (h : Opens rounds room level ts e (k.before us)) (hne : us ≠ [])
    (hstep : Yields (stepAt rounds room level e) us (some e') k) :
    Opens rounds room level (ts ++ us) e' k := by
  obtain ⟨left, hleft, hrun⟩ := h
  rw [remaining_before] at hleft
  -- a round takes a token at least, so that the rounds that are left are still as many as the
  -- tokens
  have hpos : 0 < us.length := length_pos_iff.mpr hne
  obtain ⟨less, rfl⟩ : ∃ less, left = less + 1 := ⟨left - 1, by omega⟩
  refine ⟨less, by omega, ?_⟩
  rw [before_append, hrun, run_iterate, hstep]

/-- A loop ends at a token of a looser level. -/
lemma stepAt_none (hlevel : level ≤ postfixLevel) (h : Stops level k.here.kind) :
    (stepAt rounds room level e).run k = (.ok none, k) := by
  have hj := joint_not h
  match level, hlevel with
  | 0, _ => exact operatorRound_none (orOperator_none hj)
  | 1, _ => exact operatorRound_none (andOperator_none hj)
  | 2, _ => exact operatorRound_none (comparisonOperator_none hj)
  | 3, _ => exact operatorRound_none (termOperator_none hj)
  | 4, _ => exact operatorRound_none (factorOperator_none hj)
  | 5, _ => rfl
  | 6, _ => exact suffix_none hj

/-- A loop that ends has read its phrase. -/
lemma Opens.yields (h : Opens rounds room level ts e k) (hlevel : level ≤ postfixLevel)
    (hk : Stops level k.here.kind) :
    Yields (phraseAt rounds room level) ts e k := by
  obtain ⟨left, _, hrun⟩ := h
  have hend : Yields (iterate (stepAt rounds room level) left e) [] e k :=
    .iterate_none (stepAt_none hlevel hk)
  exact hrun.trans hend

lemma equality_yields (h : Yields (comparison rounds (exprAt rounds) room) ts e k)
    (hk : Stops 2 k.here.kind) :
    Yields (equality rounds (exprAt rounds) room) ts e k := by
  rw [← append_nil ts]
  refine .bind h (.iterate_none ?_)
  change run (if k.sees (.keyword .is) then _ else _) k = _
  rw [not_sees (joint_not hk) rfl]
  rfl

lemma operandAt_yields (h : Yields (phraseAt rounds room (level + 1)) ts e k) (hlevel : level ≤ 4)
    (hk : Stops (level + 1) k.here.kind) : Yields (operandAt rounds room level) ts e k := by
  match level, hlevel with
  | 0, _ | 2, _ | 3, _ | 4, _ => exact h
  | 1, _ => exact equality_yields h hk

/-- Without an operator in front there is only an operand. -/
lemma unary_run {c : Cursor} (h : beginsOperand c.here.kind = true) :
    (unary rounds (exprAt rounds) room).run c = (call rounds (exprAt rounds) room).run c := by
  unfold unary
  rw [run_cursor_bind]
  generalize c.here.kind = kind at h
  split
  · cases h
  · cases h
  · rfl

/-- What is open at a level is open at the next looser one. -/
lemma Opens.loosen (h : Opens rounds room (level + 1) ts e k) (hlevel : level + 1 ≤ postfixLevel)
    (hr : (k.before ts).remaining ≤ rounds) (hk : Stops (level + 1) k.here.kind)
    (hhead : postfixLevel ≤ level + 1 → beginsOperand (k.before ts).here.kind = true) :
    Opens rounds room level ts e k := by
  have hy := h.yields hlevel hk
  rw [remaining_before] at hr
  refine ⟨rounds, by omega, ?_⟩
  by_cases hle : level ≤ 4
  · exact phraseAt_run hle (operandAt_yields hy hle hk)
  -- operators with one operand have no loop: a phrase of their level is one of the tightest level
  · obtain rfl : level = 5 := by
      unfold postfixLevel at hlevel
      omega
    have hend : Yields (iterate (stepAt rounds room 5) rounds e) [] e k := .iterate_none rfl
    exact (unary_run (hhead (Nat.le_refl _))).trans (hy.trans hend.symm)

/-- What is open at a level is open at every looser one. -/
lemma Opens.descend {n : Nat} (h : Opens rounds room n ts e k) (hle : level ≤ n)
    (hn : n ≤ postfixLevel) (hr : (k.before ts).remaining ≤ rounds)
    (hk : Stops (level + 1) k.here.kind) (hhead : postfixLevel ≤ n →
      beginsOperand (k.before ts).here.kind = true) : Opens rounds room level ts e k := by
  obtain ⟨d, rfl⟩ := Nat.exists_eq_add_of_le hle
  induction d with
  | zero => exact h
  | succ d ih =>
    have hd : Opens rounds room (level + d) ts e k :=
      h.loosen hn hr (hk.mono (Nat.succ_le_succ (Nat.le_add_right level d)))
        fun hpost => hhead hpost
    exact ih hd (Nat.le_add_right level d) (by omega) fun hpost => hhead (by omega)

lemma sees_before {o : Token} {kind : TokenKind} (ho : o.kind = kind) :
    (k.before (o :: ts)).sees kind = true :=
  decide_eq_true ho

/-- A sign of comparison is read. -/
lemma comparisonOperator_yields {op : BinaryOp} {o : Token}
    (ho : comparisonSymbol? o.kind = some op) :
    Yields comparisonOperator [o] (some (op, o.line)) k := by
  have hne : o.kind.Passable := by
    constructor
    intro he
    rw [he] at ho
    cases ho
  refine .cursor ?_
  dsimp only [Cursor.before]
  rw [ho]
  exact .take rfl .pure

/-- Each operator is read at its level. -/
lemma operatorAt_yields {op : BinaryOp} {o : Token} (ho : o.kind = op.kind)
    (hk : k.here.kind ≠ .keyword .store) :
    Yields (operatorAt op.level) [o] (some (op, o.line)) k := by
  cases op with
  | or =>
    have ho : o.kind = .keyword .or := ho
    refine .cursor ?_
    rw [sees_before ho]
    exact .take ho .pure
  | and =>
    have ho : o.kind = .keyword .and := ho
    -- before `store` the word belongs to the statement, not to the expression
    have hstore : k.sees (.keyword .store) = false := decide_eq_false hk
    have hand : seesAnd (k.before [o]) = true := by
      rw [seesAnd, sees_before ho, seesNext_before (by rw [ho]; rintro ⟨⟩), Cursor.before, hstore]
      rfl
    refine .cursor ?_
    rw [hand]
    exact .take ho .pure
  | equal | notEqual | greater | greaterEqual | less | lessEqual =>
    exact comparisonOperator_yields (by rw [ho]; rfl)
  | add | subtract | multiply | divide =>
    refine .cursor ?_
    dsimp only [Cursor.before]
    rw [ho]
    exact .take ho .pure

lemma operatorRound_yields {operator : Production (Option (BinaryOp × Nat))}
    {operand : Production Expr} {op : BinaryOp} {line : Nat} {right : Expr}
    (ho : Yields operator ts (some (op, line)) (k.before us)) (hr : Yields operand us right k) :
    Yields (operatorRound operator operand e) (ts ++ us) (some (.binary op e right line)) k :=
  .bind ho (.map hr)

/-- An expression is read from these tokens at every place of the level. -/
def ReadableAs (depth level : Nat) (e : Expr) (ts : List Token) : Prop :=
  ∀ rounds k, (Cursor.before k ts).remaining ≤ rounds →
  Stops (level + 1) k.here.kind → Opens rounds depth level ts e k

lemma ReadableAs.yields (h : ReadableAs room level e ts) (hlevel : level ≤ postfixLevel)
    (hr : (k.before ts).remaining ≤ rounds) (hk : Stops level k.here.kind) :
    Yields (phraseAt rounds room level) ts e k :=
  (h _ _ hr (hk.mono (Nat.le_succ level))).yields hlevel hk

lemma ReadableAs.inner (h : ReadableAs room 0 e ts) (hr : (k.before ts).remaining < rounds)
    (hk : Stops 0 k.here.kind) :
    Yields (innerExpression (exprAt rounds) (room + 1)) ts e k := by
  obtain ⟨r, rfl⟩ : ∃ r, rounds = r + 1 := ⟨rounds - 1, by omega⟩
  exact .nested (h.yields (Nat.zero_le _) (by omega) hk)

/-- The name of a property may be a keyword. -/
lemma propertyName_yields {name : String} {t : Token} (h : SpellsProperty name t) :
    Yields propertyName [t] name k := by
  refine .cursor ?_
  dsimp only [Cursor.before]
  cases h with
  | identifier hk =>
    rw [hk]
    exact .take hk .pure
  | keyword hk ht hword | boolean hk ht hword =>
    rw [hk, ht, hword]
    exact .take hk .pure

/-- An operand is open to suffixes. -/
lemma opens_primary (h : Yields (primary rounds (exprAt rounds) room) ts e k)
    (hr : (k.before ts).remaining ≤ rounds) :
    Opens rounds room postfixLevel ts e k := by
  rw [remaining_before] at hr
  refine ⟨rounds, by omega, ?_⟩
  change run (primary rounds (exprAt rounds) room >>=
    iterate (suffix rounds (exprAt rounds) room) rounds) _ = _
  rw [run_bind, h]
  rfl

lemma commaRound_yields {α : Type} {item : Production α} {items : List α} {a : α} {comma : Token}
    (hcomma : comma.kind = .symbol .comma) (h : Yields item ts a k) :
    Yields (commaRound item items) (comma :: ts) (some (items ++ [a])) k := .accept hcomma (.map h)

/-- Items with commas between them. -/
def separated {α : Type} (rounds : Nat) (item : Production α) : Production (List α) := do
  let first ← item
  iterate (commaRound item) rounds [first]

/-- The kinds of tokens that close a list, a record or arguments. -/
def closers : List TokenKind := [.symbol .rightParen, .symbol .rightBracket, .symbol .rightBrace]

lemma ends_item {kind : TokenKind} (h : kind ∈ .symbol .comma :: closers) :
    Stops 0 kind ∧ TokenKind.layout.contains kind = false ∧ beginsExpression kind = false := by
  simp only [closers, mem_cons, not_mem_nil, or_false] at h
  rcases h with rfl | rfl | rfl | rfl <;> exact ⟨stops_of_joint_none rfl, rfl, rfl⟩

lemma skipLayout_yields {β : Type} {f : Unit → Production β} {b : β}
    (hk : TokenKind.layout.contains (k.before ts).here.kind = false) (h : Yields (f ()) ts b k) :
    Yields (skipLayout rounds >>= f) ts b k := .skipAll hk h

/-- A field is read from its key, a colon and its value. -/
lemma recordField_yields {key : String} {x colon : Token} (hx : SpellsKey key x)
    (hcolon : colon.kind = .symbol .colon)
    (h : Yields (innerExpression (exprAt rounds) room) ts e k)
    (hk : TokenKind.layout.contains k.here.kind = false) :
    Yields (recordField rounds (exprAt rounds) room) (x :: colon :: ts) (key, e) k := by
  have hvalue : Yields (do
      let value ← innerExpression (exprAt rounds) room
      skipLayout rounds
      pure (key, value)) ts (key, e) k := by
    rw [← append_nil ts]
    exact .bind h (skipLayout_yields hk .pure)
  rcases hx with hx | hx
  all_goals
    refine skipLayout_yields (by rw [Cursor.before, hx]; rfl) (.cursor ?_)
    dsimp only [Cursor.before]
    rw [hx]
    exact .bind (.take hx .pure) (.require hcolon hvalue)

section Phrases

variable {depth : Nat} {o c : Token}

/-- An expression in parentheses is an operand. -/
lemma primary_parentheses (ho : o.kind = .symbol .leftParen) (h : ReadableAs depth 0 e ts)
    (hc : c.kind = .symbol .rightParen) (hr : (k.before (o :: (ts ++ [c]))).remaining ≤ rounds) :
    Yields (primary rounds (exprAt rounds) (depth + 1)) (o :: (ts ++ [c])) e k := by
  simp only [remaining_before, length_cons, length_append, length_nil] at hr
  refine .cursor ?_
  dsimp only [Cursor.before]
  rw [ho]
  refine .take ho (.bind (h.inner (k := k.before [c]) ?_ ?_) (.require hc .pure))
  · simp only [remaining_before, length_cons, length_nil]
    omega
  · exact stops_of_joint_none (by rw [Cursor.before, hc]; rfl)

lemma primary_literal {value : Literal} {t : Token} (ht : t.kind = value.kind) :
    Yields (primary rounds (exprAt rounds) room) [t] (.literal value t.line) k := by
  refine .cursor ?_
  dsimp only [Cursor.before]
  rw [ht]
  cases value <;> exact .take ht .pure

lemma primary_identifier {name : String} {t : Token} (ht : t.kind = .identifier name) :
    Yields (primary rounds (exprAt rounds) room) [t] (.identifier name .plain t.line) k := by
  refine .cursor ?_
  dsimp only [Cursor.before]
  rw [ht]
  exact .take ht .pure

lemma primary_global {name : String} {g t : Token} (hg : g.kind = .keyword .global)
    (ht : t.kind = .identifier name) :
    Yields (primary rounds (exprAt rounds) room) [g, t] (.identifier name .global g.line) k := by
  refine .cursor ?_
  dsimp only [Cursor.before]
  rw [hg]
  exact .take hg (.name ht .pure)

/-- A list is read from its items. -/
lemma primary_list {elements : List Expr} (ho : o.kind = .symbol .leftBracket)
    (h : Yields (if ((k.before [c]).before ts).sees (.symbol .rightBracket) then pure []
      else separated rounds (innerExpression (exprAt rounds) room)) ts elements (k.before [c]))
    (hc : c.kind = .symbol .rightBracket) :
    Yields (primary rounds (exprAt rounds) room) (o :: (ts ++ [c])) (.list elements o.line) k := by
  refine .cursor ?_
  dsimp only [Cursor.before]
  rw [ho]
  refine .take ho (.cursor ?_)
  rw [before_append]
  exact .branch h (.require hc .pure)

/-- A record is read from its fields. -/
lemma primary_record {fields : List (String × Expr)} (ho : o.kind = .symbol .leftBrace)
    (hl : TokenKind.layout.contains ((k.before [c]).before ts).here.kind = false)
    (h : Yields (if ((k.before [c]).before ts).sees (.symbol .rightBrace) then pure []
      else separated rounds (recordField rounds (exprAt rounds) room)) ts fields (k.before [c]))
    (hc : c.kind = .symbol .rightBrace) :
    Yields (primary rounds (exprAt rounds) room) (o :: (ts ++ [c])) (.record fields o.line) k := by
  refine .cursor ?_
  dsimp only [Cursor.before]
  rw [ho]
  refine .take ho (skipLayout_yields (by rw [before_append]; exact hl) (.cursor ?_))
  dsimp only
  rw [before_append, ← bind_assoc]
  have hclose : TokenKind.layout.contains (k.before [c]).here.kind = false := by
    rw [Cursor.before, hc]
    rfl
  exact .branch h (skipLayout_yields hclose (.require hc .pure))

/-- A call is read from its arguments. -/
lemma suffix_call {function : String} {line : Nat} {args : List Expr}
    (ho : o.kind = .symbol .leftParen)
    (h : Yields (if ((k.before [c]).before ts).sees (.symbol .rightParen) then pure []
      else separated rounds (innerExpression (exprAt rounds) room)) ts args (k.before [c]))
    (hc : c.kind = .symbol .rightParen) :
    Yields (suffix rounds (exprAt rounds) room (.identifier function .plain line))
    (o :: (ts ++ [c])) (some (.call function args o.line)) k := by
  have hargs : Yields (parenthesized rounds (exprAt rounds) room) (ts ++ [c]) args k := by
    refine .cursor ?_
    rw [before_append]
    exact .branch h (.require hc .pure)
  refine .cursor ?_
  dsimp only [Cursor.before]
  rw [ho]
  exact .take ho (.still rfl (.map hargs))

lemma suffix_property {object : Expr} {name : String} {d t : Token} (hd : d.kind = .symbol .dot)
    (ht : SpellsProperty name t) : Yields (suffix rounds (exprAt rounds) room object) [d, t]
      (some (.member object (.literal (.text name) d.line) d.line)) k := by
  refine .cursor ?_
  dsimp only [Cursor.before]
  rw [hd]
  exact .take hd (.map (propertyName_yields ht))

/-- An index is read from its expression. -/
lemma suffix_index {object index : Expr} (ho : o.kind = .symbol .leftBracket)
    (h : ReadableAs depth 0 index ts) (hc : c.kind = .symbol .rightBracket)
    (hr : (k.before (o :: (ts ++ [c]))).remaining ≤ rounds) :
    Yields (suffix rounds (exprAt rounds) (depth + 1) object) (o :: (ts ++ [c]))
    (some (.member object index o.line)) k := by
  simp only [remaining_before, length_cons, length_append, length_nil] at hr
  refine .cursor ?_
  dsimp only [Cursor.before]
  rw [ho]
  refine .take ho (.bind (h.inner (k := k.before [c]) ?_ ?_) (.require hc .pure))
  · simp only [remaining_before, length_cons, length_nil]
    omega
  · exact stops_of_joint_none (by rw [Cursor.before, hc]; rfl)

/-- An operator in front of an operand is read with it. -/
lemma unary_yields {op : UnaryOp} (ho : o.kind = op.kind) (h : ReadableAs depth prefixLevel e ts)
    (hr : (k.before (o :: ts)).remaining ≤ rounds) (hk : Stops prefixLevel k.here.kind) :
    Yields (unary rounds (exprAt rounds) (depth + 1)) (o :: ts) (.unary op e o.line) k := by
  simp only [remaining_before, length_cons] at hr
  obtain ⟨r, rfl⟩ : ∃ r, rounds = r + 1 := ⟨rounds - 1, by omega⟩
  have hoperand : Yields (Production.nested (depth + 1) (exprAt (r + 1) .unary)) ts e k := by
    refine .nested (h.yields (by decide) ?_ hk)
    rw [remaining_before]
    omega
  refine .cursor ?_
  dsimp only [Cursor.before]
  rw [ho]
  cases op <;> exact .take ho (.map hoperand)

end Phrases

end Loops

end Grammar

section Reading

variable {depth level rounds : Nat} {k : Cursor} {e : Expr} {ts us : List Token}

/-- What can be read as an operand can be read at every level. -/
lemma readable_of_postfix {t : Token} (h : ReadableAs depth postfixLevel e (t :: ts))
    (ht : beginsOperand t.kind = true) (hlevel : level ≤ postfixLevel) :
    ReadableAs depth level e (t :: ts) := by
  intro rounds k hr hk
  have hopens : Opens rounds depth postfixLevel (t :: ts) e k :=
    h _ _ hr (hk.mono (Nat.succ_le_succ hlevel))
  exact hopens.descend hlevel (Nat.le_refl _) hr hk fun _ => ht

lemma readable_of_primary {t : Token}
    (h : ∀ rounds k, (Cursor.before k (t :: ts)).remaining ≤ rounds →
      Yields (primary rounds (exprAt rounds) depth) (t :: ts) e k)
    (ht : beginsOperand t.kind = true) (hlevel : level ≤ postfixLevel) :
    ReadableAs depth level e (t :: ts) :=
  readable_of_postfix (fun rounds k hr _ => opens_primary (h rounds k hr) hr) ht hlevel

/-- Operands on both sides of an operator are read as one expression. -/
lemma readable_binary {op : BinaryOp} {left right : Expr} {ls rs : List Token} {o : Token}
    (hop : level ≤ op.level) (hl : ReadableAs depth op.level left ls) (ho : o.kind = op.kind)
    (hright : ReadableAs depth (op.level + 1) right rs)
    (hstore : ∀ k : Cursor, (k.before rs).here.kind ≠ .keyword .store) :
    ReadableAs depth level (.binary op left right o.line) (ls ++ o :: rs) := by
  intro rounds k hr hk
  have hfour : op.level ≤ 4 := by cases op <;> decide
  have hk' : Stops (op.level + 1) k.here.kind := hk.mono (Nat.succ_le_succ hop)
  have hlength : ((k.before (o :: rs)).before ls).remaining ≤ rounds := by
    rw [← before_append]
    exact hr
  -- the left operand leaves the loop of its level going, and the operator with the right one is its
  -- next round
  have hleft : Opens rounds depth op.level ls left (k.before (o :: rs)) := by
    apply hl _ _ hlength
    rw [Cursor.before, ho]
    exact stops_operator
  have hoperand : Yields (operandAt rounds depth op.level) rs right k := by
    refine operandAt_yields (hright.yields ?_ ?_ hk') hfour hk'
    · exact Nat.le_trans (Nat.succ_le_succ hfour) (by decide)
    · simp only [remaining_before, length_append, length_cons] at hr ⊢
      omega
  have hstep : Yields (stepAt rounds depth op.level left)
      (o :: rs) (some (.binary op left right o.line)) k := by
    have hround : stepAt rounds depth op.level =
        operatorRound (operatorAt op.level) (operandAt rounds depth op.level) := by
      cases op <;> rfl
    rw [hround]
    exact operatorRound_yields (operatorAt_yields ho (hstore k)) hoperand
  refine Opens.descend (hleft.step (cons_ne_nil _ _) hstep) hop ?_ hr hk fun hpost => ?_
  · exact Nat.le_trans hfour (by decide)
  · exact absurd (Nat.le_trans hpost hfour) (by decide)

/-- An operator with one operand is read. -/
lemma readable_unary {op : UnaryOp} {o : Token} (hlevel : level ≤ prefixLevel)
    (ho : o.kind = op.kind) (h : ReadableAs depth prefixLevel e ts) :
    ReadableAs (depth + 1) level (.unary op e o.line) (o :: ts) := by
  intro rounds k hr hk
  have hstop : Stops prefixLevel k.here.kind := stops_prefix (hk.mono (Nat.succ_le_succ hlevel))
  have hrun : Yields (phraseAt rounds (depth + 1) prefixLevel) (o :: ts) (.unary op e o.line) k :=
    unary_yields ho h hr hstop
  have hend :
    Yields (iterate (stepAt rounds (depth + 1) prefixLevel) k.remaining (.unary op e o.line)) []
      (.unary op e o.line) k := .iterate_none rfl
  have hopens : Opens rounds (depth + 1) prefixLevel (o :: ts) (.unary op e o.line) k :=
    ⟨k.remaining, Nat.le_refl _, hrun.trans hend.symm⟩
  refine hopens.descend hlevel (by decide) hr hk fun hpost => ?_
  exact absurd hpost (by decide)

/-- A suffix is read after what stands in front of it. -/
lemma readable_suffix {object : Expr} (h : ReadableAs depth postfixLevel object ts) (hne : us ≠ [])
    (hstep : ∀ rounds k, (Cursor.before k us).remaining ≤ rounds →
      Yields (suffix rounds (exprAt rounds) depth object) us (some e) k) :
    ReadableAs depth postfixLevel e (ts ++ us) := by
  intro rounds k hr _
  rw [before_append, remaining_before] at hr
  refine Opens.step (h _ _ ?_ stops_tighter) hne (hstep _ _ (by omega))
  rw [remaining_before]
  exact hr

end Reading

section Rows

variable {α : Type} {depth rounds : Nat} {item : Nat → Production α} {a : α} {as : List α}
  {e : Expr} {k : Cursor} {comma t : Token} {ts us : List Token}

/-- An item is read before a comma or a closing bracket. -/
def ItemReadable (item : Nat → Production α) (a : α) (ts : List Token) : Prop :=
  ∀ rounds k, (Cursor.before k ts).remaining < rounds → k.here.kind ∈ .symbol .comma :: closers →
    Yields (item rounds) ts a k

/-- Further items, each after a comma, are read up to the bracket. -/
def MoreReadable (item : Nat → Production α) (as : List α) (ts : List Token) : Prop :=
  ∀ rounds left items k, (Cursor.before k ts).remaining < rounds → (k.before ts).remaining ≤ left →
    k.here.kind ∈ closers →
    Yields (iterate (commaRound (item rounds)) left items) ts (items ++ as) k

/-- The items between two brackets are read up to the closing one. -/
def RowReadable (item : Nat → Production α) (as : List α) (ts : List Token) : Prop :=
  ∀ rounds k close, (Cursor.before k ts).remaining < rounds →
  k.here.kind = close → close ∈ closers →
    Yields (if (k.before ts).sees close then pure [] else separated rounds (item rounds)) ts as k

lemma Grammar.ReadableAs.asItem (h : ReadableAs depth 0 e ts) :
    ItemReadable (fun rounds => innerExpression (exprAt rounds) (depth + 1)) e ts :=
  fun _ _ hr hk => h.inner hr (ends_item hk).1

lemma Grammar.ReadableAs.asField {key : String} {x colon : Token} (hx : SpellsKey key x)
    (hcolon : colon.kind = .symbol .colon) (h : ReadableAs depth 0 e ts) :
    ItemReadable (fun rounds => recordField rounds (exprAt rounds) (depth + 1)) (key, e)
    (x :: colon :: ts) := by
  intro rounds k hr hk
  obtain ⟨hstop, hlayout, _⟩ := ends_item hk
  simp only [remaining_before, length_cons] at hr
  refine recordField_yields hx hcolon (h.inner ?_ hstop) hlayout
  rw [remaining_before]
  omega

lemma MoreReadable.nil : MoreReadable item [] [] := by
  intro rounds left items k _ _ hk
  rw [append_nil]
  refine .iterate_none (commaRound_none ?_)
  intro hcomma
  rw [hcomma] at hk
  exact absurd hk (by decide)

/-- One more item is read after its comma. -/
lemma MoreReadable.cons (hcomma : comma.kind = .symbol .comma) (h : ItemReadable item a ts)
    (hmore : MoreReadable item as us)
    (hnext : ∀ k : Cursor, k.here.kind ∈ closers →
      (k.before us).here.kind ∈ .symbol .comma :: closers) :
    MoreReadable item (a :: as) (comma :: (ts ++ us)) := by
  intro rounds left items k hr hleft hk
  simp only [remaining_before, length_cons, length_append] at hr hleft
  obtain ⟨less, rfl⟩ : ∃ less, left = less + 1 := ⟨left - 1, by omega⟩
  have hitem : Yields (item rounds) ts a (k.before us) := by
    refine h _ _ ?_ (hnext k hk)
    simp only [remaining_before]
    omega
  have hrest : Yields (iterate (commaRound (item rounds)) less (items ++ [a])) us
      (items ++ [a] ++ as) k := by
    apply hmore _ _ _ _ _ _ hk
    all_goals
      rw [remaining_before]
      omega
  rw [append_assoc] at hrest
  exact .iterate_some (commaRound_yields hcomma hitem) hrest

lemma RowReadable.nil : RowReadable item [] [] := by
  intro rounds k close _ hk _
  have hs : (k.before []).sees close = true := decide_eq_true hk
  rw [hs]
  exact .pure

/-- The first item of a row is read without a comma. -/
lemma RowReadable.cons (h : ItemReadable item a (t :: ts)) (hmore : MoreReadable item as us)
    (ht : t.kind ∉ closers) (hnext : ∀ k : Cursor, k.here.kind ∈ closers →
      (k.before us).here.kind ∈ .symbol .comma :: closers) :
    RowReadable item (a :: as) (t :: ts ++ us) := by
  intro rounds k close hr hk hclose
  have hs : (k.before (t :: ts ++ us)).sees close = false := by
    apply decide_eq_false
    intro he
    exact ht (he ▸ hclose)
  rw [hs]
  rw [before_append, remaining_before, remaining_before] at hr
  refine .bind (h _ _ ?_ (hnext k (hk ▸ hclose))) (hmore _ _ _ _ ?_ ?_ (hk ▸ hclose))
  · rw [remaining_before, remaining_before]
    exact hr
  · rw [remaining_before]
    omega
  · rw [remaining_before]
    omega

section Brackets

variable {level : Nat} {o c x : Token} {rest : List Token}

/-- The items of a row are read up to its bracket. -/
lemma row_yields (h : RowReadable item as ts)
    (hr : (k.before (o :: (ts ++ [c]))).remaining ≤ rounds) (hc : c.kind ∈ closers) :
    Yields (if ((k.before [c]).before ts).sees c.kind then pure [] else separated rounds
      (item rounds)) ts as
      (k.before [c]) := by
  apply h _ _ _ _ rfl hc
  simp only [remaining_before, length_cons, length_append, length_nil] at hr ⊢
  omega

lemma readable_list {elements : List Expr} (ho : o.kind = .symbol .leftBracket)
    (h : RowReadable (fun rounds => innerExpression (exprAt rounds) depth) elements ts)
    (hc : c.kind = .symbol .rightBracket) (hlevel : level ≤ postfixLevel) :
    ReadableAs depth level (.list elements o.line) (o :: (ts ++ [c])) := by
  refine readable_of_primary (fun rounds k hr => primary_list ho ?_ hc) (by rw [ho]; rfl) hlevel
  rw [← hc]
  exact row_yields h hr (by rw [hc]; decide)

/-- A record is read. -/
lemma readable_record {fields : List (String × Expr)} (ho : o.kind = .symbol .leftBrace)
    (h : RowReadable (fun rounds => recordField rounds (exprAt rounds) depth) fields ts)
    (hlayout : ∀ k : Cursor, k.here.kind ∈ closers →
      TokenKind.layout.contains (k.before ts).here.kind = false)
    (hc : c.kind = .symbol .rightBrace) (hlevel : level ≤ postfixLevel) :
    ReadableAs depth level (.record fields o.line) (o :: (ts ++ [c])) := by
  have hclose : c.kind ∈ closers := by
    rw [hc]
    decide
  refine readable_of_primary (fun rounds k hr => primary_record ho (hlayout _ hclose) ?_ hc)
    (by rw [ho]; rfl) hlevel
  rw [← hc]
  exact row_yields h hr hclose

/-- A call is read. -/
lemma readable_call {function : String} {args : List Expr} {f : Token}
    (hf : f.kind = .identifier function) (ho : o.kind = .symbol .leftParen)
    (h : RowReadable (fun rounds => innerExpression (exprAt rounds) depth) args ts)
    (hc : c.kind = .symbol .rightParen) (hlevel : level ≤ postfixLevel) :
    ReadableAs depth level (.call function args o.line) (f :: o :: (ts ++ [c])) := by
  have hname : ReadableAs depth postfixLevel (.identifier function .plain f.line) [f] :=
    readable_of_primary (fun _ _ _ => primary_identifier hf) (by rw [hf]; rfl) (Nat.le_refl _)
  refine readable_of_postfix (readable_suffix hname (cons_ne_nil _ _) ?_) (by rw [hf]; rfl) hlevel
  intro rounds k hr
  apply suffix_call ho _ hc
  rw [← hc]
  exact row_yields h hr (by rw [hc]; decide)

lemma readable_property {object : Expr} {name : String} {d t : Token}
    (h : ReadableAs depth postfixLevel object (x :: rest)) (hd : d.kind = .symbol .dot)
    (ht : SpellsProperty name t) (hx : beginsOperand x.kind = true)
    (hlevel : level ≤ postfixLevel) :
    ReadableAs depth level (.member object (.literal (.text name) d.line) d.line)
    (x :: rest ++ [d, t]) := by
  refine readable_of_postfix (readable_suffix h (cons_ne_nil _ _) ?_) hx hlevel
  exact fun rounds k _ => suffix_property hd ht

lemma readable_index {object index : Expr}
    (h : ReadableAs (depth + 1) postfixLevel object (x :: rest))
    (ho : o.kind = .symbol .leftBracket) (hi : ReadableAs depth 0 index ts)
    (hc : c.kind = .symbol .rightBracket) (hx : beginsOperand x.kind = true)
    (hlevel : level ≤ postfixLevel) :
    ReadableAs (depth + 1) level (.member object index o.line) (x :: rest ++ o :: (ts ++ [c])) := by
  refine readable_of_postfix (readable_suffix h (cons_ne_nil _ _) ?_) hx hlevel
  exact fun rounds k hr => suffix_index ho hi hc hr

end Brackets

end Rows

section Renderings

variable {depth level : Nat} {e : Expr} {ts us : List Token} {t : Token} {k : Cursor}

lemma RenderedMore.next {es : List Expr} (h : RenderedMore depth es us)
    (hk : k.here.kind ∈ closers) :
    (k.before us).here.kind ∈ .symbol .comma :: closers := by
  cases h with
  | nil => exact mem_cons_of_mem _ hk
  | cons hcomma =>
    rw [Cursor.before, hcomma]
    exact mem_cons_self

lemma RenderedMoreFields.next {fields : List (String × Expr)}
    (h : RenderedMoreFields depth fields us) (hk : k.here.kind ∈ closers) :
    (k.before us).here.kind ∈ .symbol .comma :: closers := by
  cases h with
  | nil => exact mem_cons_of_mem _ hk
  | cons hcomma =>
    rw [Cursor.before, hcomma]
    exact mem_cons_self

lemma not_mem_closers (h : beginsExpression t.kind = true) : t.kind ∉ closers := by
  intro hmem
  have hfalse := (ends_item (mem_cons_of_mem _ hmem)).2.2
  cases h.symm.trans hfalse

lemma SpellsKey.not_mem_closers {key : String} (h : SpellsKey key t) : t.kind ∉ closers := by
  rcases h with h | h <;> rw [h] <;> simp [closers]

/-- No expression begins with `store`. -/
lemma Rendered.ne_store (h : Rendered depth level e ts) :
    (k.before ts).here.kind ≠ .keyword .store := by
  obtain ⟨t, rest, rfl, ht, _⟩ := h.head
  intro hk
  have hk : t.kind = .keyword .store := hk
  rw [hk] at ht
  cases ht

lemma RenderedFields.not_layout {fields : List (String × Expr)} (h : RenderedFields depth fields ts)
    (hk : k.here.kind ∈ closers) : TokenKind.layout.contains (k.before ts).here.kind = false := by
  cases h with
  | nil => exact (ends_item (mem_cons_of_mem _ hk)).2.1
  | cons hx => rcases hx with hx | hx <;> rw [Cursor.before, hx] <;> rfl

mutual

/-- Every rendering is read as the expression that it spells. -/
lemma Rendered.readable {depth level : Nat} {e : Expr} {ts : List Token} :
    Rendered depth level e ts → level ≤ postfixLevel → ReadableAs depth level e ts
  | .parentheses ho h hc => fun hlevel => by
    have ih : ReadableAs _ 0 e _ := h.readable (Nat.zero_le _)
    exact readable_of_primary (fun _ _ => primary_parentheses ho ih hc) (by rw [ho]; rfl) hlevel
  | @Rendered.literal _ _ value t ht => fun hlevel =>
    readable_of_primary (fun _ _ _ => primary_literal ht) (by rw [ht]; cases value <;> rfl) hlevel
  | .identifier ht => fun hlevel =>
    readable_of_primary (fun _ _ _ => primary_identifier ht) (by rw [ht]; rfl) hlevel
  | .global hg ht => fun hlevel =>
    readable_of_primary (fun _ _ _ => primary_global hg ht) (by rw [hg]; rfl) hlevel
  | @Rendered.binary _ _ op _ _ _ _ _ hop hl ho hr => fun hlevel => by
    have hfour : op.level ≤ 4 := by cases op <;> decide
    have ihl : ReadableAs _ _ _ _ := hl.readable (Nat.le_trans hfour (by decide))
    have ihr : ReadableAs _ _ _ _ := hr.readable (Nat.le_trans (Nat.succ_le_succ hfour) (by decide))
    exact readable_binary hop ihl ho ihr fun k => hr.ne_store
  | .unary hop ho h => fun hlevel => by
    have ih : ReadableAs _ _ _ _ := h.readable (by decide)
    exact readable_unary hop ho ih
  | .call hf ho h hc => fun hlevel => by
    have ih : RowReadable _ _ _ := h.readable
    exact readable_call hf ho ih hc hlevel
  | .property h hd ht => fun hlevel => by
    have ih : ReadableAs _ _ _ _ := h.readable (Nat.le_refl _)
    obtain ⟨x, rest, rfl, _, hx⟩ := h.head
    exact readable_property ih hd ht (hx (Nat.le_refl _)) hlevel
  | .index h ho hi hc => fun hlevel => by
    have ih : ReadableAs _ _ _ _ := h.readable (Nat.le_refl _)
    have ihi : ReadableAs _ _ _ _ := hi.readable (Nat.zero_le _)
    obtain ⟨x, rest, rfl, _, hx⟩ := h.head
    exact readable_index ih ho ihi hc (hx (Nat.le_refl _)) hlevel
  | .list ho h hc => fun hlevel => by
    have ih : RowReadable _ _ _ := h.readable
    exact readable_list ho ih hc hlevel
  | .record ho h hc => fun hlevel => by
    have ih : RowReadable _ _ _ := h.readable
    exact readable_record ho ih (fun k => h.not_layout) hc hlevel

lemma RenderedItems.readable {depth : Nat} {es : List Expr} {ts : List Token} :
    RenderedItems depth es ts →
    RowReadable (fun rounds => innerExpression (exprAt rounds) depth) es ts
  | .nil => .nil
  | .cons h hmore => by
    have ih : ReadableAs _ _ _ _ := h.readable (Nat.zero_le _)
    have ihmore : MoreReadable _ _ _ := hmore.readable
    obtain ⟨t, rest, rfl, ht, _⟩ := h.head
    exact .cons ih.asItem ihmore (not_mem_closers ht) fun k => hmore.next

lemma RenderedMore.readable {depth : Nat} {es : List Expr} {ts : List Token} :
    RenderedMore depth es ts →
    MoreReadable (fun rounds => innerExpression (exprAt rounds) depth) es ts
  | .nil => .nil
  | .cons hcomma h hmore => by
    have ih : ReadableAs _ _ _ _ := h.readable (Nat.zero_le _)
    have ihmore : MoreReadable _ _ _ := hmore.readable
    exact .cons hcomma ih.asItem ihmore fun k => hmore.next

lemma RenderedFields.readable {depth : Nat} {fields : List (String × Expr)} {ts : List Token} :
    RenderedFields depth fields ts →
    RowReadable (fun rounds => recordField rounds (exprAt rounds) depth) fields ts
  | .nil => .nil
  | .cons hx hcolon h hmore => by
    have ih : ReadableAs _ _ _ _ := h.readable (Nat.zero_le _)
    have ihmore : MoreReadable _ _ _ := hmore.readable
    exact .cons (ih.asField hx hcolon) ihmore hx.not_mem_closers fun k => hmore.next

lemma RenderedMoreFields.readable {depth : Nat} {fields : List (String × Expr)} {ts : List Token} :
    RenderedMoreFields depth fields ts →
      MoreReadable (fun rounds => recordField rounds (exprAt rounds) depth) fields ts
  | .nil => .nil
  | .cons hcomma hx hcolon h hmore => by
    have ih : ReadableAs _ _ _ _ := h.readable (Nat.zero_le _)
    have ihmore : MoreReadable _ _ _ := hmore.readable
    exact .cons hcomma (ih.asField hx hcolon) ihmore fun k => hmore.next

end

end Renderings

end Colloquy
