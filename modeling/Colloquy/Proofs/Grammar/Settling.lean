import Colloquy.Grammar.Expression
import Colloquy.Proofs.Grammar.Agreement

/-!
# Where expressions end

At the end of the input and at a colon a reader that still has something to read fails, and one that
has read an expression stays where it is (`Production.Settled`). So a key that is mistaken for an
operand leaves its reader at the colon.
-/

namespace Colloquy

namespace Grammar

/-- Whether a token of this kind begins an operand, apart from `list of`. -/
def beginsOperand : TokenKind → Bool
  | .number _ | .string _ | .boolean _ | .identifier _ => true
  | .keyword .global | .keyword .length => true
  | .symbol .leftParen | .symbol .leftBracket | .symbol .leftBrace => true
  | _ => false

/-- Whether an expression can begin with a token of this kind. -/
def beginsExpression (kind : TokenKind) : Bool :=
  beginsOperand kind || kind = .keyword .not || kind = .symbol .minus

/-- The level at which a token goes on with the expression in front of it. -/
def joint : TokenKind → Option Nat
  | .keyword .or => some 0
  | .keyword .and => some 1
  | .keyword .is => some 2
  | .symbol .equalEqual | .symbol .notEqual | .symbol .greater | .symbol
    .greaterEqual | .symbol .less
  | .symbol .lessEqual => some 2
  | .symbol .plus | .symbol .minus | .keyword .followed => some 3
  | .symbol .star | .symbol .slash | .keyword .divided => some 4
  | .symbol .leftParen | .symbol .dot | .symbol .leftBracket | .keyword
    .usingWord | .keyword .withWord => some 6
  | _ => none

/-- Whether a token of this kind begins an expression or `list of`. -/
def beginsPhrase (kind : TokenKind) : Bool := beginsExpression kind || kind = .keyword .list

lemma ne_of_beginsPhrase {kind other : TokenKind} (h : beginsPhrase kind = true)
    (ho : beginsPhrase other = false) :
    kind ≠ other := by
  rintro rfl
  cases ho.symm.trans h

lemma atArgumentBoundary_of_beginsPhrase {kind : TokenKind} (h : beginsPhrase kind = true) :
    atArgumentBoundary kind = false := by
  unfold atArgumentBoundary
  split <;> first | rfl | cases h

/-- Whether a token of this kind goes on with an expression or a list in any case. -/
def goesOn (kind : TokenKind) : Bool :=
  (joint kind).isSome && kind ≠ .keyword .and || kind = .symbol .comma

/-- A token of this kind goes on with no expression of this level or a tighter one. -/
def Stops (level : Nat) (kind : TokenKind) : Prop := ∀ j, joint kind = some j → j < level

section Stops

variable {m n : Nat} {kind : TokenKind}

lemma Stops.mono (h : Stops m kind) (hle : m ≤ n) : Stops n kind :=
  fun j hj => Nat.lt_of_lt_of_le (h j hj) hle

lemma stops_of_joint_none (h : joint kind = none) : Stops n kind := by
  intro j hj
  cases h.symm.trans hj

lemma joint_not (h : Stops n kind) : joint kind ≠ some n := fun hj => Nat.lt_irrefl n (h n hj)

end Stops

end Grammar

/-- A kind of tokens other than the end of the input and the colon. -/
class TokenKind.Alive (kind : TokenKind) : Prop where
  ne_eof : kind ≠ .eof
  ne_colon : kind ≠ .symbol .colon

instance {word : Keyword} : (TokenKind.keyword word).Alive := ⟨nofun, nofun⟩

instance : (TokenKind.symbol .comma).Alive := ⟨nofun, nofun⟩

instance : (TokenKind.symbol .rightParen).Alive := ⟨nofun, nofun⟩

instance : (TokenKind.symbol .rightBracket).Alive := ⟨nofun, nofun⟩

instance : (TokenKind.symbol .rightBrace).Alive := ⟨nofun, nofun⟩

namespace Cursor

variable {c : Cursor} {kind : TokenKind}

/-- The input ends here, or a colon stands here. -/
def Dead (c : Cursor) : Prop := c.here.kind = .eof ∨ c.here.kind = .symbol .colon

/-- A key of a record and its colon stand here. -/
def Heading (c : Cursor) : Prop :=
  ((∃ word, c.here.kind = .identifier word) ∨ ∃ text, c.here.kind = .string text) ∧
    c.next.here.kind = .symbol .colon

/-- What stands here goes on with no expression. -/
def Idle (c : Cursor) : Prop := Grammar.goesOn c.here.kind = false ∧ Grammar.seesAnd c = false

lemma Idle.ne (h : c.Idle) (hk : Grammar.goesOn kind = true) : c.here.kind ≠ kind := by
  rintro rfl
  cases h.1.symm.trans hk

/-- Where nothing goes on, no token joins but `and`. -/
lemma Idle.joint_ne {n : Nat} (h : c.Idle) (hn : n ≠ 1) : Grammar.joint c.here.kind ≠ some n := by
  intro hj
  have hand : c.here.kind = .keyword .and := by
    have hidle := h.1
    simp only [Grammar.goesOn, hj, Option.isSome_some,
      Bool.true_and, Bool.or_eq_false_iff, decide_eq_false_iff_not, ne_eq] at hidle
    exact Decidable.of_not_not hidle.1
  rw [hand] at hj
  exact hn (Option.some.inj hj).symm

lemma Dead.ne [ha : kind.Alive] (h : c.Dead) : c.here.kind ≠ kind := by
  rcases h with h | h <;> rw [h]
  · exact ha.ne_eof.symm
  · exact ha.ne_colon.symm

lemma Dead.beginsPhrase (h : c.Dead) : Grammar.beginsPhrase c.here.kind = false := by
  rcases h with h | h <;> rw [h] <;> rfl

/-- Nothing goes on where nothing can be read. -/
lemma Dead.idle (h : c.Dead) : c.Idle := by
  refine ⟨?_, ?_⟩
  · rcases h with h | h <;> rw [h] <;> rfl
  · rw [Grammar.seesAnd, Cursor.sees, decide_eq_false h.ne, Bool.false_and]

lemma Heading.dead (h : c.Heading) : c.next.Dead := .inr h.2

/-- There are fewer tokens left after the next one, unless there is none. -/
lemma next_onward : c.next = c ∨ c.next.remaining < c.remaining := by
  by_cases hne : c.here.kind = .eof
  · exact .inl (if_pos hne)
  · cases ha : c.ahead with
    | nil => exact .inl (by rw [next, if_neg hne, ha])
    | cons token rest =>
      exact .inr (remaining_next_lt hne (by rw [ha]; exact List.cons_ne_nil token rest))

/-- Going from token to token one comes from the first cursor to the second. -/
inductive Reaches (c : Cursor) : Cursor → Prop where
  | refl :
    Reaches c c
  | next {d} :
    Reaches c d →
    Reaches c d.next

variable {d d' : Cursor}

lemma Reaches.trans (h : c.Reaches d) (h' : d.Reaches d') : c.Reaches d' := by
  induction h' with
  | refl => exact h
  | next _ ih => exact .next ih

/-- Who reaches another place has fewer tokens left. -/
lemma Reaches.onward (h : c.Reaches d) : d = c ∨ d.remaining < c.remaining := by
  induction h with
  | refl => exact .inl rfl
  | @next d _ ih =>
    rcases d.next_onward with hd | hd
    · rwa [hd]
    · refine .inr ?_
      rcases ih with rfl | ih
      · exact hd
      · exact Nat.lt_trans hd ih

end Cursor

namespace Production

variable {α β σ : Type} {p : Production α} {f : α → Production β}

lemma run_cursor {f : Cursor → Production β} {c : Cursor} : run (cursor >>= f) c = run (f c) c :=
  rfl

/-- A production that goes from token to token, even if it fails. -/
class Walks (p : Production α) : Prop where
  reaches (c : Cursor) : c.Reaches (p.run c).2

/-- A production that walks, and stays where nothing can be read. -/
class Settled (p : Production α) : Prop extends Walks p where
  stuck {a : α} {c c' : Cursor} : c.Dead → p.run c = (.ok a, c') → c' = c

/-- What walks after what walks makes a walk. -/
lemma Walks.of_bind (hp : Walks p) (hf : ∀ a, Walks (f a)) : Walks (p >>= f) where
  reaches c := by
    have hfirst := hp.reaches c
    rw [run_bind]
    rcases hr : p.run c with ⟨e | a, c'⟩ <;> rw [hr] at hfirst
    · exact hfirst
    · exact hfirst.trans ((hf a).reaches c')

instance [hp : Walks p] [hf : ∀ a, Walks (f a)] : Walks (p >>= f) := .of_bind hp hf

instance {a : α} : Walks (pure a : Production α) := ⟨fun _ => .refl⟩

instance : Walks cursor := ⟨fun _ => .refl⟩

instance {what : String} : Walks (expected what : Production α) := ⟨fun _ => .refl⟩

instance {token : Token} {violation : Violation} : Walks (invalid token violation : Production α) :=
  ⟨fun _ => .refl⟩

instance : Walks take := ⟨fun _ => .next .refl⟩

instance {what : String} : Walks (name what) where
  reaches c := by
    by_cases hk : ∃ word, c.here.kind = .identifier word
    · obtain ⟨word, hk⟩ := hk
      rw [run_name hk]
      exact .next .refl
    · rw [run_name_ne fun word hw => hk ⟨word, hw⟩]
      exact .refl

instance {kind : TokenKind} {what : String} : Walks (require kind what) where
  reaches c := by
    by_cases hk : c.here.kind = kind
    · rw [run_require hk]
      exact .next .refl
    · rw [run_require_ne hk]
      exact .refl

instance {kind : TokenKind} : Walks (accept kind) where
  reaches c := by
    by_cases hk : c.here.kind = kind
    · rw [run_accept hk]
      exact .next .refl
    · rw [run_accept_ne hk]
      exact .refl

instance {b : Prop} [Decidable b] {p q : Production α} [hp : Walks p] [hq : Walks q] :
    Walks (if b then p else q) := by
  split
  · exact hp
  · exact hq

instance {step : σ → Production (Option σ)} {rounds : Nat} {s : σ} [hs : ∀ s, Walks (step s)] :
    Walks (iterate step rounds s) := by
  induction rounds generalizing s with
  | zero => exact ⟨fun _ => .refl⟩
  | succ rounds ih =>
    refine .of_bind (hs s) fun next => ?_
    cases next with
    | none => exact ⟨fun _ => .refl⟩
    | some s' => exact ih

instance {kinds : List TokenKind} {rounds : Nat} : Walks (skipAll kinds rounds) := by
  unfold skipAll
  infer_instance

instance {room : Nat} {inner : Nat → Production α} [hi : ∀ less, Walks (inner less)] :
    Walks (nested room inner) := by
  cases room with
  | zero => exact ⟨fun _ => .refl⟩
  | succ less => exact hi less

/-- Who walks stays or has fewer tokens left. -/
lemma Walks.onward {a : α} {c c' : Cursor} (hp : Walks p) (hr : p.run c = (.ok a, c')) :
    c' = c ∨ c'.remaining < c.remaining := by
  have hreaches := hp.reaches c
  rw [hr] at hreaches
  exact hreaches.onward

lemma Walks.remaining_le {a : α} {c c' : Cursor} (hp : Walks p) (hr : p.run c = (.ok a, c')) :
    c'.remaining ≤ c.remaining := by
  rcases hp.onward hr with rfl | hlt
  · exact Nat.le_refl _
  · exact Nat.le_of_lt hlt

lemma Walks.remaining_lt {a : α} {c c' : Cursor} {bound : Nat} (hp : Walks p)
    (hr : p.run c = (.ok a, c')) (h : c.remaining < bound) : c'.remaining < bound :=
  Nat.lt_of_le_of_lt (hp.remaining_le hr) h

/-- Two settled productions in a row are settled. -/
lemma Settled.of_bind (hp : Settled p) (hf : ∀ a, Settled (f a)) : Settled (p >>= f) where
  toWalks := .of_bind hp.toWalks fun a => (hf a).toWalks
  stuck {b c c'} hc hr := by
    obtain ⟨a, c1, hp', hrest⟩ := run_bind_ok hr
    obtain rfl := hp.stuck hc hp'
    exact (hf a).stuck hc hrest

instance [hp : Settled p] [hf : ∀ a, Settled (f a)] : Settled (p >>= f) := .of_bind hp hf

lemma Settled.of_fails [Walks p] (h : ∀ {c : Cursor}, c.Dead → Fails p c) : Settled p where
  stuck hc hr := ((h hc).absurd hr).elim

instance {a : α} : Settled (pure a : Production α) where
  stuck _ hr := by
    cases hr
    rfl

instance : Settled cursor where
  stuck _ hr := by
    cases hr
    rfl

instance {what : String} : Settled (expected what : Production α) where
  stuck _ := nofun

instance {token : Token} {violation : Violation} :
    Settled (invalid token violation : Production α) where
  stuck _ := nofun

instance {kind : TokenKind} [kind.Alive] : Settled (accept kind) where
  stuck hc hr := by
    rw [run_accept_ne hc.ne] at hr
    cases hr
    rfl

instance {b : Prop} [Decidable b] {p q : Production α} [hp : Settled p] [hq : Settled q] :
    Settled (if b then p else q) := by
  split
  · exact hp
  · exact hq

instance {room : Nat} {inner : Nat → Production α} [hi : ∀ less, Settled (inner less)] :
    Settled (nested room inner) := by
  cases room with
  | zero => exact .of_fails fun _ => ⟨_, _, rfl⟩
  | succ less => exact hi less

instance {step : σ → Production (Option σ)} {rounds : Nat} {s : σ} [hs : ∀ s, Settled (step s)] :
    Settled (iterate step rounds s) where
  stuck {a c c'} hc hr := by
    induction rounds generalizing s with
    | zero =>
      cases hr
      rfl
    | succ rounds ih =>
      obtain ⟨next, c1, hn, hrest⟩ := run_bind_ok hr
      obtain rfl := (hs s).stuck hc hn
      cases next with
      | none =>
        cases hrest
        rfl
      | some s' => exact ih hrest

/-- A production that reads a token at least, and fails where nothing can be read. -/
class Barred (p : Production α) : Prop extends Walks p where
  fails {c : Cursor} : c.Dead → Fails p c
  moves {a : α} {c c' : Cursor} : c.ahead ≠ [] → p.run c = (.ok a, c') → c'.remaining < c.remaining

instance (priority := low) [hp : Barred p] : Settled p := .of_fails fun hc => hp.fails hc

instance [hp : Barred p] [hf : ∀ a, Walks (f a)] : Barred (p >>= f) where
  fails hc := .bind (hp.fails hc)
  moves hmore hr := by
    obtain ⟨a, c1, hp', hrest⟩ := run_bind_ok hr
    exact (hf a).remaining_lt hrest (hp.moves hmore hp')

instance [hp : Settled p] [hf : ∀ a, Barred (f a)] : Barred (p >>= f) where
  fails {c} hc := by
    rcases hr : p.run c with ⟨e | a, c'⟩
    · exact .bind ⟨e, c', hr⟩
    · obtain rfl := hp.stuck hc hr
      exact .after hr ((hf a).fails hc)
  moves hmore hr := by
    obtain ⟨a, c1, hp', hrest⟩ := run_bind_ok hr
    rcases hp.onward hp' with rfl | hlt
    · exact (hf a).moves hmore hrest
    · exact (hf a).remaining_lt hrest hlt

instance {kind : TokenKind} [ha : kind.Alive] {what : String} : Barred (require kind what) where
  fails hc := .require hc.ne
  moves {a c c'} hmore hr := by
    by_cases hk : c.here.kind = kind
    · rw [run_require hk] at hr
      cases hr
      exact Cursor.remaining_next_lt (hk ▸ ha.ne_eof) hmore
    · rw [run_require_ne hk] at hr
      cases hr

instance {b : Prop} [Decidable b] {p q : Production α} [hp : Barred p] [hq : Barred q] :
    Barred (if b then p else q) := by
  split
  · exact hp
  · exact hq

/-- A round that ends its loop where nothing goes on with an expression. -/
def Pauses (p : Production (Option σ)) : Prop := ∀ ⦃c : Cursor⦄, c.Idle → p.run c = (.ok none, c)

lemma Settled.of_pauses {p : Production (Option σ)} [Walks p] (h : Pauses p) : Settled p where
  stuck hc hr := by
    cases (h hc.idle).symm.trans hr
    rfl

/-- A production that takes a key for an operand and stops before the colon. -/
def Heads (p : Production α) : Prop :=
  ∀ ⦃c c' : Cursor⦄ ⦃a : α⦄, c.Heading → p.run c = (.ok a, c') → c' = c.next

/-- What comes after a key stays at its colon. -/
lemma Heads.bind (hp : Heads p) [hf : ∀ a, Settled (f a)] : Heads (p >>= f) := by
  intro c c' b hc hr
  obtain ⟨a, c1, hp', hrest⟩ := run_bind_ok hr
  obtain rfl := hp hc hp'
  exact (hf a).stuck hc.dead hrest

/-- No key is a keyword. -/
lemma Heads.accept {word : Keyword} {f : Bool → Production α} (h : Heads (f false)) :
    Heads (accept (.keyword word) >>= f) := by
  intro c c' a hc hr
  have hne : c.here.kind ≠ .keyword word := by
    rcases hc.1 with ⟨word, he⟩ | ⟨text, he⟩ <;> rw [he] <;> rintro ⟨⟩
  rw [run_bind, run_accept_ne hne] at hr
  exact h hc hr

lemma Heads.nested {room : Nat} {inner : Nat → Production α} (h : ∀ less, Heads (inner less)) :
    Heads (nested room inner) := by
  cases room with
  | zero => exact fun _ _ _ _ hr => nomatch hr
  | succ less => exact h less

end Production

namespace Grammar

open Production

variable {rounds room tokens : Nat} {inner : Inner} {level : Level} {c : Cursor}

section

variable (hk : beginsPhrase c.here.kind = false)
include hk

/-- No operand begins without one of the tokens that begin a phrase. -/
lemma primary_fails : Fails (primary rounds inner room) c := by
  refine .after rfl ?_
  dsimp only
  split <;> first | (rename_i he; rw [he] at hk; cases hk) | exact ⟨_, _, rfl⟩

lemma call_fails : Fails (call rounds inner room) c := .bind (primary_fails hk)

lemma unary_fails : Fails (unary rounds inner room) c := by
  refine .after rfl ?_
  split <;> first | (rename_i he; rw [he] at hk; cases hk) | exact call_fails hk

lemma comparison_fails : Fails (comparison rounds inner room) c :=
  .bind (.bind (.bind (unary_fails hk)))

/-- Nor does an expression of any level. -/
lemma atLevel_fails : Fails (atLevel rounds inner room level) c := by
  cases level with
  | disjunction => exact .bind (.bind (.bind (comparison_fails hk)))
  | comparison => exact comparison_fails hk
  | unary => exact unary_fails hk
  | call => exact call_fails hk

lemma exprAt_fails : Fails (exprAt tokens level room) c := by
  cases tokens with
  | zero => exact ⟨_, _, rfl⟩
  | succ tokens => exact atLevel_fails hk

end

section Rounds

variable {α : Type} (rounds : Nat) (inner : Inner) (room : Nat)

/-- Expressions with commas between them, up to a closing bracket. -/
def bracketed (close : TokenKind) (what : String) (r : List Expr → α) : Production α := do
  let items ←
    if (← cursor).sees close then pure []
    else commaSeparated rounds (innerExpression inner room)
  let _ ← require close what
  return r items

/-- An expression up to a closing bracket. -/
def enclosedExpression (close : TokenKind) (what : String) (r : Expr → α) : Production α := do
  let e ← innerExpression inner room
  let _ ← require close what
  return r e

/-- One round of the loop over items with commas between them. -/
def commaRound {α : Type} (item : Production α) (items : List α) : Production (Option (List α)) :=
  do
  if ← accept (.symbol .comma) then
    return some (items ++ [← item])
  else return none

/-- One round of the loop over the arguments after `using` or `with`. -/
def argumentRound (args : List Expr) : Production (Option (List Expr)) := do
  let c ← cursor
  if seesAnd c || c.sees (.symbol .comma) then
    let _ ← take
    return some (args ++ [← inner .comparison room])
  else return none

/-- One round of the loop over the elements after `list of`. -/
def elementRound (elements : List Expr) : Production (Option (List Expr)) := do
  if ← accept (.symbol .comma) then
    let _ ← accept (.keyword .and)
    return some (elements ++ [← listElement inner room])
  else if seesAnd (← cursor) then
    let _ ← take
    return some (elements ++ [← listElement inner room])
  else return none

/-- One round of the loop over the fields of a record. -/
def fieldRound (fields : List (String × Expr)) : Production (Option (List (String × Expr))) := do
  if ← accept (.symbol .comma) then
    return some (fields ++ [← recordField rounds inner room])
  else return none

/-- One field of a record, after the layout in front of it. -/
def keyedValue : Production (String × Expr) := do
  let key ←
    match (← cursor).here.kind with
    | .identifier word | .string word => do
      let _ ← take
      pure word
    | _ => expected "property name"
  let _ ← require (.symbol .colon) "':' after property name"
  let value ← innerExpression inner room
  skipLayout rounds
  return (key, value)

/-- What follows the key of a field. -/
def fieldValue (key : String) : Production (String × Expr) := do
  let _ ← require (.symbol .colon) "':' after property name"
  let value ← innerExpression inner room
  skipLayout rounds
  return (key, value)

/-- A call with its arguments after `using` or `with`. -/
def naturalCall (object : Expr) : Production (Option Expr) := do
  let token ← take
  let function ← calleeName object token
  return some (.call function (← naturalArguments rounds inner room) token.line)

/-- The end of a record. -/
def closedRecord (line : Nat) (fields : List (String × Expr)) : Production Expr := do
  skipLayout rounds
  let _ ← require (.symbol .rightBrace) "'\x7d' after record"
  return .record fields line

/-- One round of the loop over the operators of a level. -/
def operatorRound (operator : Production (Option (BinaryOp × Nat)))
    (operand : Production Expr) (left : Expr) :
    Production (Option Expr) := do
  match ← operator with
  | none => return none
  | some (op, line) => return some (.binary op left (← operand) line)

/-- What may be compared with `left` after the word `is` on the given line. -/
def comparedWith (left : Expr) (line : Nat) : Production (Option Expr) := do
  match ← spelledComparison with
  | some op => return some (.binary op left (← comparison rounds inner room) line)
  | none =>
    let right ← comparison rounds inner room
    return some (.binary (← trailingComparison) left right line)

/-- One round of the loop over comparisons with `is`. -/
def equalityRound (left : Expr) : Production (Option Expr) := do
  if (← cursor).sees (.keyword .is) then
    let token ← take
    comparedWith rounds inner room left token.line
  else return none

end Rounds

lemma recordField_eq : recordField rounds inner room = skipLayout rounds >>= fun _ =>
    keyedValue rounds inner room := rfl

/-- A record by its rounds and its end. -/
lemma recordLiteral_eq {line : Nat} : recordLiteral rounds inner room line = (do
    skipLayout rounds
    if (← cursor).sees (.symbol .rightBrace) then closedRecord rounds line []
    else do
      let first ← recordField rounds inner room
      let fields ← iterate (fieldRound rounds inner room) rounds [first]
      closedRecord rounds line fields) := rfl

/-- A token of another level is not seen. -/
lemma not_sees {n : Nat} {kind : TokenKind} (h : joint c.here.kind ≠ some n)
    (hj : joint kind = some n) :
    c.sees kind = false := by
  apply decide_eq_false
  intro hk
  rw [hk] at h
  exact h hj

lemma orOperator_none (h : joint c.here.kind ≠ some 0) : orOperator.run c = (.ok none, c) := by
  rw [orOperator, run_cursor, not_sees h rfl]
  rfl

lemma andOperator_none (h : joint c.here.kind ≠ some 1) : andOperator.run c = (.ok none, c) := by
  rw [andOperator, run_cursor, seesAnd, not_sees h rfl]
  rfl

lemma comparisonSymbol?_none {kind : TokenKind} (h : joint kind ≠ some 2) :
    comparisonSymbol? kind = none := by
  unfold comparisonSymbol?
  split
  case h_7 => rfl
  all_goals exact (h rfl).elim

lemma comparisonOperator_none (h : joint c.here.kind ≠ some 2) :
    comparisonOperator.run c = (.ok none, c) := by
  rw [comparisonOperator, run_cursor, comparisonSymbol?_none h]
  rfl

lemma termOperator_none (h : joint c.here.kind ≠ some 3) : termOperator.run c = (.ok none, c) := by
  rw [termOperator, run_cursor]
  generalize c.here.kind = kind at h
  split
  case h_4 => rfl
  all_goals exact (h rfl).elim

lemma factorOperator_none (h : joint c.here.kind ≠ some 4) :
    factorOperator.run c = (.ok none, c) := by
  rw [factorOperator, run_cursor]
  generalize c.here.kind = kind at h
  split
  case h_4 => rfl
  all_goals exact (h rfl).elim

/-- An operand ends where no token joins it as tightly. -/
lemma suffix_none {object : Expr} (h : joint c.here.kind ≠ some 6) :
    (suffix rounds inner room object).run c = (.ok none, c) := by
  rw [suffix, run_cursor]
  generalize c.here.kind = kind at h
  split
  case h_6 => rfl
  all_goals exact (h rfl).elim

lemma operatorRound_none {operator : Production (Option (BinaryOp × Nat))}
    {operand : Production Expr} {left : Expr} (h : operator.run c = (.ok none, c)) :
    (operatorRound operator operand left).run c = (.ok none, c) := by
  rw [operatorRound, run_bind, h]
  rfl

lemma commaRound_none {α : Type} {item : Production α} {items : List α}
    (h : c.here.kind ≠ .symbol .comma) :
    (commaRound item items).run c = (.ok none, c) := by
  rw [commaRound, run_bind, run_accept_ne h]
  rfl

lemma argumentRound_none {args : List Expr} (hcomma : c.here.kind ≠ .symbol .comma)
    (hand : seesAnd c = false) :
    (argumentRound inner room args).run c = (.ok none, c) := by
  change run (if seesAnd c || c.sees (.symbol .comma) then _ else _) c = _
  rw [hand, Cursor.sees, decide_eq_false hcomma]
  rfl

lemma pauses_elementRound {elements : List Expr} : Pauses (elementRound inner room elements) := by
  intro c hc
  rw [elementRound, run_bind, run_accept_ne (hc.ne rfl)]
  change run (if seesAnd c then _ else _) c = _
  rw [hc.2]
  rfl

lemma pauses_fieldRound {fields : List (String × Expr)} :
    Pauses (fieldRound rounds inner room fields) := by
  intro c hc
  rw [fieldRound, run_bind, run_accept_ne (hc.ne rfl)]
  rfl

lemma pauses_andOperator : Pauses andOperator := by
  intro c hc
  change run (if seesAnd c then _ else _) c = _
  rw [hc.2]
  rfl

lemma pauses_equalityRound {left : Expr} : Pauses (equalityRound rounds inner room left) := by
  intro c hc
  change run (if c.sees (.keyword .is) then _ else _) c = _
  rw [Cursor.sees, decide_eq_false (hc.ne rfl)]
  rfl

/-- A comparison with `is` alone is an equality. -/
lemma trailingComparison_idle (hc : c.Idle) : trailingComparison.run c = (.ok .equal, c) := by
  have hor : c.sees (.keyword .or) = false := decide_eq_false (hc.ne rfl)
  change run (if c.sees (.keyword .or) && c.seesNext (.keyword .more) then _
    else if c.sees (.keyword .or) && c.seesNext (.keyword .less) then _ else _) c = _
  rw [hor]
  rfl

/-- The productions inside an expression are settled. -/
class Inner.Settles (inner : Inner) : Prop where
  settled (level : Level) (room : Nat) : Settled (inner level room)

section Inside

instance : Walks propertyName := by
  refine .of_bind inferInstance fun c => ?_
  dsimp only
  split <;> infer_instance

instance {callee : Expr} {token : Token} : Walks (calleeName callee token) := by
  unfold calleeName
  split <;> infer_instance

instance : Walks (skipLayout rounds) := inferInstanceAs (Walks (skipAll _ rounds))

instance : Settled (skipLayout rounds) := by
  refine ⟨fun {a c c'} hc hr => ?_⟩
  have hlayout : [TokenKind.newline, .indent, .dedent].contains c.here.kind = false := by
    rcases hc with h | h <;> rw [h] <;> rfl
  cases rounds with
  | zero =>
    cases hr
    rfl
  | succ rounds =>
    rw [skipLayout, run_skipAll_succ, hlayout] at hr
    cases hr
    rfl

variable [hi : inner.Settles]

instance {level : Level} : Settled (inner level room) := hi.settled level room

instance : Settled (innerExpression inner room) := by
  unfold innerExpression
  infer_instance

instance {item : Production Expr} [Settled item] {items : List Expr} :
    Settled (commaRound item items) := by
  unfold commaRound
  infer_instance

instance {item : Production Expr} [Settled item] : Settled (commaSeparated rounds item) := by
  change Settled (item >>= fun first => iterate (commaRound item) rounds [first])
  infer_instance

instance {α : Type} {close : TokenKind} [close.Alive] {what : String} {r : List Expr → α} :
    Barred (bracketed rounds inner room close what r) := by
  unfold bracketed
  infer_instance

instance {α : Type} {close : TokenKind} [close.Alive] {what : String} {r : Expr → α} :
    Barred (enclosedExpression inner room close what r) := by
  unfold enclosedExpression
  infer_instance

instance : Barred (parenthesized rounds inner room) :=
  inferInstanceAs
    (Barred (bracketed rounds inner room (.symbol .rightParen) "')' after arguments" id))

instance {args : List Expr} : Settled (argumentRound inner room args) := by
  have hwalks : Walks (argumentRound inner room args) := by
    unfold argumentRound
    infer_instance
  exact .of_pauses fun _ hc => argumentRound_none (hc.ne rfl) hc.2

instance : Walks (naturalArguments rounds inner room) := by
  change Walks (cursor >>= fun c => if atArgumentBoundary c.here.kind then pure []
    else inner .comparison room >>= fun first => iterate (argumentRound inner room) rounds [first])
  infer_instance

instance : Walks (listElement inner room) := by
  refine .of_bind inferInstance fun c => ?_
  dsimp only
  split <;> infer_instance

instance {elements : List Expr} : Settled (elementRound inner room elements) := by
  have hwalks : Walks (elementRound inner room elements) := by
    unfold elementRound
    infer_instance
  exact .of_pauses pauses_elementRound

instance {line : Nat} : Walks (spelledList rounds inner room line) := by
  change Walks (listElement inner room >>= fun first =>
    iterate (elementRound inner room) rounds [first] >>= fun elements =>
    pure (Expr.list elements line))
  infer_instance

instance : Barred (keyedValue rounds inner room) where
  toWalks := by
    refine .of_bind inferInstance fun c => ?_
    dsimp only
    split <;> infer_instance
  fails hc := by
    refine .after rfl ?_
    rcases hc with h | h <;> rw [h] <;> exact .bind ⟨_, _, rfl⟩
  moves {a c c'} hmore hr := by
    -- a key is passed before anything else
    have hnext {f : Token → Production (String × Expr)} [hf : ∀ t, Walks (f t)]
      (hne : c.here.kind ≠ .eof)
        (hr : run (take >>= f) c = (.ok a, c')) : c'.remaining < c.remaining :=
      (hf c.here).remaining_lt hr (Cursor.remaining_next_lt hne hmore)
    rw [keyedValue, run_cursor] at hr
    dsimp only at hr
    split at hr
    · exact hnext (by rw [‹c.here.kind = _›]; rintro ⟨⟩) hr
    · exact hnext (by rw [‹c.here.kind = _›]; rintro ⟨⟩) hr
    · cases hr

instance : Barred (recordField rounds inner room) := by
  rw [recordField_eq]
  infer_instance

instance {fields : List (String × Expr)} : Settled (fieldRound rounds inner room fields) := by
  have hwalks : Walks (fieldRound rounds inner room fields) := by
    unfold fieldRound
    infer_instance
  exact .of_pauses pauses_fieldRound

instance {fields : List (String × Expr)} {line : Nat} :
    Barred (closedRecord rounds line fields) := by
  unfold closedRecord
  infer_instance

instance {line : Nat} : Walks (recordLiteral rounds inner room line) := by
  rw [recordLiteral_eq]
  infer_instance

instance {line : Nat} : Walks (lengthCall rounds inner room line) := by
  unfold lengthCall
  infer_instance

instance : Settled (primary rounds inner room) := by
  have hwalks : Walks (primary rounds inner room) := by
    refine .of_bind inferInstance fun c => ?_
    dsimp only
    split <;> infer_instance
  exact .of_fails fun hc => primary_fails hc.beginsPhrase

instance {object : Expr} : Settled (suffix rounds inner room object) := by
  have hwalks : Walks (suffix rounds inner room object) := by
    refine .of_bind inferInstance fun c => ?_
    split <;> infer_instance
  exact .of_pauses fun _ hc => suffix_none (hc.joint_ne (by decide))

instance : Settled (call rounds inner room) := by
  unfold call
  infer_instance

instance : Settled (unary rounds inner room) := by
  have hwalks : Walks (unary rounds inner room) := by
    refine .of_bind inferInstance fun c => ?_
    split <;> infer_instance
  exact .of_fails fun hc => unary_fails hc.beginsPhrase

end Inside

section Operators

instance : Walks factorOperator := by
  refine .of_bind inferInstance fun c => ?_
  split <;> infer_instance

instance : Settled factorOperator :=
  .of_pauses fun _ hc => factorOperator_none (hc.joint_ne (by decide))

instance : Walks termOperator := by
  refine .of_bind inferInstance fun c => ?_
  split <;> infer_instance

instance : Settled termOperator :=
  .of_pauses fun _ hc => termOperator_none (hc.joint_ne (by decide))

instance : Walks comparisonOperator := by
  refine .of_bind inferInstance fun c => ?_
  split <;> infer_instance

instance : Settled comparisonOperator := .of_pauses fun _ hc =>
  comparisonOperator_none (hc.joint_ne (by decide))

instance : Walks andOperator := by
  unfold andOperator
  infer_instance

instance : Settled andOperator := .of_pauses pauses_andOperator

instance : Walks orOperator := by
  unfold orOperator
  infer_instance

instance : Settled orOperator := .of_pauses fun _ hc => orOperator_none (hc.joint_ne (by decide))

instance : Walks orEqual := by
  unfold orEqual
  infer_instance

instance : Walks spelledComparison := by
  refine .of_bind inferInstance fun c => ?_
  dsimp only
  split <;> infer_instance

instance : Walks trailingComparison := by
  unfold trailingComparison
  infer_instance

instance : Settled trailingComparison := by
  refine ⟨fun hc hr => ?_⟩
  cases (trailingComparison_idle hc.idle).symm.trans hr
  rfl

variable {operator : Production (Option (BinaryOp × Nat))} {operand : Production Expr}

instance [Settled operator] [Settled operand] {left : Expr} :
    Settled (operatorRound operator operand left) := by
  refine .of_bind inferInstance fun o => ?_
  split <;> infer_instance

instance [Settled operator] [Settled operand] :
    Settled (leftAssociative rounds operator operand) := by
  change Settled (operand >>= iterate (operatorRound operator operand) rounds)
  infer_instance

end Operators

section Levels

variable [inner.Settles]

instance : Settled (factor rounds inner room) := by
  unfold factor
  infer_instance

instance : Settled (term rounds inner room) := by
  unfold term
  infer_instance

instance : Settled (comparison rounds inner room) := by
  unfold comparison
  infer_instance

instance {left : Expr} {line : Nat} : Walks (comparedWith rounds inner room left line) := by
  refine .of_bind inferInstance fun o => ?_
  split <;> infer_instance

instance {left : Expr} : Settled (equalityRound rounds inner room left) := by
  have hwalks : Walks (equalityRound rounds inner room left) := by
    unfold equalityRound
    infer_instance
  exact .of_pauses pauses_equalityRound

instance : Settled (equality rounds inner room) := by
  change Settled (comparison rounds inner room >>= iterate (equalityRound rounds inner room) rounds)
  infer_instance

instance : Settled (conjunction rounds inner room) := by
  unfold conjunction
  infer_instance

instance {level : Level} : Settled (atLevel rounds inner room level) := by
  cases level with
  | disjunction =>
    exact inferInstanceAs
      (Settled (leftAssociative rounds orOperator (conjunction rounds inner room)))
  | comparison => exact inferInstanceAs (Settled (comparison rounds inner room))
  | unary => exact inferInstanceAs (Settled (unary rounds inner room))
  | call => exact inferInstanceAs (Settled (call rounds inner room))

end Levels

instance exprAt_settles {tokens : Nat} : Inner.Settles (exprAt tokens) := by
  induction tokens with
  | zero => exact ⟨fun _ _ => inferInstanceAs (Settled (expected "expression"))⟩
  | succ tokens ih =>
    exact ⟨fun level room => inferInstanceAs (Settled (atLevel tokens (exprAt tokens) room level))⟩

section Headings

/-- A key alone is an operand. -/
lemma primary_heads : Heads (primary rounds inner room) := by
  rintro c c' e ⟨⟨word, hk⟩ | ⟨text, hk⟩, _⟩ hr
  all_goals
    rw [primary, run_cursor] at hr
    dsimp only at hr
    rw [hk] at hr
    cases hr
    rfl

variable [inner.Settles] {level : Level}

lemma call_heads : Heads (call rounds inner room) := primary_heads.bind

lemma unary_heads : Heads (unary rounds inner room) := by
  rintro c c' e h hr
  obtain ⟨⟨word, hk⟩ | ⟨text, hk⟩, _⟩ := id h
  all_goals
    rw [unary, run_cursor, hk] at hr
    exact call_heads h hr

lemma leftAssociative_heads {operator : Production (Option (BinaryOp × Nat))}
    {operand : Production Expr} [Settled operator] [Settled operand] (h : Heads operand) :
    Heads (leftAssociative rounds operator operand) :=
  Heads.bind (f := iterate (operatorRound operator operand) rounds) h

lemma comparison_heads : Heads (comparison rounds inner room) :=
  leftAssociative_heads (leftAssociative_heads (leftAssociative_heads unary_heads))

/-- A key is mistaken for an expression of any level. -/
lemma atLevel_heads : Heads (atLevel rounds inner room level) := by
  cases level with
  | disjunction =>
    have hequality : Heads (equality rounds inner room) :=
      Heads.bind (f := iterate (equalityRound rounds inner room) rounds) comparison_heads
    have hconjunction : Heads (conjunction rounds inner room) := leftAssociative_heads hequality
    exact leftAssociative_heads hconjunction
  | comparison => exact comparison_heads
  | unary => exact unary_heads
  | call => exact call_heads

lemma exprAt_heads {tokens : Nat} : Heads (exprAt tokens level room) := by
  cases tokens with
  | zero => exact fun _ _ _ _ hr => nomatch hr
  | succ tokens => exact atLevel_heads

end Headings

end Grammar

end Colloquy
