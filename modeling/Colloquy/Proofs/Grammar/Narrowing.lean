import Colloquy.Proofs.Grammar.Settling

/-!
# Room for nesting

A reader with less room for nesting reads what one with more room does, or refuses it for being
nested too deeply.
-/

namespace Colloquy

open Grammar Production

namespace Production

variable {α β σ : Type} {p q : Production α} {f : α → Production β} {c : Cursor}

/-- The refusal of a phrase that is nested too deeply. -/
def TooDeep (r : Except SyntaxError α × Cursor) : Prop :=
  ∃ position c, r = (.error ⟨.invalid .nestedTooDeeply, position⟩, c)

/-- A production reads what another does, or refuses it for its depth. -/
class Narrows (p q : Production α) : Prop where
  narrow (c : Cursor) : p.run c = q.run c ∨ TooDeep (p.run c)

instance {p : Production α} : Narrows p p := ⟨fun _ => .inl rfl⟩

lemma TooDeep.bind (h : TooDeep (p.run c)) : TooDeep ((p >>= f).run c) := by
  obtain ⟨position, c', hr⟩ := h
  refine ⟨position, c', ?_⟩
  rw [run_bind, hr]

lemma Narrows.of_bind {g : α → Production β} (hp : Narrows p q) (hf : ∀ a, Narrows (f a) (g a)) :
    Narrows (p >>= f) (q >>= g) where
  narrow c := by
    rcases hp.narrow c with heq | hdeep
    · rw [run_bind, run_bind, heq]
      split
      · exact (hf _).narrow _
      · exact .inl rfl
    · exact .inr hdeep.bind

instance {p q : Production α} {f g : α → Production β} [hp : Narrows p q]
    [hf : ∀ a, Narrows (f a) (g a)] :
    Narrows (p >>= f) (q >>= g) := .of_bind hp hf

instance {p q p' q' : Production α} {flag : Prop} [Decidable flag] [hp : Narrows p q]
    [hp' : Narrows p' q'] :
    Narrows (if flag then p else p') (if flag then q else q') := by
  split
  · exact hp
  · exact hp'

instance {step step' : σ → Production (Option σ)} {rounds : Nat} {x : σ}
    [hstep : ∀ x, Narrows (step x) (step' x)] :
    Narrows (iterate step rounds x) (iterate step' rounds x) := by
  induction rounds generalizing x with
  | zero => exact inferInstanceAs (Narrows (pure x) (pure x))
  | succ rounds ih =>
    refine .of_bind (hstep x) fun o => ?_
    cases o with
    | none => exact inferInstanceAs (Narrows (pure x) (pure x))
    | some y => exact ih

lemma Narrows.run_ok (h : Narrows p q) {a : α} {c' : Cursor} (hp : p.run c = (.ok a, c')) :
    q.run c = (.ok a, c') := by
  rcases h.narrow c with heq | ⟨_, _, hdeep⟩
  · exact heq.symm.trans hp
  · cases hp.symm.trans hdeep

lemma Narrows.nested {inner inner' : Nat → Production α}
    (h : ∀ room, Narrows (inner room) (inner' (room + 1))) (room : Nat) :
    Narrows (Production.nested room inner) (Production.nested (room + 1) inner') := by
  cases room with
  | zero => exact ⟨fun c => .inr ⟨_, _, rfl⟩⟩
  | succ room => exact ⟨(h room).narrow⟩

end Production

namespace Grammar

section Levels

/-- Inner expressions of the first kind are read as the second, or refused for their depth. -/
class Inner.Narrows (inner inner' : Inner) (room room' : Nat) : Prop where
  same (level : Level) : Production.Narrows (inner level room) (inner' level room')
  deeper (level : Level) :
  Production.Narrows (nested room (inner level)) (nested room' (inner' level))

variable {rounds room room' : Nat} {inner inner' : Inner}
  [hI : Inner.Narrows inner inner' room room']

instance {level : Level} : Narrows (inner level room) (inner' level room') := hI.same level

instance {level : Level} : Narrows (nested room (inner level)) (nested room' (inner' level)) :=
  hI.deeper level

instance : Narrows (innerExpression inner room) (innerExpression inner' room') :=
  hI.deeper .disjunction

instance : Narrows (commaSeparated rounds (innerExpression inner room))
    (commaSeparated rounds (innerExpression inner' room')) := by
  unfold commaSeparated
  infer_instance

instance : Narrows (parenthesized rounds inner room) (parenthesized rounds inner' room') := by
  unfold parenthesized
  infer_instance

instance : Narrows (naturalArguments rounds inner room) (naturalArguments rounds inner' room') := by
  unfold naturalArguments
  infer_instance

instance : Narrows (listElement inner room) (listElement inner' room') := by
  refine .of_bind inferInstance fun c => ?_
  dsimp only
  split <;> infer_instance

instance {elements : List Expr} :
    Narrows (elementRound inner room elements) (elementRound inner' room' elements) := by
  unfold elementRound
  infer_instance

instance {line : Nat} :
    Narrows (spelledList rounds inner room line) (spelledList rounds inner' room' line) := by
  change Narrows (listElement inner room >>= fun first =>
    iterate (elementRound inner room) rounds [first] >>= _)
    (listElement inner' room' >>= fun first =>
    iterate (elementRound inner' room') rounds [first] >>= _)
  infer_instance

instance : Narrows (keyedValue rounds inner room) (keyedValue rounds inner' room') := by
  unfold keyedValue
  refine .of_bind inferInstance fun c => ?_
  dsimp only
  split <;> infer_instance

instance : Narrows (recordField rounds inner room) (recordField rounds inner' room') := by
  rw [recordField_eq, recordField_eq]
  infer_instance

instance {fields : List (String × Expr)} :
    Narrows (fieldRound rounds inner room fields) (fieldRound rounds inner' room' fields) := by
  unfold fieldRound
  infer_instance

instance {line : Nat} :
    Narrows (recordLiteral rounds inner room line) (recordLiteral rounds inner' room' line) := by
  rw [recordLiteral_eq, recordLiteral_eq]
  infer_instance

instance {line : Nat} :
    Narrows (lengthCall rounds inner room line) (lengthCall rounds inner' room' line) := by
  unfold lengthCall
  infer_instance

instance : Narrows (primary rounds inner room) (primary rounds inner' room') := by
  refine .of_bind inferInstance fun c => ?_
  dsimp only
  split <;> infer_instance

instance {object : Expr} :
    Narrows (suffix rounds inner room object) (suffix rounds inner' room' object) := by
  refine .of_bind inferInstance fun c => ?_
  split <;> infer_instance

instance : Narrows (call rounds inner room) (call rounds inner' room') := by
  unfold call
  infer_instance

instance : Narrows (unary rounds inner room) (unary rounds inner' room') := by
  refine .of_bind inferInstance fun c => ?_
  split <;> infer_instance

instance {operator : Production (Option (BinaryOp × Nat))} {operand operand' : Production Expr}
    [hoperand : Narrows operand operand'] :
    Narrows (leftAssociative rounds operator operand)
    (leftAssociative rounds operator operand') := by
  have hround {left : Expr} :
      Narrows (operatorRound operator operand left) (operatorRound operator operand' left) := by
    refine .of_bind inferInstance fun o => ?_
    split <;> infer_instance
  exact .of_bind hoperand fun first => inferInstanceAs
    (Narrows (iterate (operatorRound operator operand) rounds first)
      (iterate (operatorRound operator operand') rounds first))

instance : Narrows (factor rounds inner room) (factor rounds inner' room') := by
  unfold factor
  infer_instance

instance : Narrows (term rounds inner room) (term rounds inner' room') := by
  unfold term
  infer_instance

instance : Narrows (comparison rounds inner room) (comparison rounds inner' room') := by
  unfold comparison
  infer_instance

instance {left : Expr} {line : Nat} : Narrows (comparedWith rounds inner room left line)
    (comparedWith rounds inner' room' left line) := by
  refine .of_bind inferInstance fun o => ?_
  split <;> infer_instance

instance {left : Expr} :
    Narrows (equalityRound rounds inner room left) (equalityRound rounds inner' room' left) := by
  unfold equalityRound
  infer_instance

instance : Narrows (equality rounds inner room) (equality rounds inner' room') := by
  change Narrows (comparison rounds inner room >>= iterate (equalityRound rounds inner room) rounds)
    (comparison rounds inner' room' >>= iterate (equalityRound rounds inner' room') rounds)
  infer_instance

instance : Narrows (conjunction rounds inner room) (conjunction rounds inner' room') := by
  unfold conjunction
  infer_instance

instance {level : Level} :
    Narrows (atLevel rounds inner room level) (atLevel rounds inner' room' level) := by
  cases level with
  | disjunction =>
    exact inferInstanceAs
      (Narrows (leftAssociative rounds orOperator (conjunction rounds inner room))
      (leftAssociative rounds orOperator (conjunction rounds inner' room')))
  | comparison =>
    exact inferInstanceAs (Narrows (comparison rounds inner room) (comparison rounds inner' room'))
  | unary => exact inferInstanceAs (Narrows (unary rounds inner room) (unary rounds inner' room'))
  | call => exact inferInstanceAs (Narrows (call rounds inner room) (call rounds inner' room'))

end Levels

/-- With one level less, an expression is read as it was, or refused for its depth. -/
lemma exprAt_narrows (tokens : Nat) (level : Level) (room : Nat) :
    Narrows (exprAt tokens level room) (exprAt tokens level (room + 1)) := by
  induction tokens generalizing level room with
  | zero => exact inferInstanceAs (Narrows (expected "expression") (expected "expression"))
  | succ tokens ih =>
    have hI : Inner.Narrows (exprAt tokens) (exprAt tokens) room (room + 1) :=
      ⟨fun level => ih level room, fun level => .nested (ih level) room⟩
    exact inferInstanceAs
      (Narrows (atLevel tokens (exprAt tokens) room level)
        (atLevel tokens (exprAt tokens) (room + 1) level))

end Grammar

end Colloquy
