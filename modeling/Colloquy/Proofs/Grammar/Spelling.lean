import Colloquy.Proofs.Token.Lexeme
import Colloquy.Proofs.Grammar.Rendering

/-!
# Spelling an expression

`Expr.render` writes an expression with symbols, and with parentheses where a way of writing asks
for them. Every rendering below the limit of nesting is read as the expression.
-/

namespace Colloquy

open Grammar Production List Token Colloquy.Expr

/-- What a reader of expressions sees of a token. -/
abbrev Mark := TokenKind × Nat

/-- The kind and the line of a token. -/
def Token.mark (t : Token) : Mark := (t.kind, t.line)

/-- The levels of the places where operands stand, never looser than operators allow. -/
structure Style where
  left : BinaryOp → Nat
  right : BinaryOp → Nat
  operand : Nat
  level_le_left : ∀ op, op.level ≤ left op
  level_lt_right : ∀ op, op.level < right op
  prefixLevel_le_operand : prefixLevel ≤ operand

namespace Style

/-- Parentheses only where the levels of operators require them. -/
def sparse : Style where
  left := BinaryOp.level
  right op := op.level + 1
  operand := prefixLevel
  level_le_left op := Nat.le_refl op.level
  level_lt_right op := Nat.lt_succ_self op.level
  prefixLevel_le_operand := Nat.le_refl prefixLevel

/-- Parentheses around every operand that has operators. -/
def full : Style where
  left _ := postfixLevel
  right _ := postfixLevel
  operand := postfixLevel
  level_le_left op := by cases op <;> decide
  level_lt_right op := by cases op <;> decide
  prefixLevel_le_operand := by decide

end Style

/-- The marks of a phrase, in parentheses if they are needed. -/
def enclosed (needed : Bool) (line : Nat) (marks : List Mark) : List Mark :=
  if needed then (.symbol .leftParen, line) :: (marks ++ [(.symbol .rightParen, line)]) else marks

/-- The word that names a property after a dot on this line. -/
def Expr.propertyWord? (line : Nat) : Expr → Option String
  | .literal (.text word) own => if own = line ∧ Text.isName word then some word else none
  | _ => none

/-- The kind of token that spells the key of a field. -/
def keyKind (key : String) : TokenKind := if Text.isName key then .identifier key else .string key

mutual

/-- The marks of an expression at a place of some level. -/
def Expr.render (style : Style) (level : Nat) : Expr → List Mark
  | .literal value line => [(value.kind, line)]
  | .identifier name .plain line => [(.identifier name, line)]
  | .identifier name .global line => [(.keyword .global, line), (.identifier name, line)]
  | .binary op left right line =>
    enclosed (op.level < level) line
      (left.render style (style.left op) ++ (op.kind, line) :: right.render style (style.right op))
  | .unary op operand line =>
    enclosed (prefixLevel < level) line ((op.kind, line) :: operand.render style style.operand)
  | .call function args line =>
    (.identifier function, line) :: (.symbol .leftParen, line) ::
      (Expr.renderItems style line args ++ [(.symbol .rightParen, line)])
  | .member object property line =>
    match property.propertyWord? line with
    | some word =>
      object.render style postfixLevel ++ [(.symbol .dot, line), (.identifier word, line)]
    | none =>
      object.render style postfixLevel ++
        (.symbol .leftBracket, line) :: (property.render style 0 ++ [(.symbol .rightBracket, line)])
  | .list elements line =>
    (.symbol .leftBracket, line) ::
      (Expr.renderItems style line elements ++ [(.symbol .rightBracket, line)])
  | .record fields line =>
    (.symbol .leftBrace, line) ::
      (Expr.renderFields style line fields ++ [(.symbol .rightBrace, line)])

/-- The marks of some expressions with commas between them. -/
def Expr.renderItems (style : Style) (line : Nat) : List Expr → List Mark
  | [] => []
  | e :: es => e.render style 0 ++ Expr.renderMore style line es

/-- The marks of further expressions, each after a comma. -/
def Expr.renderMore (style : Style) (line : Nat) : List Expr → List Mark
  | [] => []
  | e :: es => (.symbol .comma, line) :: (e.render style 0 ++ Expr.renderMore style line es)

/-- The marks of some fields with commas between them. -/
def Expr.renderFields (style : Style) (line : Nat) : List (String × Expr) → List Mark
  | [] => []
  | (key, e) :: fields =>
    (keyKind key, line) :: (.symbol .colon, line) ::
      (e.render style 0 ++ Expr.renderMoreFields style line fields)

/-- The marks of further fields, each after a comma. -/
def Expr.renderMoreFields (style : Style) (line : Nat) : List (String × Expr) → List Mark
  | [] => []
  | (key, e) :: fields =>
    (.symbol .comma, line) :: (keyKind key, line) :: (.symbol .colon, line) ::
      (e.render style 0 ++ Expr.renderMoreFields style line fields)

end

mutual

/-- How deep brackets, arguments and prefix operators of a rendering are nested. -/
def Expr.nesting (style : Style) (level : Nat) : Expr → Nat
  | .literal _ _ => 0
  | .identifier _ _ _ => 0
  | .binary op left right _ =>
    max (left.nesting style (style.left op)) (right.nesting style (style.right op)) +
      (if op.level < level then 1 else 0)
  | .unary _ operand _ =>
    operand.nesting style style.operand + 1 + (if prefixLevel < level then 1 else 0)
  | .call _ args _ => Expr.itemsNesting style args
  | .member object property line =>
    match property.propertyWord? line with
    | some _ => object.nesting style postfixLevel
    | none => max (object.nesting style postfixLevel) (property.nesting style 0 + 1)
  | .list elements _ => Expr.itemsNesting style elements
  | .record fields _ => Expr.fieldsNesting style fields

/-- How deep those of the items between two brackets are nested. -/
def Expr.itemsNesting (style : Style) : List Expr → Nat
  | [] => 0
  | e :: es => max (e.nesting style 0 + 1) (Expr.itemsNesting style es)

/-- How deep those of the fields between two braces are nested. -/
def Expr.fieldsNesting (style : Style) : List (String × Expr) → Nat
  | [] => 0
  | (_, e) :: fields => max (e.nesting style 0 + 1) (Expr.fieldsNesting style fields)

end

section Relation

mutual

/-- A rendering fits into more depth. -/
lemma Rendered.mono {depth level : Nat} {e : Expr} {ts : List Token} :
    Rendered depth level e ts → ∀ {more}, depth ≤ more → Rendered more level e ts
  | .parentheses ho h hc, more + 1, hle => .parentheses ho (h.mono (Nat.le_of_succ_le_succ hle)) hc
  | .literal ht, _, _ => .literal ht
  | .identifier ht, _, _ => .identifier ht
  | .global hg ht, _, _ => .global hg ht
  | .binary hlevel hl ho hr, _, hle => .binary hlevel (hl.mono hle) ho (hr.mono hle)
  | .unary hlevel ho h, more + 1, hle => .unary hlevel ho (h.mono (Nat.le_of_succ_le_succ hle))
  | .call hf ho h hc, _, hle => .call hf ho (h.mono hle) hc
  | .property h hd ht, _, hle => .property (h.mono hle) hd ht
  | .index h ho hi hc, more + 1, hle =>
    .index (h.mono hle) ho (hi.mono (Nat.le_of_succ_le_succ hle)) hc
  | .list ho h hc, _, hle => .list ho (h.mono hle) hc
  | .record ho h hc, _, hle => .record ho (h.mono hle) hc

lemma RenderedItems.mono {depth : Nat} {es : List Expr} {ts : List Token} :
    RenderedItems depth es ts → ∀ {more}, depth ≤ more → RenderedItems more es ts
  | .nil, _, _ => .nil
  | .cons h hmore, more + 1, hle => .cons (h.mono (Nat.le_of_succ_le_succ hle)) (hmore.mono hle)

lemma RenderedMore.mono {depth : Nat} {es : List Expr} {ts : List Token} :
    RenderedMore depth es ts → ∀ {more}, depth ≤ more → RenderedMore more es ts
  | .nil, _, _ => .nil
  | .cons hcomma h hmore, more + 1, hle =>
    .cons hcomma (h.mono (Nat.le_of_succ_le_succ hle)) (hmore.mono hle)

lemma RenderedFields.mono {depth : Nat} {fields : List (String × Expr)} {ts : List Token} :
    RenderedFields depth fields ts → ∀ {more}, depth ≤ more → RenderedFields more fields ts
  | .nil, _, _ => .nil
  | .cons hk hcolon h hmore, more + 1, hle =>
    .cons hk hcolon (h.mono (Nat.le_of_succ_le_succ hle)) (hmore.mono hle)

lemma RenderedMoreFields.mono {depth : Nat} {fields : List (String × Expr)} {ts : List Token} :
    RenderedMoreFields depth fields ts → ∀ {more}, depth ≤ more → RenderedMoreFields more fields ts
  | .nil, _, _ => .nil
  | .cons hcomma hk hcolon h hmore, more + 1, hle =>
    .cons hcomma hk hcolon (h.mono (Nat.le_of_succ_le_succ hle)) (hmore.mono hle)

end

variable {depth level : Nat} {e : Expr} {ts : List Token}

/-- A rendering can stand at a looser place. -/
lemma Rendered.loosen {looser : Nat} (h : Rendered depth level e ts) (hle : looser ≤ level) :
    Rendered depth looser e ts := by
  cases h with
  | parentheses ho h hc => exact .parentheses ho h hc
  | literal ht => exact .literal ht
  | identifier ht => exact .identifier ht
  | global hg ht => exact .global hg ht
  | binary hlevel hl ho hr => exact .binary (Nat.le_trans hle hlevel) hl ho hr
  | unary hlevel ho h => exact .unary (Nat.le_trans hle hlevel) ho h
  | call hf ho h hc => exact .call hf ho h hc
  | property h hd ht => exact .property h hd ht
  | index h ho hi hc => exact .index h ho hi hc
  | list ho h hc => exact .list ho h hc
  | record ho h hc => exact .record ho h hc

lemma Rendered.under {room : Nat} (h : Rendered depth level e ts) (hlt : depth < room) :
    ∃ less, room = less + 1 ∧ Rendered less level e ts := by
  cases room with
  | zero => cases hlt
  | succ less => exact ⟨less, rfl, h.mono (Nat.le_of_lt_succ hlt)⟩

lemma Rendered.reads {room tokens : Nat} {k : Cursor} (h : Rendered depth 0 e ts)
    (hroom : depth < room) (htokens : (k.before ts).remaining < tokens) (hk : Stops 0 k.here.kind) :
    Yields (expressionAt tokens room) ts e k := by
  obtain ⟨less, rfl, hless⟩ := h.under hroom
  have hread : ReadableAs less 0 e ts := hless.readable (Nat.zero_le _)
  exact hread.inner htokens hk

end Relation

section Marks

variable {depth level : Nat} {e : Expr} {ts : List Token} {marks : List Mark} {m : Mark}

lemma Token.map_mark_cons (h : ts.map Token.mark = m :: marks) :
    ∃ t us, ts = t :: us ∧ t.kind = m.1 ∧ t.line = m.2 ∧ us.map Token.mark = marks := by
  obtain ⟨t, us, rfl, ht, hus⟩ := map_eq_cons_iff.1 h
  subst ht
  exact ⟨t, us, rfl, rfl, rfl, hus⟩

lemma Token.map_mark_append {more : List Mark} (h : ts.map Token.mark = marks ++ more) :
    ∃ us vs, ts = us ++ vs ∧ us.map Token.mark = marks ∧ vs.map Token.mark = more :=
  map_eq_append_iff.1 h

lemma Token.map_mark_concat (h : ts.map Token.mark = marks ++ [m]) :
    ∃ us t, ts = us ++ [t] ∧ us.map Token.mark = marks ∧ t.kind = m.1 := by
  obtain ⟨us, vs, rfl, hus, hvs⟩ := map_mark_append h
  obtain ⟨t, ws, rfl, ht, _, hws⟩ := map_mark_cons hvs
  obtain rfl := map_eq_nil_iff.1 hws
  exact ⟨us, t, rfl, hus, ht⟩

/-- Parentheses stand around what is looser than its place. -/
lemma rendered_enclosed {own line : Nat}
    (h : ∀ us place, us.map Token.mark = marks → place ≤ own → Rendered depth place e us)
    (hts : ts.map Token.mark = enclosed (own < level) line marks) :
    Rendered (depth + if own < level then 1 else 0) level e ts := by
  by_cases hlt : own < level
  · rw [enclosed, decide_eq_true hlt, if_pos rfl] at hts
    obtain ⟨o, us, rfl, ho, _, hus⟩ := map_mark_cons hts
    obtain ⟨vs, c, rfl, hvs, hc⟩ := map_mark_concat hus
    rw [if_pos hlt]
    exact .parentheses ho (h vs 0 hvs (Nat.zero_le _)) hc
  · rw [enclosed, decide_eq_false hlt] at hts
    rw [if_neg hlt]
    exact h ts level hts (Nat.le_of_not_lt hlt)

lemma Expr.propertyWord?_some {line : Nat} {word : String} (h : e.propertyWord? line = some word) :
    e = .literal (.text word) line ∧ Text.isName word = true := by
  unfold propertyWord? at h
  split at h
  · split at h
    · rename_i hword
      cases h
      rw [hword.1]
      exact ⟨rfl, hword.2⟩
    · cases h
  · cases h

lemma spellsKey_of_keyKind {key : String} {t : Token} (h : t.kind = keyKind key) :
    SpellsKey key t := by
  unfold keyKind at h
  split at h
  · exact .inl h
  · exact .inr h

mutual

/-- Tokens with the marks of an expression spell it. -/
lemma Expr.rendered (style : Style) : ∀ (e : Expr) (level : Nat) (ts : List Token),
    ts.map Token.mark = e.render style level → Rendered (e.nesting style level) level e ts
  | .literal value line, level, ts, h => by
    rw [render] at h
    rw [nesting]
    obtain ⟨t, us, rfl, ht, rfl, hus⟩ := map_mark_cons h
    obtain rfl := map_eq_nil_iff.1 hus
    exact .literal ht
  | .identifier name .plain line, level, ts, h => by
    rw [render] at h
    rw [nesting]
    obtain ⟨t, us, rfl, ht, rfl, hus⟩ := map_mark_cons h
    obtain rfl := map_eq_nil_iff.1 hus
    exact .identifier ht
  | .identifier name .global line, level, ts, h => by
    rw [render] at h
    rw [nesting]
    obtain ⟨g, us, rfl, hg, rfl, hus⟩ := map_mark_cons h
    obtain ⟨t, vs, rfl, ht, _, hvs⟩ := map_mark_cons hus
    obtain rfl := map_eq_nil_iff.1 hvs
    exact .global hg ht
  | .binary op left right line, level, ts, h => by
    rw [render] at h
    rw [nesting]
    refine rendered_enclosed (fun us place hus hplace => ?_) h
    obtain ⟨ls, vs, rfl, hls, hvs⟩ := map_mark_append hus
    obtain ⟨o, rs, rfl, ho, rfl, hrs⟩ := map_mark_cons hvs
    -- a style may put an operand into parentheses that the operator does not ask for, and never the
    -- other way
    have hl := (left.rendered style _ ls hls).loosen (style.level_le_left op)
    have hr := (right.rendered style _ rs hrs).loosen (style.level_lt_right op)
    exact .binary hplace (hl.mono (Nat.le_max_left _ _)) ho (hr.mono (Nat.le_max_right _ _))
  | .unary op operand line, level, ts, h => by
    rw [render] at h
    rw [nesting]
    refine rendered_enclosed (fun us place hus hplace => ?_) h
    obtain ⟨o, vs, rfl, ho, rfl, hvs⟩ := map_mark_cons hus
    exact .unary hplace ho ((operand.rendered style _ vs hvs).loosen style.prefixLevel_le_operand)
  | .call function args line, level, ts, h => by
    rw [render] at h
    rw [nesting]
    obtain ⟨f, us, rfl, hf, _, hus⟩ := map_mark_cons h
    obtain ⟨o, vs, rfl, ho, rfl, hvs⟩ := map_mark_cons hus
    obtain ⟨ws, c, rfl, hws, hc⟩ := map_mark_concat hvs
    exact .call hf ho (renderedItems style args _ ws hws) hc
  | .member object property line, level, ts, h => by
    rw [render] at h
    rw [nesting]
    cases hword : property.propertyWord? line with
    | some word =>
      rw [hword] at h
      obtain ⟨us, vs, rfl, hus, hvs⟩ := map_mark_append h
      obtain ⟨d, ws, rfl, hd, rfl, hws⟩ := map_mark_cons hvs
      obtain ⟨t, xs, rfl, ht, _, hxs⟩ := map_mark_cons hws
      obtain rfl := map_eq_nil_iff.1 hxs
      rw [(propertyWord?_some hword).1]
      exact .property (object.rendered style _ us hus) hd (.identifier ht)
    | none =>
      rw [hword] at h
      obtain ⟨us, vs, rfl, hus, hvs⟩ := map_mark_append h
      obtain ⟨o, ws, rfl, ho, rfl, hws⟩ := map_mark_cons hvs
      obtain ⟨xs, c, rfl, hxs, hc⟩ := map_mark_concat hws
      -- the object stands beside the brackets and the property inside them
      have hobject :=
        (object.rendered style _ us hus).mono (Nat.le_max_left _ (property.nesting style 0 + 1))
      obtain ⟨less, hless, hproperty⟩ :=
        (property.rendered style _ xs hxs).under (Nat.lt_of_succ_le (Nat.le_max_right _ _))
      rw [hless] at hobject ⊢
      exact .index hobject ho hproperty hc
  | .list elements line, level, ts, h => by
    rw [render] at h
    rw [nesting]
    obtain ⟨o, us, rfl, ho, rfl, hus⟩ := map_mark_cons h
    obtain ⟨vs, c, rfl, hvs, hc⟩ := map_mark_concat hus
    exact .list ho (renderedItems style elements _ vs hvs) hc
  | .record fields line, level, ts, h => by
    rw [render] at h
    rw [nesting]
    obtain ⟨o, us, rfl, ho, rfl, hus⟩ := map_mark_cons h
    obtain ⟨vs, c, rfl, hvs, hc⟩ := map_mark_concat hus
    exact .record ho (renderedFields style fields _ vs hvs) hc

/-- Items are rendered by induction on the expressions in them. -/
lemma Expr.renderedItems (style : Style) : ∀ (es : List Expr) (line : Nat) (ts : List Token),
    ts.map Token.mark = renderItems style line es →
    RenderedItems (itemsNesting style es) es ts
  | [], line, ts, h => by
    rw [renderItems] at h
    rw [itemsNesting]
    obtain rfl := map_eq_nil_iff.1 h
    exact .nil
  | e :: es, line, ts, h => by
    rw [renderItems] at h
    rw [itemsNesting]
    obtain ⟨us, vs, rfl, hus, hvs⟩ := map_mark_append h
    have hmore :=
      (renderedMore style es line vs hvs).mono (Nat.le_max_right (e.nesting style 0 + 1) _)
    obtain ⟨less, hless, he⟩ :=
      (e.rendered style 0 us hus).under (Nat.lt_of_succ_le (Nat.le_max_left _ _))
    rw [hless] at hmore ⊢
    exact .cons he hmore

/-- Further items are rendered. -/
lemma Expr.renderedMore (style : Style) : ∀ (es : List Expr) (line : Nat) (ts : List Token),
    ts.map Token.mark = renderMore style line es →
    RenderedMore (itemsNesting style es) es ts
  | [], line, ts, h => by
    rw [renderMore] at h
    rw [itemsNesting]
    obtain rfl := map_eq_nil_iff.1 h
    exact .nil
  | e :: es, line, ts, h => by
    rw [renderMore] at h
    rw [itemsNesting]
    obtain ⟨comma, us, rfl, hcomma, _, hus⟩ := map_mark_cons h
    obtain ⟨vs, ws, rfl, hvs, hws⟩ := map_mark_append hus
    have hmore :=
      (renderedMore style es line ws hws).mono (Nat.le_max_right (e.nesting style 0 + 1) _)
    obtain ⟨less, hless, he⟩ :=
      (e.rendered style 0 vs hvs).under (Nat.lt_of_succ_le (Nat.le_max_left _ _))
    rw [hless] at hmore ⊢
    exact .cons hcomma he hmore

/-- So are fields. -/
lemma Expr.renderedFields (style : Style) :
    ∀ (fields : List (String × Expr)) (line : Nat) (ts : List Token),
    ts.map Token.mark = renderFields style line fields →
      RenderedFields (fieldsNesting style fields) fields ts
  | [], line, ts, h => by
    rw [renderFields] at h
    rw [fieldsNesting]
    obtain rfl := map_eq_nil_iff.1 h
    exact .nil
  | (key, e) :: fields, line, ts, h => by
    rw [renderFields] at h
    rw [fieldsNesting]
    obtain ⟨k, us, rfl, hk, _, hus⟩ := map_mark_cons h
    obtain ⟨colon, vs, rfl, hcolon, _, hvs⟩ := map_mark_cons hus
    obtain ⟨ws, xs, rfl, hws, hxs⟩ := map_mark_append hvs
    have hmore :=
      (renderedMoreFields style fields line xs hxs).mono
        (Nat.le_max_right (e.nesting style 0 + 1) _)
    obtain ⟨less, hless, he⟩ :=
      (e.rendered style 0 ws hws).under (Nat.lt_of_succ_le (Nat.le_max_left _ _))
    rw [hless] at hmore ⊢
    exact .cons (spellsKey_of_keyKind hk) hcolon he hmore

/-- So are further fields. -/
lemma Expr.renderedMoreFields (style : Style) :
    ∀ (fields : List (String × Expr)) (line : Nat) (ts : List Token),
    ts.map Token.mark = renderMoreFields style line fields →
      RenderedMoreFields (fieldsNesting style fields) fields ts
  | [], line, ts, h => by
    rw [renderMoreFields] at h
    rw [fieldsNesting]
    obtain rfl := map_eq_nil_iff.1 h
    exact .nil
  | (key, e) :: fields, line, ts, h => by
    rw [renderMoreFields] at h
    rw [fieldsNesting]
    obtain ⟨comma, us, rfl, hcomma, _, hus⟩ := map_mark_cons h
    obtain ⟨k, vs, rfl, hk, _, hvs⟩ := map_mark_cons hus
    obtain ⟨colon, ws, rfl, hcolon, _, hws⟩ := map_mark_cons hvs
    obtain ⟨xs, ys, rfl, hxs, hys⟩ := map_mark_append hws
    have hmore :=
      (renderedMoreFields style fields line ys hys).mono
        (Nat.le_max_right (e.nesting style 0 + 1) _)
    obtain ⟨less, hless, he⟩ :=
      (e.rendered style 0 xs hxs).under (Nat.lt_of_succ_le (Nat.le_max_left _ _))
    rw [hless] at hmore ⊢
    exact .cons hcomma (spellsKey_of_keyKind hk) hcolon he hmore

end

end Marks

lemma expression_run {c : Cursor} :
    expression.run c = (expressionAt (c.remaining + 1) maxNesting).run c := by
  unfold expression Production.run
  rfl

/-- An expression with the fewest parentheses is read back, up to the end of the line or of the
input. So is every other rendering of it. -/
theorem expression_run_rendered {stop : Token} {rest : List Token} {blocks : Nat} (e : Expr)
    (hstop : stop.kind = .newline ∨ stop.kind = .eof) :
    (∀ ts, ts.map Token.mark = e.render .sparse 0 → e.nesting .sparse 0 < maxNesting →
      expression.run (Cursor.before ⟨stop, rest, blocks⟩ ts) = (.ok e, ⟨stop, rest, blocks⟩)) ∧
    ∀ depth ts, Rendered depth 0 e ts → depth < maxNesting →
      expression.run (Cursor.before ⟨stop, rest, blocks⟩ ts) = (.ok e, ⟨stop, rest, blocks⟩) := by
  have hread (depth : Nat) (ts : List Token) (h : Rendered depth 0 e ts)
    (hdepth : depth < maxNesting) :
      expression.run (Cursor.before ⟨stop, rest, blocks⟩ ts) = (.ok e, ⟨stop, rest, blocks⟩) := by
    rw [expression_run]
    refine h.reads hdepth (Nat.lt_succ_self _) (stops_of_joint_none ?_)
    rcases hstop with hk | hk <;> rw [hk] <;> rfl
  exact ⟨fun ts hts hdepth => hread _ ts (e.rendered .sparse 0 ts hts) hdepth, hread⟩

/-- The row `not (a or b) and -x * (y - z) == f(u.name)[i + w]`. -/
def tangledKinds : List TokenKind :=
  [.keyword .not, .symbol .leftParen, .identifier "a",
  .keyword .or, .identifier "b", .symbol .rightParen,
    .keyword .and, .symbol .minus, .identifier "x", .symbol .star,
    .symbol .leftParen, .identifier "y", .symbol .minus,
    .identifier "z", .symbol .rightParen, .symbol .equalEqual,
    .identifier "f", .symbol .leftParen, .identifier "u",
    .symbol .dot, .identifier "name", .symbol .rightParen,
    .symbol .leftBracket, .identifier "i", .symbol .plus, .identifier "w", .symbol .rightBracket]

/-- What the row means. -/
def tangled : Expr :=
  let name (word : String) : Expr := .identifier word .plain 1
  .binary .and (.unary .not (.binary .or (name "a") (name "b") 1) 1)
    (.binary .equal
      (.binary .multiply (.unary .negate (name "x") 1)
        (.binary .subtract (name "y") (name "z") 1) 1)
      (.member (.call "f" [.member (name "u") (.literal (.text "name") 1) 1] 1)
        (.binary .add (name "i") (name "w") 1) 1) 1) 1

/-- It is read back up to the end of its line. -/
theorem expression_run_tangled :
    let stop : Cursor := ⟨⟨.newline, "\n", .start⟩, [⟨.eof, "", .start⟩], 0⟩
    expression.run (stop.before (tangledKinds.map fun kind => ⟨kind, "", .start⟩)) =
      (.ok tangled, stop) :=
  (expression_run_rendered tangled (.inl rfl)).1 _ (by decide +kernel) (by decide +kernel)

end Colloquy
