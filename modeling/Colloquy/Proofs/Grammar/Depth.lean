import Colloquy.Proofs.Grammar.Ensures

/-!
# How deep an expression can be nested

Blocks, operators with one operand, brackets and braces take a level of nesting; what follows
`length of`, `list of`, `using`, `with`, `ask` and `else if` does not. So the depth of a tree is
bounded by the room that is left and by how often such words occur, which have a weight.
-/

namespace Colloquy

open Grammar Production List Colloquy.Expr Option Cursor

mutual

/-- How deep an expression is nested; arguments and elements have a weight. -/
def Expr.depth (w : Nat) : Expr → Nat
  | .literal _ _ => 0
  | .identifier _ _ _ => 0
  | .binary _ left right _ => max (left.depth w) (right.depth w)
  | .unary _ operand _ => operand.depth w + 1
  | .call _ args _ => Expr.itemsDepth w args
  -- what a member belongs to stands beside it, not around it
  | .member object property _ => max (object.depth w) (property.depth w + 1)
  | .list elements _ => Expr.itemsDepth w elements
  | .record fields _ => Expr.fieldsDepth w fields

/-- How deep arguments or elements are nested in their expression. -/
def Expr.itemsDepth (w : Nat) : List Expr → Nat
  | [] => 0
  | e :: es => max (e.depth w + w) (Expr.itemsDepth w es)

/-- How deep the fields of a record are nested inside it. -/
def Expr.fieldsDepth (w : Nat) : List (String × Expr) → Nat
  | [] => 0
  | (_, e) :: fields => max (e.depth w + 1) (Expr.fieldsDepth w fields)

end

/-- Whether a branch is one more condition, as after `else if`. -/
def Stmt.isLink : List Stmt → Bool
  | [.ifElse ..] => true
  | _ => false

mutual

/-- How deep a statement is nested; arguments, elements and links have a weight. -/
def Stmt.depth (w : Nat) : Stmt → Nat
  | .event _ _ body _ => Stmt.bodyDepth w 1 body
  | .function _ _ body _ => Stmt.bodyDepth w 1 body
  | .assign _ _ value _ => value.depth w
  | .increase _ _ amount _ => amount.depth w
  | .decrease _ _ amount _ => amount.depth w
  | .delete _ _ _ => 0
  | .call _ args _ => Expr.itemsDepth w args
  | .ifElse condition thenBody elseBody _ =>
    max (condition.depth w) (max (Stmt.bodyDepth w 1 thenBody) (Stmt.branchDepth w elseBody))
  | .whileLoop condition body _ => max (condition.depth w) (Stmt.bodyDepth w 1 body)
  | .forEach _ iterable body _ => max (iterable.depth w) (Stmt.bodyDepth w 1 body)
  | .print value _ _ => value.depth w
  | .giveBack (some value) _ => value.depth w
  | .giveBack none _ => 0
  | .expression value _ => value.depth w

/-- How deep the statements of a block are nested in theirs. -/
def Stmt.bodyDepth (w step : Nat) : List Stmt → Nat
  | [] => 0
  | s :: body => max (s.depth w + step) (Stmt.bodyDepth w step body)

/-- How deep the statements of an `else` are nested in theirs. -/
def Stmt.branchDepth (w : Nat) : Option (List Stmt) → Nat
  | none => 0
  | some body => Stmt.bodyDepth w (if Stmt.isLink body then w else 1) body

end

/-- How deep a program is nested. -/
def Program.depth (w : Nat) (p : Program) : Nat := Stmt.bodyDepth w 0 p.body

/-- How deep a condition and its block are nested. -/
def Grammar.Guarded.depth (w : Nat) (g : Guarded) : Nat :=
  max (g.condition.depth w) (Stmt.bodyDepth w 1 g.body)

/-- How deep the links of a chain are nested in the first. -/
def linksDepth (w : Nat) : List Guarded → Nat
  | [] => 0
  | g :: others => max (g.depth w) (linksDepth w others) + w

section Rows

variable {w step : Nat}

lemma Stmt.bodyDepth_concat {body : List Stmt} {s : Stmt} :
    Stmt.bodyDepth w step (body ++ [s]) = max (Stmt.bodyDepth w step body) (s.depth w + step) := by
  induction body with
  | nil => exact Nat.max_comm _ _
  | cons x body ih => rw [cons_append, Stmt.bodyDepth, ih, Stmt.bodyDepth, Nat.max_assoc]

/-- A branch is no deeper than its body. -/
lemma Stmt.branchDepth_some_le (hw : w ≤ 1) (body : List Stmt) :
    Stmt.branchDepth w (some body) ≤ Stmt.bodyDepth w 1 body := by
  have hmono (step : Nat) (hstep : step ≤ 1) :
      Stmt.bodyDepth w step body ≤ Stmt.bodyDepth w 1 body := by
    induction body with
    | nil => exact Nat.le_refl 0
    | cons s body ih =>
      rw [Stmt.bodyDepth, Stmt.bodyDepth]
      omega
  rw [Stmt.branchDepth]
  split
  · exact hmono w hw
  · exact hmono 1 (Nat.le_refl 1)

lemma linksDepth_concat {others : List Guarded} {g : Guarded} :
    linksDepth w (others ++ [g]) = max (linksDepth w others)
    (g.depth w + (w * others.length + w)) := by
  induction others with
  | nil => simp [linksDepth]
  | cons x others ih =>
    rw [cons_append, linksDepth, ih, linksDepth, length_cons, Nat.mul_succ]
    omega

/-- A chain is as deep as its links and its last branch. -/
lemma branchDepth_links (others : List Guarded) (last : Option (List Stmt)) :
    Stmt.branchDepth w
      (others.foldr (fun g rest => some [.ifElse g.condition g.body rest g.line]) last) ≤
      max (linksDepth w others) (Stmt.branchDepth w last + w * others.length) := by
  induction others with
  | nil => exact Nat.le_max_right _ _
  | cons g others ih =>
    rw [foldr_cons, Stmt.branchDepth, Stmt.isLink,
      if_pos rfl, Stmt.bodyDepth, Stmt.bodyDepth, Stmt.depth, linksDepth,
      Guarded.depth, length_cons, Nat.mul_succ]
    omega

end Rows

/-- Whether a word of this kind has no level of nesting of its own. -/
def unguarded : TokenKind → Option TokenKind → Bool
  | .keyword .usingWord, _ | .keyword .withWord, _ | .keyword .ask, _ => true
  | .keyword .length, some (.keyword .of) | .keyword .list, some (.keyword .of) => true
  | .keyword .elseWord, some (.keyword .ifWord) => true
  | _, _ => false

/-- The weight of the words that have no level of their own. -/
def slack (w : Nat) : List TokenKind → Nat
  | [] => 0
  | kind :: kinds => (if unguarded kind kinds.head? then w else 0) + slack w kinds

namespace Cursor

variable {w : Nat} {c : Cursor}

/-- The weight of those words from a cursor on. -/
def slack (w : Nat) (c : Cursor) : Nat := Colloquy.slack w (c.row.map Token.kind)

/-- The row of a cursor ends with the end of the input. -/
def Closed (c : Cursor) : Prop := ∃ ts t, c.row = ts ++ [t] ∧ t.kind = .eof

lemma Closed.ahead_ne_nil (h : c.Closed) (hne : c.here.kind ≠ .eof) : c.ahead ≠ [] := by
  obtain ⟨ts, t, hrow, ht⟩ := h
  intro hnil
  rw [Cursor.row, hnil] at hrow
  cases ts with
  | nil =>
    cases hrow
    exact hne ht
  | cons u us => simp at hrow

/-- The next place is closed as well. -/
lemma Closed.next (h : c.Closed) : c.next.Closed := by
  by_cases hne : c.here.kind = .eof
  · rwa [Cursor.next, if_pos hne]
  · have hahead := h.ahead_ne_nil hne
    obtain ⟨ts, t, hrow, ht⟩ := h
    refine ⟨ts.tail, t, ?_, ht⟩
    rw [row_next hne hahead]
    cases ts with
    | nil =>
      rw [Cursor.row] at hrow
      injection hrow with _ hnil
      exact absurd hnil hahead
    | cons u us =>
      rw [Cursor.row] at hrow
      injection hrow

lemma slack_next_le : c.next.slack w ≤ c.slack w := by
  obtain ⟨here, ahead, depth⟩ := c
  unfold Cursor.next Cursor.slack
  split
  · exact Nat.le_refl _
  · cases ahead with
    | nil => exact Nat.le_refl _
    | cons token rest => exact Nat.le_add_left _ _

/-- A word without a level of its own uses up its weight. -/
lemma Closed.slack_next (h : c.Closed) (hne : c.here.kind ≠ .eof)
    (hu : unguarded c.here.kind (some c.next.here.kind) = true) :
    c.next.slack w + w ≤ c.slack w := by
  obtain ⟨token, rest, hahead⟩ := exists_cons_of_ne_nil (h.ahead_ne_nil hne)
  obtain ⟨here, ahead, depth⟩ := c
  cases hahead
  have hnext : Cursor.next ⟨here, token :: rest, depth⟩ = ⟨token, rest, depth⟩ := if_neg hne
  rw [hnext] at hu ⊢
  change _ ≤ (if unguarded here.kind (some token.kind) then w else 0) +
    Cursor.slack w ⟨token, rest, depth⟩
  rw [if_pos hu]
  exact Nat.le_of_eq (Nat.add_comm _ _)

end Cursor

/-- A reader is here with a tree of this depth, and neither it nor what may be read from here on
goes beyond the total. -/
structure Reached (w allowed total depth : Nat) (c : Cursor) : Prop where
  closed : c.Closed
  allowed_le : allowed + c.slack w ≤ total
  depth_le : depth + c.slack w ≤ total

section Reached

variable {w allowed total depth : Nat} {c : Cursor}

section

variable (h : Reached w allowed total depth c)
include h

lemma Reached.next : Reached w allowed total depth c.next := by
  have hslack := slack_next_le (w := w) (c := c)
  have hallowed := h.allowed_le
  have hdepth := h.depth_le
  exact ⟨h.closed.next, by omega, by omega⟩

lemma Reached.onward {c' : Cursor} (h' : c.Reaches c') : Reached w allowed total depth c' := by
  induction h' with
  | refl => exact h
  | next _ ih => exact ih.next

lemma Reached.spare (hne : c.here.kind ≠ .eof)
    (hu : unguarded c.here.kind (some c.next.here.kind) = true) :
    Reached w (allowed + w) total depth c.next := by
  have hslack := h.closed.slack_next (w := w) hne hu
  have hallowed := h.allowed_le
  have hdepth := h.depth_le
  exact ⟨h.closed.next, by omega, by omega⟩

lemma Reached.of_le {allowed' depth' : Nat} (hallowed : allowed' ≤ allowed)
    (hdepth : depth' ≤ depth) :
    Reached w allowed' total depth' c := by
  have hallowed' := h.allowed_le
  have hdepth' := h.depth_le
  exact ⟨h.closed, by omega, by omega⟩

end

end Reached

section Bounded

variable {α β : Type} {w allowed total depth d : Nat} {c : Cursor} {f : α → Nat} {p : Production α}
  {q : α → Production β} {post : β → Cursor → Prop}

/-- What a production reads is nested no deeper than it may be. -/
def Bounded (w allowed : Nat) (f : α → Nat) (p : Production α) : Prop :=
  ∀ c total depth, Reached w allowed total depth c →
    Ensures p c fun a c' => Reached w allowed total (max depth (f a)) c'

lemma Bounded.bind (hp : Bounded w allowed f p) (h : Reached w allowed total depth c)
    (hq : ∀ a c', Reached w allowed total (max depth (f a)) c' → Ensures (q a) c' post) :
    Ensures (p >>= q) c post :=
  .bind (hp c total depth h) hq

/-- A bound is kept by a part that is nested deeper. -/
lemma Bounded.add (hp : Bounded w allowed f p) : Bounded w (allowed + d) (fun a => f a + d) p := by
  intro c total depth h
  have hallowed := h.allowed_le
  have hdepth := h.depth_le
  -- the total that is left to the production itself, all of which is used up already
  have hreached : Reached w allowed (total - d) (total - d - c.slack w) c :=
    ⟨h.closed, by omega, by omega⟩
  refine (hp c (total - d) (total - d - c.slack w) hreached).mono fun a c' h' => ?_
  have hallowed' := h'.allowed_le
  have hdepth' := h'.depth_le
  exact ⟨h'.closed, by omega, by dsimp only; omega⟩

lemma Bounded.iterate {σ : Type} (g : σ → Nat) {step : σ → Production (Option σ)}
    {rounds : Nat} {s : σ} (h : Reached w allowed total (max depth (g s)) c)
    (hstep : ∀ s c, Reached w allowed total (max depth (g s)) c →
      Ensures (step s) c fun r c' => Reached w allowed total (max depth (g (r.getD s))) c') :
    Ensures (Production.iterate step rounds s) c fun s c' =>
    Reached w allowed total (max depth (g s)) c' :=
  .iterate (I := fun s c => Reached w allowed total (max depth (g s)) c) h hstep

/-- A production that returns no tree. -/
def Passes (w : Nat) (p : Production α) : Prop :=
  ∀ c allowed total depth, Reached w allowed total depth c →
  Ensures p c fun _ c' => Reached w allowed total depth c'

lemma Passes.bind (hp : Passes w p)
    (h : Reached w allowed total depth c) (hq : ∀ a c', Reached w allowed total depth c' →
      Ensures (q a) c' post) :
    Ensures (p >>= q) c post := .bind (hp c allowed total depth h) hq

lemma passes_of_walks [hp : Walks p] : Passes w p := by
  intro c allowed total depth h a c' hr
  have hreaches := hp.reaches c
  rw [hr] at hreaches
  exact h.onward hreaches

end Bounded

section Expressions

variable {w rounds room allowed total depth tokens : Nat} {inner : Inner} {c : Cursor} {e : Expr}

lemma Expr.itemsDepth_concat {es : List Expr} :
    Expr.itemsDepth w (es ++ [e]) = max (Expr.itemsDepth w es) (e.depth w + w) := by
  induction es with
  | nil => exact Nat.max_comm _ _
  | cons x es ih => rw [cons_append, Expr.itemsDepth, ih, Expr.itemsDepth, Nat.max_assoc]

lemma Expr.itemsDepth_singleton : Expr.itemsDepth w [e] = e.depth w + w := Nat.max_zero _

lemma Bounded.item {item : Production Expr} {items : List Expr}
    (h : Bounded w allowed (fun e => e.depth w + w) item)
    (hc : Reached w allowed total (max depth (Expr.itemsDepth w items)) c) :
    Ensures (do return some (items ++ [← item])) c fun r c' =>
      Reached w allowed total (max depth (Expr.itemsDepth w (r.getD items))) c' := by
  refine h.bind hc fun e c' he => .pure ?_
  rwa [getD_some, itemsDepth_concat, ← Nat.max_assoc]

lemma bounded_commaSeparated {item : Production Expr}
    (h : Bounded w allowed (fun e => e.depth w + w) item) :
    Bounded w allowed (Expr.itemsDepth w) (commaSeparated rounds item) := by
  intro c total depth hc
  refine h.bind hc fun first c' h' => ?_
  rw [← itemsDepth_singleton] at h'
  refine Bounded.iterate (Expr.itemsDepth w) h' fun items c hitems => ?_
  exact .accept (fun _ => h.item hitems.next) fun _ => .pure hitems

/-- Inner expressions are bounded by their room. -/
def InnerBounded (w : Nat) (inner : Inner) : Prop :=
  ∀ level room, Bounded w (room + 1) (Expr.depth w) (inner level room)

lemma InnerBounded.innerExpression (h : InnerBounded w inner) :
    Bounded w (room + 1) (fun e => e.depth w + 1) (innerExpression inner room) := by
  intro c total depth hc
  refine .nested fun less hless => ?_
  subst hless
  exact (h .disjunction less).add c total depth hc

lemma InnerBounded.spare {level : Level} (h : InnerBounded w inner) :
    Bounded w (room + 1 + w) (fun e => e.depth w + w) (inner level room) := (h level room).add

lemma Bounded.of_le {α : Type} {f g : α → Nat} {p : Production α} (h : Bounded w allowed f p)
    (hle : ∀ a, g a ≤ f a) :
    Bounded w allowed g p := by
  intro c total depth hc
  refine (h c total depth hc).mono fun a c' h' => h'.of_le (Nat.le_refl _) ?_
  have := hle a
  omega

lemma Expr.fieldsDepth_concat {fields : List (String × Expr)} {field : String × Expr} :
    Expr.fieldsDepth w (fields ++ [field]) = max (Expr.fieldsDepth w fields)
    (field.2.depth w + 1) := by
  induction fields with
  | nil => exact Nat.max_comm _ _
  | cons x fields ih => rw [cons_append, Expr.fieldsDepth, ih, Expr.fieldsDepth, Nat.max_assoc]

section Parts

variable (hw : w ≤ 1) (hinner : InnerBounded w inner) {line : Nat}
include hinner

/-- Arguments after `using` take no level of their own. -/
lemma bounded_naturalArguments :
    Bounded w (room + 1 + w) (Expr.itemsDepth w) (naturalArguments rounds inner room) := by
  intro c total depth hc
  refine .cursor ?_
  split
  · exact .pure (hc.of_le (Nat.le_refl _) (Nat.le_of_eq (Nat.max_zero depth)))
  refine hinner.spare.bind hc fun first c' h' => ?_
  rw [← itemsDepth_singleton] at h'
  refine Bounded.iterate (Expr.itemsDepth w) h' fun args c hargs => .cursor ?_
  split
  · exact .take (hinner.spare.item hargs.next)
  · exact .pure hargs

lemma bounded_listElement :
    Bounded w (room + 1 + w) (fun e => e.depth w + w) (listElement inner room) := by
  intro c total depth hc
  refine .cursor ?_
  dsimp only
  split
  · have hallowed := hc.next.allowed_le
    have hdepth := hc.next.depth_le
    exact .take (.pure ⟨hc.closed.next, hallowed, by rw [Expr.depth]; omega⟩)
  · exact hinner.spare c total depth hc

/-- Nor do elements after `list of`. -/
lemma bounded_spelledList :
    Bounded w (room + 1 + w) (Expr.depth w) (spelledList rounds inner room line) := by
  intro c total depth hc
  refine (bounded_listElement hinner).bind hc fun first c' h' => ?_
  rw [← itemsDepth_singleton] at h'
  refine .bind (Bounded.iterate (Expr.itemsDepth w) h' fun items c hitems => ?_)
    fun items c' hitems => .pure hitems
  have helement : Bounded w (room + 1 + w) (fun e => e.depth w + w) (listElement inner room) :=
    bounded_listElement hinner
  refine .accept (fun _ => .accept (fun _ => helement.item hitems.next.next) fun _ =>
    helement.item hitems.next)
    fun _ => .cursor ?_
  split
  · exact .take (helement.item hitems.next)
  · exact .pure hitems

include hw

lemma bounded_item : Bounded w (room + 1) (fun e => e.depth w + w) (innerExpression inner room) :=
  hinner.innerExpression.of_le fun _ => Nat.add_le_add_left hw _

lemma bounded_parenthesized :
    Bounded w (room + 1) (Expr.itemsDepth w) (parenthesized rounds inner room) := by
  intro c total depth hc
  refine .cursor ?_
  split
  · exact .require fun _ =>
      .pure (hc.next.of_le (Nat.le_refl _) (Nat.le_of_eq (Nat.max_zero depth)))
  · exact (bounded_commaSeparated (bounded_item hw hinner)).bind hc fun args c' hargs =>
      .require fun _ => .pure hargs.next

omit hw

/-- Fields of records are bounded. -/
lemma bounded_recordField :
    Bounded w (room + 1) (fun field => field.2.depth w + 1) (recordField rounds inner room) := by
  intro c total depth hc
  refine passes_of_walks.bind hc fun _ c hc => .cursor ?_
  have hvalue {key : String} {c : Cursor} (hc : Reached w (room + 1) total depth c) :
      Ensures (fieldValue rounds inner room key) c fun field c' =>
        Reached w (room + 1) total (max depth (field.2.depth w + 1)) c' :=
    .require fun _ => hinner.innerExpression.bind hc.next fun e c' he =>
    passes_of_walks.bind he fun _ c' he => .pure he
  split
  · exact .take (hvalue hc.next)
  · exact .take (hvalue hc.next)
  · exact .expected

/-- The fields of a record take one. -/
lemma bounded_recordLiteral :
    Bounded w (room + 1) (Expr.depth w) (recordLiteral rounds inner room line) := by
  intro c total depth hc
  have hfield :
      Bounded w (room + 1) (fun field => field.2.depth w + 1) (recordField rounds inner room) :=
    bounded_recordField hinner
  have hclose {fields : List (String × Expr)} {c : Cursor}
      (hc : Reached w (room + 1) total (max depth (Expr.fieldsDepth w fields)) c) :
      Ensures (closedRecord rounds line fields) c fun e c' =>
      Reached w (room + 1) total (max depth (e.depth w)) c' :=
    passes_of_walks.bind hc fun _ c' hc => .require fun _ => .pure hc.next
  refine passes_of_walks.bind hc fun _ c hc => .cursor ?_
  split
  · exact hclose (hc.of_le (Nat.le_refl _) (Nat.le_of_eq (Nat.max_zero depth)))
  refine hfield.bind hc fun first c' h' => ?_
  have hfirst : Reached w (room + 1) total (max depth (Expr.fieldsDepth w [first])) c' := by
    rwa [Expr.fieldsDepth, Expr.fieldsDepth, Nat.max_zero]
  refine .bind (Bounded.iterate (Expr.fieldsDepth w) hfirst fun fields c hfields => ?_)
    fun fields c' hfields => hclose hfields
  refine .accept (fun _ => hfield.bind hfields.next fun field c' h => .pure ?_)
    fun _ => .pure hfields
  rwa [getD_some, fieldsDepth_concat, ← Nat.max_assoc]

include hw

lemma ensures_lengthCall (hc : Reached w (room + 1) total depth c)
    (hk : c.here.kind = .keyword .length) :
    Ensures (lengthCall rounds inner room line) c.next fun e c' =>
    Reached w (room + 1) total (max depth (e.depth w)) c' := by
  refine .accept (fun hof => ?_) fun _ => .accept (fun _ => ?_) fun _ => .expected
  -- the argument is read without a level of its own, which the two words make up for
  · have hspare := hc.spare (by rw [hk]; rintro ⟨⟩) (by rw [hk, hof]; rfl)
    refine hinner.spare.bind hspare.next fun e c' he => .pure ?_
    rw [Expr.depth, itemsDepth_singleton]
    exact he.of_le (Nat.le_add_right _ _) (Nat.le_refl _)
  · exact (bounded_parenthesized hw hinner).bind hc.next.next fun args c' hargs => .pure hargs

/-- Operands are bounded by their room. -/
lemma bounded_primary : Bounded w (room + 1) (Expr.depth w) (primary rounds inner room) := by
  intro c total depth hc
  have hleaf {c : Cursor} {e : Expr} (hc : Reached w (room + 1) total depth c)
    (he : e.depth w = 0) : Ensures (Pure.pure e) c fun e c' =>
      Reached w (room + 1) total (max depth (e.depth w)) c' := by
    refine .pure ?_
    rwa [he, Nat.max_zero]
  refine .cursor ?_
  dsimp only
  split
  · exact .take (hleaf hc.next rfl)
  · exact .take (hleaf hc.next rfl)
  · exact .take (hleaf hc.next rfl)
  · exact .take (hleaf hc.next rfl)
  · exact .take (.name fun _ _ => hleaf hc.next.next rfl)
  · rename_i hk
    exact .take (ensures_lengthCall hw hinner hc hk)
  · rename_i hk
    split
    · rename_i hof
      have hne : c.here.kind ≠ .eof := by rw [hk]; rintro ⟨⟩
      have hnext : c.next.here.kind = .keyword .of := peek_one hne ▸ of_decide_eq_true hof
      have hspare := hc.spare hne (by rw [hk, hnext]; rfl)
      refine .take (.take ((bounded_spelledList hinner _ _ _ hspare.next).mono fun e c' he => ?_))
      exact he.of_le (Nat.le_add_right _ _) (Nat.le_refl _)
    · exact .expected
  · refine .take (hinner.innerExpression.bind hc.next fun e c' he => .require fun _ => .pure ?_)
    exact he.next.of_le (Nat.le_refl _) (by omega)
  · refine .take (.cursor ?_)
    split
    · exact .require fun _ => hleaf hc.next.next rfl
    · exact (bounded_commaSeparated (bounded_item hw hinner)).bind hc.next fun es c' hes =>
        .require fun _ => .pure hes.next
  · exact .take (bounded_recordLiteral hinner _ _ _ hc.next)
  · exact .expected

/-- So is a call or a member of an expression. -/
lemma ensures_suffix {object : Expr}
    (hc : Reached w (room + 1) total (max depth (object.depth w)) c) :
    Ensures (suffix rounds inner room object) c fun r c' =>
      Reached w (room + 1) total (max depth ((r.getD object).depth w)) c' := by
  have hnatural (hne : c.here.kind ≠ .eof)
    (hu : unguarded c.here.kind (some c.next.here.kind) = true) :
      Ensures (naturalCall rounds inner room object) c fun r c' =>
        Reached w (room + 1) total (max depth ((r.getD object).depth w)) c' := by
    refine .take (passes_of_walks.bind (hc.spare hne hu) fun function c' hc => ?_)
    refine (bounded_naturalArguments hinner).bind hc fun args c' hargs =>
      .pure (hargs.of_le (Nat.le_add_right _ _) ?_)
    rw [getD_some, Expr.depth]
    omega
  refine .cursor ?_
  split
  · refine .take (passes_of_walks.bind hc.next fun function c' hc => ?_)
    refine (bounded_parenthesized hw hinner).bind hc fun args c' hargs =>
      .pure (hargs.of_le (Nat.le_refl _) ?_)
    rw [getD_some, Expr.depth]
    omega
  -- a property after a dot adds a level and takes none, which is why one more than the room is
  -- allowed
  · refine .take (passes_of_walks.bind hc.next fun property c' hc => .pure ?_)
    have hallowed := hc.allowed_le
    have hdepth := hc.depth_le
    refine ⟨hc.closed, hallowed, ?_⟩
    rw [getD_some, Expr.depth, Expr.depth]
    omega
  · refine .take (hinner.innerExpression.bind hc.next fun index c' hindex =>
      .require fun _ => .pure ?_)
    refine hindex.next.of_le (Nat.le_refl _) ?_
    rw [getD_some, Expr.depth]
    omega
  · rename_i hk
    exact hnatural (by rw [hk]; rintro ⟨⟩) (by rw [hk]; rfl)
  · rename_i hk
    exact hnatural (by rw [hk]; rintro ⟨⟩) (by rw [hk]; rfl)
  · exact .pure hc

lemma bounded_call : Bounded w (room + 1) (Expr.depth w) (call rounds inner room) := by
  intro c total depth hc
  refine (bounded_primary hw hinner).bind hc fun e c' he => ?_
  exact Bounded.iterate (Expr.depth w) he fun object c hobject => ensures_suffix hw hinner hobject

/-- So are operators with one operand. -/
lemma bounded_unary : Bounded w (room + 1) (Expr.depth w) (unary rounds inner room) := by
  intro c total depth hc
  have hoperand : Bounded w (room + 1) (fun e => e.depth w + 1) (nested room (inner .unary)) := by
    intro c total depth hc
    refine .nested fun less hless => ?_
    subst hless
    exact (hinner .unary less).add c total depth hc
  refine .cursor ?_
  split
  · exact .take (hoperand.bind hc.next fun e c' he => .pure he)
  · exact .take (hoperand.bind hc.next fun e c' he => .pure he)
  · exact bounded_call hw hinner c total depth hc

end Parts

section Operators

variable {operator : Production (Option (BinaryOp × Nat))} {operand : Production Expr}

/-- A chain of operators is as deep as its operands. -/
lemma bounded_leftAssociative (hoperator : Passes w operator)
    (hoperand : Bounded w allowed (Expr.depth w) operand) :
    Bounded w allowed (Expr.depth w) (leftAssociative rounds operator operand) := by
  intro c total depth hc
  refine hoperand.bind hc fun first c' hfirst =>
    Bounded.iterate (Expr.depth w) hfirst fun left c hleft => ?_
  refine hoperator.bind hleft fun r c' hr => ?_
  cases r with
  | none => exact .pure hr
  | some op =>
    refine hoperand.bind hr fun right c' hright => .pure (hright.of_le (Nat.le_refl _) ?_)
    rw [getD_some, Expr.depth]
    omega

end Operators

section Levels

variable (hw : w ≤ 1) (hinner : InnerBounded w inner)
include hw hinner

lemma bounded_comparison : Bounded w (room + 1) (Expr.depth w) (comparison rounds inner room) := by
  have hfactor : Bounded w (room + 1) (Expr.depth w) (factor rounds inner room) :=
    bounded_leftAssociative passes_of_walks (bounded_unary hw hinner)
  have hterm : Bounded w (room + 1) (Expr.depth w) (term rounds inner room) :=
    bounded_leftAssociative passes_of_walks hfactor
  exact bounded_leftAssociative passes_of_walks hterm

/-- A chain of comparisons, too. -/
lemma bounded_equality : Bounded w (room + 1) (Expr.depth w) (equality rounds inner room) := by
  intro c total depth hc
  have hcomparison : Bounded w (room + 1) (Expr.depth w) (comparison rounds inner room) :=
    bounded_comparison hw hinner
  refine hcomparison.bind hc fun first c' hfirst =>
    Bounded.iterate (Expr.depth w) hfirst fun left c hleft => .cursor ?_
  split
  · refine .take (passes_of_walks.bind hleft.next fun r c' hr => ?_)
    cases r with
    | some op =>
      refine hcomparison.bind hr fun right c' hright => .pure (hright.of_le (Nat.le_refl _) ?_)
      rw [getD_some, Expr.depth]
      omega
    | none =>
      refine hcomparison.bind hr fun right c' hright =>
        passes_of_walks.bind hright fun op c' hright => .pure ?_
      refine hright.of_le (Nat.le_refl _) ?_
      rw [getD_some, Expr.depth]
      omega
  · exact .pure hleft

lemma bounded_disjunction :
    Bounded w (room + 1) (Expr.depth w) (disjunction rounds inner room) := by
  have hconjunction : Bounded w (room + 1) (Expr.depth w) (conjunction rounds inner room) :=
    bounded_leftAssociative passes_of_walks (bounded_equality hw hinner)
  exact bounded_leftAssociative passes_of_walks hconjunction

lemma bounded_atLevel {level : Level} :
    Bounded w (room + 1) (Expr.depth w) (atLevel rounds inner room level) := by
  cases level with
  | disjunction => exact bounded_disjunction hw hinner
  | comparison => exact bounded_comparison hw hinner
  | unary => exact bounded_unary hw hinner
  | call => exact bounded_call hw hinner

end Levels

lemma innerBounded_exprAt (hw : w ≤ 1) : InnerBounded w (exprAt tokens) := by
  induction tokens with
  | zero => exact fun _ _ _ _ _ _ => .expected
  | succ tokens ih => exact fun _ _ => bounded_atLevel hw ih

lemma bounded_value (hw : w ≤ 1) : Bounded w room (Expr.depth w) (value tokens room) := by
  intro c total depth hc
  refine .nested fun less hless => ?_
  subst hless
  exact innerBounded_exprAt hw .disjunction less c total depth hc

end Expressions

end Colloquy
