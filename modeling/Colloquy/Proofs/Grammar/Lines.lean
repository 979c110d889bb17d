import Colloquy.Syntax
import Mathlib.Tactic.Lemma

/-!
# Moving the lines of a tree

`Expr.mapLine` and `Stmt.mapLine` send every line of a tree through a function, as when the same
phrase stands at another place of a text.
-/

namespace Colloquy

open List Stmt Colloquy.Expr Option

mutual

/-- The expression with every line sent through a function. -/
def Expr.mapLine (f : Nat → Nat) : Expr → Expr
  | .literal v line => .literal v (f line)
  | .identifier name scope line => .identifier name scope (f line)
  | .binary op left right line => .binary op (left.mapLine f) (right.mapLine f) (f line)
  | .unary op operand line => .unary op (operand.mapLine f) (f line)
  | .call callee args line => .call callee (Expr.mapLines f args) (f line)
  | .member object property line => .member (object.mapLine f) (property.mapLine f) (f line)
  | .list elements line => .list (Expr.mapLines f elements) (f line)
  | .record fields line => .record (Expr.mapFields f fields) (f line)

/-- Expressions with every line sent through a function. -/
def Expr.mapLines (f : Nat → Nat) : List Expr → List Expr
  | [] => []
  | e :: es => e.mapLine f :: Expr.mapLines f es

/-- Fields with every line sent through a function. -/
def Expr.mapFields (f : Nat → Nat) : List (String × Expr) → List (String × Expr)
  | [] => []
  | (key, e) :: fields => (key, e.mapLine f) :: Expr.mapFields f fields

end

mutual

/-- The statement with every line sent through a function. -/
def Stmt.mapLine (f : Nat → Nat) : Stmt → Stmt
  | .event name timer body line => .event name timer (Stmt.mapLines f body) (f line)
  | .function name params body line => .function name params (Stmt.mapLines f body) (f line)
  | .assign target scope value line => .assign target scope (value.mapLine f) (f line)
  | .increase target scope amount line => .increase target scope (amount.mapLine f) (f line)
  | .decrease target scope amount line => .decrease target scope (amount.mapLine f) (f line)
  | .delete target scope line => .delete target scope (f line)
  | .call callee args line => .call callee (Expr.mapLines f args) (f line)
  | .ifElse condition thenBody elseBody line =>
    .ifElse (condition.mapLine f) (Stmt.mapLines f thenBody) (Stmt.mapBranch f elseBody) (f line)
  | .whileLoop condition body line =>
    .whileLoop (condition.mapLine f) (Stmt.mapLines f body) (f line)
  | .forEach item iterable body line =>
    .forEach item (iterable.mapLine f) (Stmt.mapLines f body) (f line)
  | .print value endsLine line => .print (value.mapLine f) endsLine (f line)
  | .giveBack value line => .giveBack (value.map (Expr.mapLine f)) (f line)
  | .expression value line => .expression (value.mapLine f) (f line)

/-- Statements with every line sent through a function. -/
def Stmt.mapLines (f : Nat → Nat) : List Stmt → List Stmt
  | [] => []
  | s :: body => s.mapLine f :: Stmt.mapLines f body

/-- The statements of a branch with every line sent through a function. -/
def Stmt.mapBranch (f : Nat → Nat) : Option (List Stmt) → Option (List Stmt)
  | none => none
  | some body => some (Stmt.mapLines f body)

end

section Maps

variable {f : Nat → Nat}

lemma Expr.mapLines_eq_map {es : List Expr} : Expr.mapLines f es = es.map (Expr.mapLine f) := by
  induction es with
  | nil => rfl
  | cons e es ih => rw [Expr.mapLines, ih, map_cons]

lemma Expr.mapFields_append {xs ys : List (String × Expr)} :
    Expr.mapFields f (xs ++ ys) = Expr.mapFields f xs ++ Expr.mapFields f ys := by
  induction xs with
  | nil => rfl
  | cons x xs ih => rw [cons_append, Expr.mapFields, ih, Expr.mapFields, cons_append]

lemma Stmt.mapLines_eq_map {body : List Stmt} :
    Stmt.mapLines f body = body.map (Stmt.mapLine f) := by
  induction body with
  | nil => rfl
  | cons s body ih => rw [Stmt.mapLines, ih, map_cons]

end Maps

mutual

lemma Expr.mapLine_id : ∀ e : Expr, e.mapLine id = e
  | .literal v line => rfl
  | .identifier name scope line => rfl
  | .binary op left right line => by rw [Expr.mapLine, left.mapLine_id, right.mapLine_id, id]
  | .unary op operand line => by rw [Expr.mapLine, operand.mapLine_id, id]
  | .call callee args line => by rw [Expr.mapLine, mapLines_id args, id]
  | .member object property line => by rw [Expr.mapLine, object.mapLine_id, property.mapLine_id, id]
  | .list elements line => by rw [Expr.mapLine, mapLines_id elements, id]
  | .record fields line => by rw [Expr.mapLine, mapFields_id fields, id]

lemma Expr.mapLines_id : ∀ es : List Expr, Expr.mapLines id es = es
  | [] => rfl
  | e :: es => by rw [Expr.mapLines, e.mapLine_id, mapLines_id es]

lemma Expr.mapFields_id : ∀ fields : List (String × Expr), Expr.mapFields id fields = fields
  | [] => rfl
  | (key, e) :: fields => by rw [Expr.mapFields, e.mapLine_id, mapFields_id fields]

end

mutual

/-- Lines that stay change nothing. -/
lemma Stmt.mapLine_id : ∀ s : Stmt, s.mapLine id = s
  | .event name timer body line => by rw [Stmt.mapLine, mapLines_id body, id]
  | .function name params body line => by rw [Stmt.mapLine, mapLines_id body, id]
  | .assign target scope value line => by rw [Stmt.mapLine, value.mapLine_id, id]
  | .increase target scope amount line => by rw [Stmt.mapLine, amount.mapLine_id, id]
  | .decrease target scope amount line => by rw [Stmt.mapLine, amount.mapLine_id, id]
  | .delete target scope line => rfl
  | .call callee args line => by rw [Stmt.mapLine, Expr.mapLines_id args, id]
  | .ifElse condition thenBody elseBody line => by
    rw [Stmt.mapLine, condition.mapLine_id, mapLines_id thenBody, mapBranch_id elseBody, id]
  | .whileLoop condition body line =>
    by rw [Stmt.mapLine, condition.mapLine_id, mapLines_id body, id]
  | .forEach item iterable body line =>
    by rw [Stmt.mapLine, iterable.mapLine_id, mapLines_id body, id]
  | .print value endsLine line => by rw [Stmt.mapLine, value.mapLine_id, id]
  | .giveBack none line => rfl
  | .giveBack (some value) line => by rw [Stmt.mapLine, map_some, value.mapLine_id, id]
  | .expression value line => by rw [Stmt.mapLine, value.mapLine_id, id]

lemma Stmt.mapLines_id : ∀ body : List Stmt, Stmt.mapLines id body = body
  | [] => rfl
  | s :: body => by rw [Stmt.mapLines, s.mapLine_id, mapLines_id body]

lemma Stmt.mapBranch_id : ∀ branch : Option (List Stmt), Stmt.mapBranch id branch = branch
  | none => rfl
  | some body => by rw [Stmt.mapBranch, mapLines_id body]

end

section Likeness

variable {f g : Nat → Nat} {line line' : Nat}

/-- Two expressions are the same when their lines are sent through two functions. -/
def Expr.Like (f g : Nat → Nat) (a b : Expr) : Prop := a.mapLine f = b.mapLine g

/-- The same for the expressions of two lists. -/
def Expr.LikeAll (f g : Nat → Nat) (as bs : List Expr) : Prop :=
  Expr.mapLines f as = Expr.mapLines g bs

/-- The same for the fields of two records. -/
def Expr.LikeFields (f g : Nat → Nat) (as bs : List (String × Expr)) : Prop :=
  Expr.mapFields f as = Expr.mapFields g bs

namespace Expr

variable {a b a' b' : Expr} {as bs : List Expr} {fields fields' : List (String × Expr)}

lemma Like.of_id (h : Like f id a b) : b = a.mapLine f := by
  rw [show a.mapLine f = b.mapLine id from h, mapLine_id]

lemma LikeAll.nil : LikeAll f g [] [] := rfl

lemma LikeAll.concat (hs : LikeAll f g as bs) (h : Like f g a b) :
    LikeAll f g (as ++ [a]) (bs ++ [b]) := by
  rw [LikeAll, mapLines_eq_map, mapLines_eq_map] at hs ⊢
  rw [map_append, map_append, hs, map_singleton,
    map_singleton, show a.mapLine f = b.mapLine g from h]

lemma LikeAll.singleton (h : Like f g a b) : LikeAll f g [a] [b] := LikeAll.concat .nil h

lemma LikeFields.nil : LikeFields f g [] [] := rfl

lemma LikeFields.concat {key : String} (hs : LikeFields f g fields fields') (h : Like f g a b) :
    LikeFields f g (fields ++ [(key, a)]) (fields' ++ [(key, b)]) := by
  rw [LikeFields, mapFields_append, mapFields_append,
    show mapFields f fields = mapFields g fields' from hs, mapFields,
    mapFields, show a.mapLine f = b.mapLine g from h, mapFields, mapFields]

variable (hl : f line = g line')

include hl

lemma Like.literal {value : Literal} : Like f g (.literal value line) (.literal value line') := by
  rw [Like, mapLine, mapLine, hl]

lemma Like.identifier {name : String} {scope : Scope} :
    Like f g (.identifier name scope line) (.identifier name scope line') := by
  rw [Like, mapLine, mapLine, hl]

lemma Like.binary {op : BinaryOp} (h : Like f g a b) (h' : Like f g a' b') :
    Like f g (.binary op a a' line) (.binary op b b' line') := by
  rw [Like, mapLine, mapLine, show a.mapLine f = _ from h, show a'.mapLine f = _ from h', hl]

lemma Like.unary {op : UnaryOp} (h : Like f g a b) :
    Like f g (.unary op a line) (.unary op b line') := by
  rw [Like, mapLine, mapLine, show a.mapLine f = _ from h, hl]

lemma Like.call {callee : String} (h : LikeAll f g as bs) :
    Like f g (.call callee as line) (.call callee bs line') := by
  rw [Like, mapLine, mapLine, show mapLines f as = _ from h, hl]

lemma Like.member (h : Like f g a b) (h' : Like f g a' b') :
    Like f g (.member a a' line) (.member b b' line') := by
  rw [Like, mapLine, mapLine, show a.mapLine f = _ from h, show a'.mapLine f = _ from h', hl]

lemma Like.list (h : LikeAll f g as bs) : Like f g (.list as line) (.list bs line') := by
  rw [Like, mapLine, mapLine, show mapLines f as = _ from h, hl]

lemma Like.record (h : LikeFields f g fields fields') :
    Like f g (.record fields line) (.record fields' line') := by
  rw [Like, mapLine, mapLine, show mapFields f fields = _ from h, hl]

end Expr

/-- Two statements are the same when their lines are sent through two functions. -/
def Stmt.Like (f g : Nat → Nat) (s t : Stmt) : Prop := s.mapLine f = t.mapLine g

/-- The same for the statements of two lists. -/
def Stmt.LikeAll (f g : Nat → Nat) (ss ts : List Stmt) : Prop :=
  Stmt.mapLines f ss = Stmt.mapLines g ts

namespace Stmt

variable {s t : Stmt} {a b : Expr} {as bs : List Expr} {body body' : List Stmt}
  {name : String} {scope : Scope}

lemma LikeAll.nil : LikeAll f g [] [] := rfl

lemma LikeAll.concat (hs : LikeAll f g body body') (h : Like f g s t) :
    LikeAll f g (body ++ [s]) (body' ++ [t]) := by
  rw [LikeAll, mapLines_eq_map, mapLines_eq_map] at hs ⊢
  rw [map_append, map_append, hs, map_singleton,
    map_singleton, show s.mapLine f = t.mapLine g from h]

lemma LikeAll.of_id (h : LikeAll f id body body') : body' = body.map (mapLine f) := by
  rw [← mapLines_eq_map, show mapLines f body = mapLines id body' from h, mapLines_id]

variable (hl : f line = g line')

include hl

lemma Like.event {timer : Option Schedule} (h : LikeAll f g body body') :
    Like f g (.event name timer body line) (.event name timer body' line') := by
  rw [Like, mapLine, mapLine, show mapLines f body = _ from h, hl]

lemma Like.function {params : List String} (h : LikeAll f g body body') :
    Like f g (.function name params body line) (.function name params body' line') := by
  rw [Like, mapLine, mapLine, show mapLines f body = _ from h, hl]

lemma Like.assign (h : a.Like f g b) :
    Like f g (.assign name scope a line) (.assign name scope b line') := by
  rw [Like, mapLine, mapLine, show a.mapLine f = _ from h, hl]

lemma Like.increase (h : a.Like f g b) :
    Like f g (.increase name scope a line) (.increase name scope b line') := by
  rw [Like, mapLine, mapLine, show a.mapLine f = _ from h, hl]

lemma Like.decrease (h : a.Like f g b) :
    Like f g (.decrease name scope a line) (.decrease name scope b line') := by
  rw [Like, mapLine, mapLine, show a.mapLine f = _ from h, hl]

lemma Like.delete : Like f g (.delete name scope line) (.delete name scope line') := by
  rw [Like, mapLine, mapLine, hl]

lemma Like.call (h : Expr.LikeAll f g as bs) :
    Like f g (.call name as line) (.call name bs line') := by
  rw [Like, mapLine, mapLine, show Expr.mapLines f as = _ from h, hl]

lemma Like.whileLoop (h : a.Like f g b) (hb : LikeAll f g body body') :
    Like f g (.whileLoop a body line) (.whileLoop b body' line') := by
  rw [Like, mapLine, mapLine, show a.mapLine f = _ from h, show mapLines f body = _ from hb, hl]

lemma Like.forEach (h : a.Like f g b) (hb : LikeAll f g body body') :
    Like f g (.forEach name a body line) (.forEach name b body' line') := by
  rw [Like, mapLine, mapLine, show a.mapLine f = _ from h, show mapLines f body = _ from hb, hl]

lemma Like.print {endsLine : Bool} (h : a.Like f g b) :
    Like f g (.print a endsLine line) (.print b endsLine line') := by
  rw [Like, mapLine, mapLine, show a.mapLine f = _ from h, hl]

lemma Like.giveBack_none : Like f g (.giveBack none line) (.giveBack none line') := by
  rw [Like, mapLine, mapLine, hl, map_none, map_none]

lemma Like.giveBack_some (h : a.Like f g b) :
    Like f g (.giveBack (some a) line) (.giveBack (some b) line') := by
  rw [Like, mapLine, mapLine, map_some, map_some, show a.mapLine f = _ from h, hl]

end Stmt

end Likeness

end Colloquy
