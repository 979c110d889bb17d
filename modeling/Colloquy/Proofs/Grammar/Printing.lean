import Colloquy.Proofs.Grammar.Spelling
import Colloquy.Proofs.Token.Writing

/-!
# Printing a program

A program is printed one statement a line, with four spaces for each block and parentheses around
every operand that has operators. What is printed is split into `Stmt.marks`, with layout where
blocks begin and end.
-/

namespace Colloquy

open List Stmt Bool

/-- A line of a printed program with its indentation. -/
structure Row where
  level : Nat
  kinds : List TokenKind

/-- The expression with every line replaced by this one. -/
def Expr.onLine (n : Nat) (e : Expr) : Expr := e.mapLine fun _ => n

/-- The kinds of the tokens that print an expression. -/
def Expr.kinds (n : Nat) (e : Expr) : List TokenKind := ((e.onLine n).render .full 0).map Prod.fst

/-- The word in front of a global name. -/
def Scope.kinds : Scope → List TokenKind
  | .plain => []
  | .global => [.keyword .global]

/-- The word for a unit. -/
def TimeUnit.word : TimeUnit → String
  | .seconds => "seconds"
  | .milliseconds => "ms"

/-- The token that names an event. -/
def eventKind (name : String) : TokenKind :=
  if name = Program.startEvent then .keyword .start else .identifier name

/-- The parameters after the first one, each after a comma. -/
def moreParams (params : List String) : List TokenKind :=
  params.flatMap fun param => [.symbol .comma, .identifier param]

/-- The parameters of a function, after `using` if there are any. -/
def paramKinds : List String → List TokenKind
  | [] => []
  | param :: params => .keyword .usingWord :: .identifier param :: moreParams params

/-- What stands on the first line of a statement. -/
def Stmt.header (n : Nat) : Stmt → List TokenKind
  | .event name none _ _ => [.keyword .when, eventKind name, .symbol .colon]
  | .event _ (some timer) _ _ =>
    [.keyword .every, .number timer.interval, .identifier timer.unit.word, .symbol .colon]
  | .function name params _ _ =>
    .keyword .to :: .identifier name :: (paramKinds params ++ [.symbol .colon])
  | .assign target scope value _ =>
    .keyword .set :: (scope.kinds ++ .identifier target :: .keyword .to :: value.kinds n)
  | .increase target scope amount _ =>
    .keyword .increase :: (scope.kinds ++ .identifier target :: .keyword .byWord :: amount.kinds n)
  | .decrease target scope amount _ =>
    .keyword .decrease :: (scope.kinds ++ .identifier target :: .keyword .byWord :: amount.kinds n)
  | .delete target scope _ => .keyword .delete :: (scope.kinds ++ [.identifier target])
  | .call callee args line => (Expr.call callee args line).kinds n
  | .ifElse condition _ _ _ => .keyword .ifWord :: (condition.kinds n ++ [.symbol .colon])
  | .whileLoop condition _ _ => .keyword .whileWord :: (condition.kinds n ++ [.symbol .colon])
  | .forEach item iterable _ _ =>
    .keyword .forWord :: .keyword .every :: .identifier item :: .keyword .inWord ::
      (iterable.kinds n ++ [.symbol .colon])
  | .print value endsLine _ => .keyword (if endsLine then .say else .display) :: value.kinds n
  | .giveBack none _ => [.keyword .give, .keyword .back]
  | .giveBack (some value) _ => .keyword .give :: .keyword .back :: value.kinds n
  | .expression value _ => value.kinds n

/-- What stands on the line of an `else`. -/
def elseKinds : List TokenKind := [.keyword .elseWord, .symbol .colon]

mutual

/-- How many lines a statement takes. -/
def Stmt.height : Stmt → Nat
  | .event _ _ body _ | .function _ _ body _ | .whileLoop _ body _ | .forEach _ _ body _ =>
    1 + Stmt.heights body
  | .ifElse _ thenBody elseBody _ => 1 + Stmt.heights thenBody + Stmt.branchHeight elseBody
  | _ => 1

/-- How many lines the statements of a block take. -/
def Stmt.heights : List Stmt → Nat
  | [] => 0
  | s :: body => s.height + Stmt.heights body

/-- How many lines an `else` takes. -/
def Stmt.branchHeight : Option (List Stmt) → Nat
  | none => 0
  | some body => 1 + Stmt.heights body

end

mutual

/-- The rows of a statement, printed from this line on at this level. -/
def Stmt.rows (level n : Nat) : Stmt → List Row
  | .event name timer body line =>
    ⟨level, (Stmt.event name timer body line).header n⟩ :: Stmt.bodyRows (level + 1) (n + 1) body
  | .function name params body line =>
    ⟨level, (Stmt.function name params body line).header n⟩ ::
      Stmt.bodyRows (level + 1) (n + 1) body
  | .whileLoop condition body line =>
    ⟨level, (Stmt.whileLoop condition body line).header n⟩ :: Stmt.bodyRows (level + 1) (n + 1) body
  | .forEach item iterable body line =>
    ⟨level, (Stmt.forEach item iterable body line).header n⟩ ::
      Stmt.bodyRows (level + 1) (n + 1) body
  | .ifElse condition thenBody elseBody line =>
    ⟨level, (Stmt.ifElse condition thenBody elseBody line).header n⟩ ::
      (Stmt.bodyRows (level + 1) (n + 1) thenBody ++
        Stmt.branchRows level (n + 1 + Stmt.heights thenBody) elseBody)
  | s => [⟨level, s.header n⟩]

/-- The rows of the statements of a block. -/
def Stmt.bodyRows (level n : Nat) : List Stmt → List Row
  | [] => []
  | s :: body => s.rows level n ++ Stmt.bodyRows level (n + s.height) body

/-- The rows of an `else`. -/
def Stmt.branchRows (level n : Nat) : Option (List Stmt) → List Row
  | none => []
  | some body => ⟨level, elseKinds⟩ :: Stmt.bodyRows (level + 1) (n + 1) body

end

mutual

/-- The statement with the lines on which it is printed. -/
def Stmt.numbered (n : Nat) : Stmt → Stmt
  | .event name timer body _ => .event name timer (Stmt.numberedBody (n + 1) body) n
  | .function name params body _ => .function name params (Stmt.numberedBody (n + 1) body) n
  | .assign target scope value _ => .assign target scope (value.onLine n) n
  | .increase target scope amount _ => .increase target scope (amount.onLine n) n
  | .decrease target scope amount _ => .decrease target scope (amount.onLine n) n
  | .delete target scope _ => .delete target scope n
  | .call callee args _ => .call callee (Expr.mapLines (fun _ => n) args) n
  | .ifElse condition thenBody elseBody _ =>
    .ifElse (condition.onLine n) (Stmt.numberedBody (n + 1) thenBody)
      (Stmt.numberedBranch (n + 1 + Stmt.heights thenBody) elseBody) n
  | .whileLoop condition body _ =>
    .whileLoop (condition.onLine n) (Stmt.numberedBody (n + 1) body) n
  | .forEach item iterable body _ =>
    .forEach item (iterable.onLine n) (Stmt.numberedBody (n + 1) body) n
  | .print value endsLine _ => .print (value.onLine n) endsLine n
  | .giveBack value _ => .giveBack (value.map (Expr.onLine n)) n
  | .expression value _ => .expression (value.onLine n) n

/-- The statements of a block with their lines. -/
def Stmt.numberedBody (n : Nat) : List Stmt → List Stmt
  | [] => []
  | s :: body => s.numbered n :: Stmt.numberedBody (n + s.height) body

/-- The statements of a branch with their lines, after the `else`. -/
def Stmt.numberedBranch (n : Nat) : Option (List Stmt) → Option (List Stmt)
  | none => none
  | some body => some (Stmt.numberedBody (n + 1) body)

end

/-- A program with the lines on which it is printed. -/
def Program.numbered (p : Program) : Program := ⟨Stmt.numberedBody 1 p.body⟩

/-- The rows of a printed program. -/
def Program.rows (p : Program) : List Row := Stmt.bodyRows 0 1 p.body

/-- The marks of some tokens on one line. -/
def marksOn (n : Nat) (kinds : List TokenKind) : List Mark := kinds.map fun kind => (kind, n)

/-- The marks of a line up to the end of it. -/
def rowMarks (n : Nat) (kinds : List TokenKind) : List Mark := marksOn n kinds ++ [(.newline, n)]

/-- The marks of a block from its first line to the one behind it. -/
def blockMarks (n last : Nat) (inner : List Mark) : List Mark :=
  (.indent, n) :: (inner ++ [(.dedent, last)])

mutual

/-- The marks of a statement that is printed from this line on. -/
def Stmt.marks (n : Nat) : Stmt → List Mark
  | .event name timer body line =>
    rowMarks n ((Stmt.event name timer body line).header n) ++
      blockMarks (n + 1) (n + 1 + Stmt.heights body) (Stmt.bodyMarks (n + 1) body)
  | .function name params body line =>
    rowMarks n ((Stmt.function name params body line).header n) ++
      blockMarks (n + 1) (n + 1 + Stmt.heights body) (Stmt.bodyMarks (n + 1) body)
  | .whileLoop condition body line =>
    rowMarks n ((Stmt.whileLoop condition body line).header n) ++
      blockMarks (n + 1) (n + 1 + Stmt.heights body) (Stmt.bodyMarks (n + 1) body)
  | .forEach item iterable body line =>
    rowMarks n ((Stmt.forEach item iterable body line).header n) ++
      blockMarks (n + 1) (n + 1 + Stmt.heights body) (Stmt.bodyMarks (n + 1) body)
  | .ifElse condition thenBody elseBody line =>
    rowMarks n ((Stmt.ifElse condition thenBody elseBody line).header n) ++
      (blockMarks (n + 1) (n + 1 + Stmt.heights thenBody) (Stmt.bodyMarks (n + 1) thenBody) ++
        Stmt.branchMarks (n + 1 + Stmt.heights thenBody) elseBody)
  | s => rowMarks n (s.header n)

/-- The marks of the statements of a block. -/
def Stmt.bodyMarks (n : Nat) : List Stmt → List Mark
  | [] => []
  | s :: body => s.marks n ++ Stmt.bodyMarks (n + s.height) body

/-- The marks of an `else`. -/
def Stmt.branchMarks (n : Nat) : Option (List Stmt) → List Mark
  | none => []
  | some body =>
    rowMarks n elseKinds ++
      blockMarks (n + 1) (n + 1 + Stmt.heights body) (Stmt.bodyMarks (n + 1) body)

end

/-- Whether an expression is a call. -/
def Expr.isCall : Expr → Bool
  | .call .. => true
  | _ => false

mutual

/-- Whether declarations stand only at the top, no block is empty, and no call stands alone as an
expression. -/
def Stmt.isPlaced (top : Bool) : Stmt → Bool
  | .event _ _ body _ | .function _ _ body _ => top && (!body.isEmpty && Stmt.arePlaced false body)
  | .whileLoop _ body _ | .forEach _ _ body _ => !body.isEmpty && Stmt.arePlaced false body
  | .ifElse _ thenBody elseBody _ =>
    (!thenBody.isEmpty && Stmt.arePlaced false thenBody) && Stmt.isPlacedBranch elseBody
  | .expression value _ => !value.isCall
  | _ => true

/-- The same of some statements. -/
def Stmt.arePlaced (top : Bool) : List Stmt → Bool
  | [] => true
  | s :: body => s.isPlaced top && Stmt.arePlaced top body

/-- The same of a branch, if there is one. -/
def Stmt.isPlacedBranch : Option (List Stmt) → Bool
  | none => true
  | some body => !body.isEmpty && Stmt.arePlaced false body

end

section Layout

variable {depth level n k : Nat} {rows rest : List Row} {marks : List Mark}

/-- The layout in front of a line, after a line that is so deep. -/
def marginMarks (depth level n : Nat) : List Mark :=
  if depth < level then [(.indent, n)] else List.replicate (depth - level) (.dedent, n)

/-- The marks of rows from this line on, after a row that is so deep. -/
def pageMarks (depth n : Nat) : List Row → List Mark
  | [] => List.replicate depth (.dedent, n) ++ [(.eof, n)]
  | row :: rows =>
    marginMarks depth row.level n ++ (rowMarks n row.kinds ++ pageMarks row.level (n + 1) rows)

/-- The rows begin no deeper than this. -/
def Below (level : Nat) (rows : List Row) : Prop := ∀ row ∈ rows.head?, row.level ≤ level

lemma Below.mono (h : Below level rows) (hle : level ≤ depth) : Below depth rows :=
  fun row hrow => Nat.le_trans (h row hrow) hle

lemma replicate_split {α : Type} {a : α} {k : Nat} (hk : k ≤ level) (hle : level ≤ depth) :
    List.replicate (depth - k) a = List.replicate (depth - level) a ++
      List.replicate (level - k) a := by
  rw [replicate_append_replicate]
  congr 1
  omega

/-- Blocks are closed before rows that are less deep. -/
lemma pageMarks_close (h : Below level rows) (hle : level ≤ depth) :
    pageMarks depth n rows = List.replicate (depth - level)
    (.dedent, n) ++ pageMarks level n rows := by
  cases rows with
  | nil =>
    have hsplit := replicate_split (a := ((.dedent, n) : Mark)) (Nat.zero_le level) hle
    rw [Nat.sub_zero, Nat.sub_zero] at hsplit
    rw [pageMarks, pageMarks, hsplit, append_assoc]
  | cons row rows =>
    have hrow : row.level ≤ level := h row rfl
    rw [pageMarks, pageMarks, marginMarks, marginMarks,
      if_neg (by omega), if_neg (by omega), replicate_split hrow hle, append_assoc]

lemma pageMarks_row {kinds : List TokenKind} :
    pageMarks level n (⟨level, kinds⟩ :: rows) = rowMarks n kinds ++
      pageMarks level (n + 1) rows := by
  rw [pageMarks, marginMarks, if_neg (Nat.lt_irrefl _), Nat.sub_self]
  rfl

/-- Rows of a level, how many they are and their marks: one row, a row with a block under it, or
rows after rows. -/
inductive Outline : Nat → Nat → Nat → List Row → List Mark → Prop
  | row {level n kinds} (hne : kinds ≠ []) : Outline level n 1 [⟨level, kinds⟩] (rowMarks n kinds)
  | headed {level n k kinds rows marks} (hne : kinds ≠ [])
  (block : Outline (level + 1) (n + 1) k rows marks) :
    Outline level n (1 + k) (⟨level, kinds⟩ :: rows)
    (rowMarks n kinds ++ blockMarks (n + 1) (n + 1 + k) marks)
  | append {level n k k' rows rows' marks marks'} (first : Outline level n k rows marks)
    (second : Outline level (n + k) k' rows' marks') :
    Outline level n (k + k') (rows ++ rows') (marks ++ marks')

lemma Outline.exists_row (h : Outline level n k rows marks) :
    ∃ kinds more, rows = ⟨level, kinds⟩ :: more := by
  induction h with
  | row | headed => exact ⟨_, _, rfl⟩
  | append _ _ ih _ =>
    obtain ⟨kinds, more, rfl⟩ := ih
    exact ⟨kinds, _, rfl⟩

lemma Outline.begins (h : Outline level n k rows marks) : Below level (rows ++ rest) := by
  obtain ⟨kinds, more, rfl⟩ := h.exists_row
  rintro _ ⟨⟩
  exact Nat.le_refl level

lemma Outline.opens (h : Outline (level + 1) n k rows marks) :
    pageMarks level n (rows ++ rest) = (.indent, n) :: pageMarks (level + 1) n (rows ++ rest) := by
  obtain ⟨kinds, more, rfl⟩ := h.exists_row
  rw [cons_append, pageMarks, pageMarks, marginMarks,
    marginMarks, if_pos (Nat.lt_succ_self level), if_neg (Nat.lt_irrefl _), Nat.sub_self]
  rfl

/-- The marks of an outline stand before those of the rows after it. -/
lemma Outline.pageMarks_append (h : Outline level n k rows marks) (hrest : Below level rest) :
    pageMarks level n (rows ++ rest) = marks ++ pageMarks level (n + k) rest := by
  induction h generalizing rest with
  | row => exact pageMarks_row
  | @headed level n k kinds rows marks hne block ih =>
    have hclose : pageMarks (level + 1) (n + 1 + k) rest =
        (.dedent, n + 1 + k) :: pageMarks level (n + 1 + k) rest := by
      rw [pageMarks_close hrest (Nat.le_add_right level 1), Nat.add_sub_cancel_left]
      rfl
    rw [cons_append, pageMarks_row, block.opens,
      ih (hrest.mono (Nat.le_succ level)), hclose, blockMarks]
    simp [Nat.add_assoc]
  | append first second ih ih' =>
    rw [append_assoc, ih second.begins, ih' hrest, append_assoc, Nat.add_assoc]

lemma Outline.kinds_ne_nil (h : Outline level n k rows marks) : ∀ row ∈ rows, row.kinds ≠ [] := by
  induction h with
  | row hne => exact forall_mem_singleton.2 hne
  | headed hne _ ih => exact forall_mem_cons.2 ⟨hne, ih⟩
  | append _ _ ih ih' => exact forall_mem_append.2 ⟨ih, ih'⟩

lemma Expr.render_ne_nil {style : Style} (e : Expr) : e.render style level ≠ [] := by
  cases e with
  | literal | call | list | record => exact cons_ne_nil _ _
  | identifier name scope line => cases scope <;> exact cons_ne_nil _ _
  | binary op left right line | unary op operand line =>
    rw [Expr.render, enclosed]
    split <;> simp
  | member object property line =>
    rw [Expr.render]
    split <;> simp

lemma Expr.kinds_ne_nil (e : Expr) : e.kinds n ≠ [] := by
  intro h
  exact (e.onLine n).render_ne_nil (map_eq_nil_iff.1 h)

lemma Stmt.header_ne_nil (s : Stmt) : s.header n ≠ [] := by
  cases s with
  | event name timer => cases timer <;> exact cons_ne_nil _ _
  | giveBack value => cases value <;> exact cons_ne_nil _ _
  | call callee args line => exact (Expr.call callee args line).kinds_ne_nil
  | expression value => exact value.kinds_ne_nil
  | _ => exact cons_ne_nil _ _

mutual

/-- The rows of a statement are an outline, by induction on the statement. -/
lemma Stmt.outline : ∀ (s : Stmt) (top : Bool) (level n : Nat), s.isPlaced top = true →
    Outline level n s.height (s.rows level n) (s.marks n)
  | .event _ _ body _, top, level, n, h | .function _ _ body _, top, level, n, h => by
    rw [isPlaced, and_eq_true] at h
    exact .headed (header_ne_nil _) (outline_block body false (level + 1) (n + 1) h.2)
  | .whileLoop _ body _, top, level, n, h | .forEach _ _ body _, top, level, n, h =>
    .headed (header_ne_nil _) (outline_block body false (level + 1) (n + 1) h)
  | .ifElse condition thenBody elseBody line, top, level, n, h => by
    rw [isPlaced, and_eq_true] at h
    have hthen := outline_block thenBody false (level + 1) (n + 1) h.1
    have hbranch := outline_branch elseBody h.2
      (.headed ((ifElse condition thenBody elseBody line).header_ne_nil (n := n)) hthen)
    rw [← Nat.add_assoc, cons_append, append_assoc] at hbranch
    exact hbranch
  | .assign .., _, _, _, _ | .increase .., _, _, _, _ | .decrease ..,
  _, _, _, _ | .delete .., _, _, _, _
  | .call .., _, _, _, _ | .print .., _, _, _, _ | .giveBack ..,
  _, _, _, _ | .expression .., _, _, _, _ =>
    .row (header_ne_nil _)

/-- The rows of a block have its marks. -/
lemma Stmt.outline_block : ∀ (body : List Stmt) (top : Bool) (level n : Nat),
    (!body.isEmpty && arePlaced top body) = true →
      Outline level n (heights body) (bodyRows level n body) (bodyMarks n body)
  | [s], top, level, n, h => by
    rw [arePlaced, and_eq_true, and_eq_true] at h
    have hs := s.outline top level n h.2.1
    rw [← append_nil (s.rows level n), ← append_nil (s.marks n)] at hs
    exact hs
  | s :: s' :: body, top, level, n, h => by
    rw [arePlaced, and_eq_true, and_eq_true] at h
    exact .append (s.outline top level n h.2.1)
      (outline_block (s' :: body) top level (n + s.height) h.2.2)

lemma Stmt.outline_branch {level n k : Nat} {rows : List Row} {marks : List Mark} :
    ∀ branch : Option (List Stmt),
    isPlacedBranch branch = true → Outline level n k rows marks →
      Outline level n (k + branchHeight branch) (rows ++ branchRows level (n + k) branch)
        (marks ++ branchMarks (n + k) branch)
  | none, _, first => by
    rw [branchRows, branchMarks, append_nil, append_nil]
    exact first
  | some body, h, first =>
    .append first (.headed (cons_ne_nil _ _) (outline_block body false (level + 1) (n + k + 1) h))

end

end Layout

section Steps

variable {digits : Float → String} {depth level n k : Nat}
  {rows rest : List Row} {marks : List Mark}

/-- The line of a row, with numbers written in these digits. -/
def Row.line (digits : Float → String) (row : Row) : Line :=
  ⟨row.level, row.kinds.map fun kind => ⟨kind, kind.written digits⟩⟩

/-- The lines of some rows. -/
def pageOf (digits : Float → String) (rows : List Row) : List Line := rows.map (Row.line digits)

/-- The rows can follow every row that is at least so deep. -/
def Follow (level : Nat) (rows : List Row) : Prop :=
  ∀ digits depth, level ≤ depth → Stepped depth (pageOf digits rows)

lemma Follow.mono (h : Follow level rows) (hle : level ≤ depth) : Follow depth rows :=
  fun digits depth' hle' => h digits depth' (Nat.le_trans hle hle')

lemma Outline.stepped (h : Outline level n k rows marks) (hrest : Follow level rest)
    (hle : level ≤ depth + 1) :
    Stepped depth (pageOf digits (rows ++ rest)) := by
  induction h generalizing digits depth rest with
  | row => exact ⟨hle, hrest _ _ (Nat.le_refl _)⟩
  | headed _ _ ih => exact ⟨hle, ih (hrest.mono (Nat.le_succ _)) (Nat.le_refl _)⟩
  | append _ _ ih ih' =>
    rw [append_assoc]
    exact ih (fun digits depth hle => ih' hrest (Nat.le_succ_of_le hle)) hle

end Steps

section Texts

variable {digits : Float → String} {depth n : Nat} {rows : List Row}
  {kinds : List TokenKind} {p : Program}

/-- The text of rows, with numbers written in these digits. -/
def rowsText (digits : Float → String) (rows : List Row) : String :=
  String.ofList (pageText TokenKind.hugs (pageOf digits rows))

/-- The text of a printed program. -/
def Program.text (digits : Float → String) (p : Program) : String := rowsText digits p.rows

/-- Everything that is printed of the program can be read back. -/
def Program.Writable (digits : Float → String) (p : Program) : Prop :=
  ∀ row ∈ p.rows, ∀ kind ∈ row.kinds, kind.Writable digits

instance : Decidable (p.Writable digits) :=
  inferInstanceAs (Decidable (∀ row ∈ p.rows, ∀ kind ∈ row.kinds, kind.Writable digits))

/-- The kind and the line of what can be told of a token. -/
def Sight.mark (x : Sight) : Mark := (x.1, x.2.2)

lemma breaks_line (h : ∀ kind ∈ kinds, kind.Writable digits) :
    breaks (kinds.map fun kind => ⟨kind, kind.written digits⟩) = 0 := by
  induction kinds with
  | nil => rfl
  | cons kind kinds ih =>
    obtain ⟨hkind, hkinds⟩ := forall_mem_cons.1 h
    have hcount : (kind.written digits).count '\n' = 0 := count_eq_zero.2 hkind.newline_notMem
    rw [map_cons, breaks, hcount, ih hkinds]

lemma sights_line (h : ∀ kind ∈ kinds, kind.Writable digits) :
    (sights n (kinds.map fun kind => ⟨kind, kind.written digits⟩)).map Sight.mark =
      marksOn n kinds := by
  induction kinds with
  | nil => rfl
  | cons kind kinds ih =>
    obtain ⟨hkind, hkinds⟩ := forall_mem_cons.1 h
    have hcount : (kind.written digits).count '\n' = 0 := count_eq_zero.2 hkind.newline_notMem
    rw [map_cons, sights, hcount, map_cons, Nat.add_zero, ih hkinds]
    rfl

/-- The rows of a page are laid out as their marks say. -/
lemma laid_pageOf (h : ∀ row ∈ rows, ∀ kind ∈ row.kinds, kind.Writable digits) :
    (laid depth n (pageOf digits rows)).map Sight.mark = pageMarks depth n rows := by
  induction rows generalizing depth n with
  | nil => simp [pageOf, laid, pageMarks, Sight.mark]
  | cons row rows ih =>
    obtain ⟨hrow, hrows⟩ := forall_mem_cons.1 h
    have hmargin : (margin depth row.level n).map Sight.mark = marginMarks depth row.level n := by
      unfold margin marginMarks
      split <;> simp [Sight.mark]
    have hlaid : (laid row.level (n + 1) (pageOf digits rows)).map Sight.mark =
        pageMarks row.level (n + 1) rows :=
      ih hrows
    unfold pageOf at hlaid ⊢
    rw [map_cons, laid, Row.line, breaks_line hrow,
      pageMarks, ← hlaid, ← hmargin, rowMarks, ← sights_line hrow]
    simp [Sight.mark]

/-- Rows that can be read are split into their marks. -/
lemma tokenize_rows (hwritable : ∀ row ∈ rows, ∀ kind ∈ row.kinds, kind.Writable digits)
    (hne : ∀ row ∈ rows, row.kinds ≠ []) (hstep : Stepped 0 (pageOf digits rows))
    (hbelow : Below 0 rows) :
    ∃ tokens, tokenize (rowsText digits rows) = .ok tokens ∧
    tokens.map Token.mark = pageMarks 0 1 rows := by
  have hreadable : ∀ l ∈ pageOf digits rows, l.Readable := by
    intro l hl
    obtain ⟨row, hrow, rfl⟩ := mem_map.1 hl
    refine ⟨fun hnil => hne row hrow (map_eq_nil_iff.1 hnil), fun x hx => ?_⟩
    obtain ⟨kind, hkind, rfl⟩ := mem_map.1 hx
    exact (hwritable row hrow kind hkind).spells
  have hfirst : ∀ l ∈ (pageOf digits rows).head?, l.level = 0 := by
    unfold pageOf
    rw [List.head?_map]
    intro l hl
    obtain ⟨row, hrow, rfl⟩ := Option.map_eq_some_iff.1 hl
    exact Nat.le_zero.1 (hbelow row hrow)
  obtain ⟨tokens, htokens, hsights⟩ := tokenize_page separates_hugs hreadable hstep hfirst
  refine ⟨tokens, htokens, ?_⟩
  have hlaid := (congrArg (List.map Sight.mark) hsights).trans (laid_pageOf hwritable)
  rw [map_map] at hlaid
  exact hlaid

/-- The text of a program is divided into its marks. -/
lemma Program.tokenize_text (hplaced : arePlaced true p.body = true) (h : p.Writable digits) :
    ∃ tokens, tokenize (p.text digits) = .ok tokens ∧
      tokens.map Token.mark = bodyMarks 1 p.body ++ [(.eof, 1 + heights p.body)] := by
  have hend : Below 0 [] := by rintro _ ⟨⟩
  obtain ⟨_ | ⟨s, body⟩⟩ := p
  · exact tokenize_rows h (by rintro _ ⟨⟩) trivial hend
  have hrows := outline_block (s :: body) true 0 1 hplaced
  have hstep : Stepped 0 (pageOf digits (_ ++ [])) :=
    hrows.stepped (fun _ _ _ => trivial) (Nat.zero_le 1)
  have hmarks := hrows.pageMarks_append hend
  have hbelow : Below 0 (_ ++ []) := hrows.begins
  rw [append_nil] at hstep hmarks hbelow
  obtain ⟨tokens, htokens, hpage⟩ := tokenize_rows h hrows.kinds_ne_nil hstep hbelow
  exact ⟨tokens, htokens, hpage.trans hmarks⟩

end Texts

end Colloquy
