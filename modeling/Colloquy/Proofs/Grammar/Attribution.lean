import Colloquy.Proofs.Grammar.Concatenation
import Colloquy.Proofs.Token.Fidelity

/-!
# The lines of a tree

Every node of a program carries the line of a token of its text (`compile_line`). The reader only
copies lines: tokens at other lines give the same tree with its lines changed in the same way.
-/

namespace Colloquy

open List

/-- A node of a tree. -/
inductive Node where
  | expr (e : Expr)
  | stmt (s : Stmt)

namespace Node

/-- The line of a node. -/
def line : Node → Nat
  | expr e => e.line
  | stmt s => s.line

/-- The node with every line in it sent through a function. -/
def mapLine (f : Nat → Nat) : Node → Node
  | expr e => expr (e.mapLine f)
  | stmt s => stmt (s.mapLine f)

/-- The nodes right below a node. -/
def parts : Node → List Node
  | expr (.literal ..) | expr (.identifier ..) | stmt (.delete ..) => []
  | expr (.binary _ left right _) => [expr left, expr right]
  | expr (.unary _ operand _) => [expr operand]
  | expr (.call _ args _) | stmt (.call _ args _) => args.map expr
  | expr (.member object property _) => [expr object, expr property]
  | expr (.list elements _) => elements.map expr
  | expr (.record fields _) => fields.map fun field => expr field.2
  | stmt (.event _ _ body _) | stmt (.function _ _ body _) => body.map stmt
  | stmt (.assign _ _ value _) | stmt (.increase _ _ value _) | stmt (.decrease _ _ value _)
  | stmt (.print value _ _) | stmt (.expression value _) => [expr value]
  | stmt (.ifElse condition thenBody elseBody _) =>
    expr condition :: thenBody.map stmt ++ (elseBody.getD []).map stmt
  | stmt (.whileLoop condition body _) => expr condition :: body.map stmt
  | stmt (.forEach _ iterable body _) => expr iterable :: body.map stmt
  | stmt (.giveBack value _) => value.toList.map expr

end Node

/-- The nodes of some statements. -/
inductive Occurs (body : List Stmt) : Node → Prop where
  | top {s} :
    s ∈ body →
    Occurs body (.stmt s)
  | part {n m} :
    Occurs body n →
    m ∈ n.parts →
    Occurs body m

/-- The rows of statements that are run as a whole: the program and the bodies of its
declarations. -/
inductive Program.Contains (p : Program) : List Stmt → Prop where
  | whole :
    Contains p p.body
  | event {name timer body line} :
    .event name timer body line ∈ p.body →
    Contains p body
  | function {name params body line} :
    .function name params body line ∈ p.body →
    Contains p body

lemma Program.Contains.occurs {p : Program} {body : List Stmt} {n : Node} (hb : p.Contains body)
    (h : Occurs body n) :
    Occurs p.body n := by
  induction h with
  | top hs =>
    cases hb with
    | whole => exact .top hs
    | event hm | function hm => exact .part (.top hm) (mem_map_of_mem hs)
  | part _ hm ih => exact .part ih hm

section Lines

variable {f : Nat → Nat}

lemma Expr.line_mapLine {e : Expr} : (e.mapLine f).line = f e.line := by cases e <;> rfl

lemma Stmt.line_mapLine {s : Stmt} : (s.mapLine f).line = f s.line := by cases s <;> rfl

lemma Node.line_mapLine {n : Node} : (n.mapLine f).line = f n.line := by
  cases n with
  | expr e => exact Expr.line_mapLine
  | stmt s => exact Stmt.line_mapLine

lemma Node.map_expr {es : List Expr} :
    (Expr.mapLines f es).map Node.expr = (es.map Node.expr).map (Node.mapLine f) := by
  rw [Expr.mapLines_eq_map, map_map, map_map]
  rfl

lemma Node.map_stmt {body : List Stmt} :
    (Stmt.mapLines f body).map Node.stmt = (body.map Node.stmt).map (Node.mapLine f) := by
  rw [Stmt.mapLines_eq_map, map_map, map_map]
  rfl

lemma Node.map_field {fields : List (String × Expr)} :
    (Expr.mapFields f fields).map (fun field => Node.expr field.2) =
      (fields.map fun field => Node.expr field.2).map (Node.mapLine f) := by
  induction fields with
  | nil => rfl
  | cons field fields ih => simp only [Expr.mapFields, map_cons, ih, Node.mapLine]

/-- The parts of a node move with it. -/
lemma Node.parts_mapLine {n : Node} : (n.mapLine f).parts = n.parts.map (Node.mapLine f) := by
  cases n with
  | expr e =>
    cases e with
    | call function args line | list elements line => exact map_expr
    | record fields line => exact map_field
    | _ => rfl
  | stmt s =>
    cases s with
    | event name timer body line | function name params body line => exact map_stmt
    | call function args line => exact map_expr
    | ifElse condition thenBody elseBody line =>
      cases elseBody with
      | none => simp [mapLine, Stmt.mapLine, Stmt.mapBranch, parts, map_stmt]
      | some elseBody =>
        simp only [mapLine, Stmt.mapLine, Stmt.mapBranch, parts, Option.getD_some, map_stmt,
          map_append, map_cons]
    | whileLoop condition body line
    | forEach item iterable body line =>
      simp only [mapLine, Stmt.mapLine, parts, map_stmt, map_cons]
    | giveBack value line => cases value <;> rfl
    | _ => rfl

/-- A line that stays in the statements stays in every node. -/
lemma Occurs.line_fixed {body : List Stmt} {n : Node} (h : Occurs body n)
    (hb : body.map (Stmt.mapLine f) = body) :
    f n.line = n.line := by
  have hfixed : n.mapLine f = n := by
    induction h with
    | top hs =>
      exact congrArg Node.stmt (map_inj_left.1 (hb.trans (map_id body).symm) _ hs)
    | @part n m _ hm ih =>
      have hparts : n.parts.map (Node.mapLine f) = n.parts.map id := by
        rw [← Node.parts_mapLine, ih, map_id]
      exact map_inj_left.1 hparts m hm
  calc f n.line = (n.mapLine f).line := Node.line_mapLine.symm
    _ = n.line := by rw [hfixed]

end Lines

section Reading

open Grammar Production Scanner

variable {f : Nat → Nat} {tokens : List Token} {p : Program} {source : String}

/-- A row whose lines stay is aligned to itself. -/
lemma Scanner.Complete.aligned_self (h : Complete tokens) (hf : ∀ t ∈ tokens, f t.line = t.line) :
    Aligned f none tokens tokens := by
  obtain ⟨inner, last, rfl, hinner, hlast, htext⟩ := h
  induction inner with
  | nil =>
    refine .eof ⟨rfl, rfl, (hf last (mem_singleton_self last)).symm, ?_⟩ hlast rfl
    rw [htext]
    nofun
  | cons t inner ih =>
    obtain ⟨ht, hinner⟩ := forall_mem_cons.1 hinner
    obtain ⟨hline, hf⟩ := forall_mem_cons.1 hf
    exact .cons ⟨rfl, rfl, hline.symm, ht.word⟩ ht.ne_eof (ih hf hinner)

/-- Lines of tokens that stay, stay in the tree. -/
lemma program_run_mapLine {c : Cursor} (h : Complete tokens) (hf : ∀ t ∈ tokens, f t.line = t.line)
    (hrun : program.run (.ofTokens tokens) = (.ok p, c)) :
    p.body.map (Stmt.mapLine f) = p.body := by
  have hrows : InRows (Aligned f none) 0 (.ofTokens tokens) (.ofTokens tokens) := by
    refine ⟨?_, depth_ofTokens, depth_ofTokens⟩
    rw [h.row_ofTokens]
    exact h.aligned_self hf
  obtain ⟨d, hagain⟩ :=
    program_crosses (aligned_seam resumes_none) permits_of_inRows (.inl hrows) eof_of_ended hrun
  -- the same row is read twice
  have hsame := (Prod.mk.inj (hrun.symm.trans hagain)).1
  exact (congrArg Program.body (Except.ok.inj hsame)).symm

/-- Every node of a program has the line of a token. -/
lemma compile_line {n : Node} (hp : compile source = .ok p) (hn : Occurs p.body n) :
    ∃ tokens, tokenize source = .ok tokens ∧ ∃ t ∈ tokens, t.line = n.line := by
  classical
  obtain ⟨tokens, c, htokens, hrun⟩ := compile_iff.1 hp
  refine ⟨tokens, htokens, ?_⟩
  by_contra hnone
  -- a line without tokens can be moved, and the tree would have to move with it
  let f : Nat → Nat := fun line => if ∃ t ∈ tokens, t.line = line then line else line + 1
  have hf : ∀ t ∈ tokens, f t.line = t.line := fun t ht => if_pos ⟨t, ht, rfl⟩
  have hmoved : f n.line = n.line + 1 := if_neg hnone
  have hfixed : f n.line = n.line :=
    hn.line_fixed (program_run_mapLine (complete_of_tokenize htokens) hf hrun)
  omega

end Reading

/-- How many lines a text has. -/
def lineCount (source : String) : Nat := 1 + source.toList.count '\n'

lemma tokenize_line_le {source : String} {tokens : List Token} {t : Token}
    (h : tokenize source = .ok tokens) (ht : t ∈ tokens) :
    1 ≤ t.line ∧ t.line ≤ lineCount source := by
  have hplace : t.position = .behind (source.toList.take t.position.offset) :=
    (tokenize_woven h).place t ht
  have hline : t.line = 1 + (source.toList.take t.position.offset).count '\n' :=
    congrArg Position.line hplace
  have hle : (source.toList.take t.position.offset).count '\n' ≤ source.toList.count '\n' :=
    (take_sublist _ _).count_le _
  unfold lineCount
  omega

end Colloquy
