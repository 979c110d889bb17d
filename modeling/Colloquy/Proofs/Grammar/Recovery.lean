import Colloquy.Proofs.Grammar.Safety
import Colloquy.Proofs.Grammar.WellFormed

/-!
# Requests after failed requests

A reader that fails inside a block keeps it open and refuses declarations from then on; nothing else
changes. Readers that differ in their open blocks make a seam (`shifted_seam`).
-/

namespace Colloquy

open Grammar Production

namespace Cursor

variable {c d : Cursor} {j k m n : Nat} {kinds : List TokenKind}

lemma next_withDepth : next { c with depth := m } = { c.next with depth := m } := by
  unfold next
  dsimp only
  split
  · rfl
  · split <;> rfl

lemma pass_withDepth : pass kinds { c with depth := m } = { c.pass kinds with depth := m } := by
  obtain ⟨here, ahead, depth⟩ := c
  unfold pass
  dsimp only
  induction ahead generalizing here with
  | nil => rfl
  | cons token rest ih =>
    unfold passFrom
    split
    · exact ih token
    · rfl

lemma Reaches.depth (h : c.Reaches d) : d.depth = c.depth := by
  induction h with
  | refl => rfl
  | next _ ih => exact depth_next.trans ih

lemma Closed.ofTokens_row (h : c.Closed) : ofTokens c.row = { c with depth := 0 } := by
  obtain ⟨ts, t, hrow, ht⟩ := h
  have hterminated : terminated c.row = c.row := by
    rw [terminated, hrow, List.getLast?_concat]
    exact if_pos ht
  rw [ofTokens, hterminated]
  rfl

/-- Cursors at the same token, with `j` and `k` blocks open besides `n` others. -/
structure Shifted (j k n : Nat) (c d : Cursor) : Prop where
  closed : c.Closed
  left : c.depth = n + j
  right : d = { c with depth := n + k }

lemma Shifted.next (h : Shifted j k n c d) : Shifted j k n c.next d.next where
  closed := h.closed.next
  left := depth_next.trans h.left
  right := by rw [h.right, next_withDepth]

lemma Shifted.along (h : Shifted j k n c d) : Along (Shifted j k n) c d c.next d.next :=
  ⟨h.next, remaining_next_le, remaining_next_le⟩

lemma Shifted.past (h : Shifted j k n c d) (hne : c.here.kind ≠ .eof) :
    Ahead (Shifted j k n) c d c.next d.next := by
  have hahead := h.closed.ahead_ne_nil hne
  refine ⟨h.next, remaining_next_lt hne hahead, ?_⟩
  rw [h.right]
  exact remaining_next_lt hne hahead

lemma Shifted.pass (h : Shifted j k n c d) (hend : TokenKind.eof ∉ kinds) :
    Along (Shifted j k n) c d (c.pass kinds) (d.pass kinds) := by
  refine ⟨⟨(h.closed.onward_pass hend).closed, depth_pass.trans h.left, ?_⟩,
    remaining_pass_le, remaining_pass_le⟩
  rw [h.right, pass_withDepth]

end Cursor

namespace Grammar

open Cursor

variable {c c' d : Cursor} {j k n tokens room : Nat} {inner : InnerStatement}
  {p : Program} {e : Expr}

lemma shifted_alike : Alike id (Shifted j k n) where
  kind h := by rw [h.right]
  text h := by rw [h.right]
  line h := by rw [h.right, id]
  word h _ := h.along
  next h hp := h.past fun he => by rw [he] at hp; cases hp
  layout h := .inr (h.pass (by decide))

/-- Readers that differ in open blocks make a seam with nothing across. -/
lemma shifted_seam : Seam id id (fun n _ => Shifted j k n) (Shifted j k) (fun _ _ _ => False) where
  tandem _ := shifted_alike.tandem
  tallies h := by
    rw [h.right]
    exact ⟨rfl, rfl, rfl⟩
  depth h := h.left ▸ Nat.le_add_right _ _
  deeper {n c d} h := by
    refine ⟨h.closed, ?_, ?_⟩
    · rw [h.left, Nat.add_right_comm]
    · rw [h.right, Nat.add_right_comm]
  shallower {n c d} h := by
    refine ⟨h.closed, ?_, ?_⟩
    · rw [h.left, Nat.add_right_comm]
      rfl
    · rw [h.right, Nat.add_right_comm]
      rfl
  newline h hk := h.past (by rw [hk]; rintro ⟨⟩)
  indent h hk := h.past (by rw [hk]; rintro ⟨⟩)
  dedent h hk := h.past (by rw [hk]; rintro ⟨⟩)
  loose_of_tight h := h
  loose_of_across h := h.elim
  skip h := ⟨.inl (h.pass (by decide)).related, remaining_pass_le, remaining_pass_le⟩
  across_shallower h := h.elim
  across_kind h := h.elim
  across_else h := h.elim

lemma expression_shifted (h : Shifted j k 0 c d) (hr : (expression.run c).1 = .ok e) :
    (expression.run d).1 = .ok e := by
  rw [run_expression] at hr
  have hroom : Room (c.remaining + 1) (d.remaining + 1) c d :=
    ⟨Nat.lt_succ_self _, Nat.lt_succ_self _⟩
  obtain ⟨e', d', hd, hlike, _⟩ :=
    (value_reads shifted_seam h hroom e _ (Prod.ext hr rfl)).resolve_left id
  have he : e' = e := by rw [hlike.of_id, Expr.mapLine_id]
  rw [run_expression, show (expressionAt (d.remaining + 1) maxNesting).run d = _ from hd, he]

/-- A program is read whatever blocks are open, if its declarations are admitted. -/
lemma program_shifted (h : Shifted j k 0 c d)
    (hpermits : Permits (fun n _ => Shifted j k n) (c.remaining + 1) p.body)
    (hr : (program.run c).1 = .ok p) : (program.run d).1 = .ok p := by
  have hends {c d : Cursor} (hland : Landed (fun n _ => Shifted j k n) (fun _ _ _ => False) 0 c d)
      (he : c.here.kind = .eof) : d.here.kind = .eof := by
    rw [(hland.resolve_right id).right]
    exact he
  obtain ⟨d', hd⟩ := program_crosses shifted_seam hpermits h hends (Prod.ext hr rfl)
  rw [hd, ← Stmt.mapLines_eq_map, Stmt.mapLines_id]

/-- A statement declares something if its first word says so, only where no block is open. -/
structure Heralded (c : Cursor) (s : Stmt) : Prop where
  word : s.isDeclaration = declares c.here.kind
  top : s.isDeclaration = true → c.depth = 0

lemma undeclared_governed {build : Expr → List Stmt → Stmt}
    (h : ∀ e body, (build e body).isDeclaration = false) :
    Ensures (governed tokens room inner build) c fun s _ => s.isDeclaration = false :=
  .skip fun e _ => .skip fun body _ => .pure (h e body)

lemma undeclared_conditional :
    Ensures (conditional tokens room inner) c fun s _ => s.isDeclaration = false :=
  .skip fun _ _ => .skip fun _ _ => .accept (fun _ => .skip fun _ _ => .pure rfl) fun _ => .pure rfl

lemma undeclared_looping :
    Ensures (looping tokens room inner) c fun s _ => s.isDeclaration = false := by
  refine .take ?_
  split
  · exact .skip fun _ _ => undeclared_governed fun _ _ => rfl
  · exact undeclared_governed fun _ _ => rfl

lemma undeclared_iterating :
    Ensures (iterating tokens room inner) c fun s _ => s.isDeclaration = false := by
  refine .take (.skip fun _ _ => .skip fun _ _ => .skip fun _ _ => .skip fun _ _ => .cursor ?_)
  split
  · exact .take (.take (undeclared_governed fun _ _ => rfl))
  · exact undeclared_governed fun _ _ => rfl

/-- Every statement is told by its first word. -/
lemma heralded_statement : Ensures (statement tokens room inner) c fun s _ => Heralded c s := by
  have hdeclared {kind : TokenKind} {f : Token → Production Stmt}
    (hk : c.here.kind = kind) (hword : declares kind = true)
      (h : Ensures (f c.here) c.next fun s _ => s.isDeclaration = true) :
      Ensures (take >>= fun keyword => requireTop keyword >>= fun _ => f keyword) c fun s _ =>
      Heralded c s := by
    refine .take (ensures_requireTop fun htop => h.mono fun s _ hs =>
      ⟨?_, fun _ => depth_next.symm.trans htop⟩)
    rw [hs, hk, hword]
  have hplain {kind : TokenKind} {p : Production Stmt}
    (hk : c.here.kind = kind) (hword : declares kind = false)
      (h : Ensures p c fun s _ => s.isDeclaration = false) :
      Ensures p c fun s _ => Heralded c s := by
    refine h.mono fun s _ hs => ⟨?_, fun htrue => ?_⟩
    · rw [hs, hk, hword]
    · cases hs.symm.trans htrue
  have hline {kind : TokenKind} {p : Production Stmt} (hk : c.here.kind = kind)
    (hword : declares kind = false)
      (h : Ensures p c fun s _ => s.isLine = true) : Ensures p c fun s _ => Heralded c s :=
    hplain hk hword (h.mono fun _ _ hs => (Stmt.whole_of_isLine hs).2)
  refine .cursor ?_
  generalize hk : c.here.kind = kind
  split
  · exact hdeclared hk rfl (.skip fun _ _ => .skip fun _ _ => .pure rfl)
  · exact hdeclared hk rfl (.skip fun _ _ => .skip fun _ _ => .pure rfl)
  · exact hdeclared hk rfl (.skip fun _ _ => .skip fun _ _ => .skip fun _ _ => .pure rfl)
  · exact hline hk rfl isLine_assignment
  · exact hline hk rfl isLine_assignment
  · exact hline hk rfl isLine_assignment
  · exact hline hk rfl isLine_accumulation
  · exact hline hk rfl isLine_accumulation
  · exact hline hk rfl isLine_adjustment
  · exact hline hk rfl isLine_adjustment
  · exact hline hk rfl isLine_scaling
  · exact hline hk rfl isLine_scaling
  · exact hline hk rfl isLine_deletion
  · exact hplain hk rfl undeclared_conditional
  · exact hplain hk rfl undeclared_looping
  · exact hplain hk rfl undeclared_looping
  · exact hplain hk rfl undeclared_iterating
  · exact hline hk rfl isLine_printing
  · exact hline hk rfl isLine_printing
  · exact hline hk rfl isLine_returning
  · exact hline hk rfl isLine_asking
  · exact hline hk rfl isLine_storing
  · exact hline hk rfl isLine_termination
  · refine hline hk ?_ isLine_expressionStatement
    unfold declares
    split <;> first | contradiction | rfl

lemma heralded_statementAt : Ensures (statementAt tokens room) c fun s _ => Heralded c s := by
  cases room <;> exact heralded_statement

lemma permits_of_undeclared {R : Nat → Nat → Cursor → Cursor → Prop} {body : List Stmt}
    (h : ∀ s ∈ body, s.isDeclaration = false) : Permits R tokens body := by
  intro c d c' stmt _ hr hmem hword
  have hdeclared := (heralded_statementAt stmt c' hr).word
  rw [h stmt hmem, hword] at hdeclared
  cases hdeclared

/-- While a block is open, no program with declarations is read. -/
lemma undeclared_program (h : c.Closed) (hdepth : c.depth ≠ 0) (hr : (program.run c).1 = .ok p) :
    ∀ s ∈ p.body, s.isDeclaration = false := by
  have hloop := program_run_iff.mp (Prod.ext hr rfl : program.run c = (.ok p, _))
  -- the loop stays at the depth at which it begins
  have hbody :
    Ensures (iterate (programRound (c.remaining + 1)) (c.remaining + 1) []) (c.pass [.newline])
      fun body c' => c.Onward c' ∧ ∀ s ∈ body, s.isDeclaration = false := by
    refine .iterate ⟨h.onward_pass (by decide), nofun⟩ fun body c1 ⟨h1, hbody⟩ r c2 hround => ?_
    have hlt : c1.remaining < c.remaining + 1 := Nat.lt_succ_of_le h1.remaining_le
    obtain ⟨_, h2, _⟩ := (tried_programRound (.start h1.closed hlt hlt)).ok r c2 hround
    refine ⟨h1.trans h2.onward, ?_⟩
    cases r with
    | none => exact hbody
    | some read =>
      obtain ⟨stmt, c3, hstmt, rfl⟩ := programRound_reads hround
      refine List.forall_mem_append.mpr
        ⟨hbody, List.forall_mem_singleton.mpr (eq_false_of_ne_true fun htrue => ?_)⟩
      exact hdepth (h1.depth.symm.trans ((heralded_statementAt stmt c3 hstmt).top htrue))
  exact (hbody _ _ hloop).2

end Grammar

/-- The reader is met like a new one: it reads the same expressions, and the same programs unless
they declare something while a block is open. Only a program that cannot be read leaves blocks open,
and none that has not begun on the way. -/
structure Recovers (c : Cursor) : Prop where
  expressions : ∀ e, (expression.run c).1 = .ok e ↔ (expression.run (.ofTokens c.row)).1 = .ok e
  programs : ∀ p, (program.run c).1 = .ok p ↔
    (program.run (.ofTokens c.row)).1 = .ok p ∧
    (c.depth = 0 ∨ ∀ s ∈ p.body, s.isDeclaration = false)
  expression_depth : (expression.run c).2.depth = c.depth
  program_depth : ∀ p c', program.run c = (.ok p, c') → c'.depth = c.depth
  failure_depth : ∀ e c', program.run c = (.error e, c') → c.depth ≤ c'.depth ∧
    ∃ passed, Cursor.Between passed c c' ∧ c'.depth ≤ c.depth + Cursor.indents passed

section Requests

open Cursor

variable {tokens : List Token} {c : Cursor}

/-- Every reader is met like a new one. -/
lemma recovers_of_closed (h : c.Closed) : Recovers c := by
  have hlower : Shifted c.depth 0 0 c { c with depth := 0 } := ⟨h, (Nat.zero_add _).symm, rfl⟩
  have hraise : Shifted 0 c.depth 0 { c with depth := 0 } c := ⟨h, rfl, by rw [Nat.zero_add]⟩
  have hwalks : Walks (expressionAt (c.remaining + 1) maxNesting) :=
    inferInstanceAs (Walks (nested maxNesting fun less =>
    exprAt (c.remaining + 1) .disjunction less))
  have hstart : Amid (c.remaining + 1) (c.remaining + 1) c [] c :=
    .start h (Nat.lt_succ_self _) (Nat.lt_succ_self _)
  refine ⟨fun e => ?_, fun p => ?_, ?_, fun p c' hr => ?_, fun e c' hr => ?_⟩
  · rw [h.ofTokens_row]
    exact ⟨expression_shifted hlower, expression_shifted hraise⟩
  · rw [h.ofTokens_row]
    constructor
    · intro hr
      refine ⟨program_shifted hlower (fun _ _ _ _ h _ _ _ _ => by rw [h.right]) hr, ?_⟩
      exact Decidable.or_iff_not_imp_left.mpr fun hdepth => undeclared_program h hdepth hr
    · rintro ⟨hr, hdepth | hbody⟩
      · rwa [← hdepth] at hr
      · exact program_shifted hraise (permits_of_undeclared hbody) hr
  · rw [run_expression]
    exact (hwalks.reaches c).depth
  · rw [run_program] at hr
    exact ((proceeds_programAt hstart).ok p c' hr).depth
  · rw [run_program] at hr
    obtain ⟨_, hpath, hdepth⟩ := (proceeds_programAt hstart).error e c' hr
    exact ⟨hdepth, hpath⟩

lemma Request.foldl_astray (requests : List Request) (h : c.Closed) :
    c.Astray (requests.foldl Request.after c) := by
  induction requests generalizing c with
  | nil => exact (Onward.refl h).astray
  | cons r requests ih =>
    have hr := r.after_astray h
    exact hr.trans (ih hr.closed)

/-- After any requests, met or not, a reader has no more blocks open than have begun behind it, and
is met like a new reader of the tokens that are left, but for declarations while blocks are open. -/
theorem reader_recovers (tokens : List Token) (earlier : List Request) :
    (∃ passed, Between passed (.ofTokens tokens) (earlier.foldl Request.after (.ofTokens tokens)) ∧
      (earlier.foldl Request.after (.ofTokens tokens)).depth ≤ indents passed) ∧
    Recovers (earlier.foldl Request.after (.ofTokens tokens)) := by
  have hastray := Request.foldl_astray earlier (stands_ofTokens tokens).closed
  obtain ⟨passed, hpassed, hle⟩ := hastray.path
  rw [depth_ofTokens, Nat.zero_add] at hle
  exact ⟨⟨passed, hpassed, hle⟩, recovers_of_closed hastray.closed⟩

/-- No request changes how many blocks are open. -/
def KeepsBlocks (tokens : List Token) : Prop :=
  ∀ (earlier : List Request) (r : Request),
  (r.after (earlier.foldl Request.after (.ofTokens tokens))).depth =
    (earlier.foldl Request.after (.ofTokens tokens)).depth

/-- Every program is read that a new reader reads from here on. -/
def ReadsAnew (tokens : List Token) : Prop :=
  ∀ (earlier : List Request) (p : Program),
    (program.run (.ofTokens (earlier.foldl Request.after (.ofTokens tokens)).row)).1 = .ok p →
      (program.run (earlier.foldl Request.after (.ofTokens tokens))).1 = .ok p

/-- A text that fails at a brace in a block. From there on it is a program with a declaration. -/
def strandedBlock : String := "if a:\n    give \x7b\n\x7d\nwhen go:\n    say 1\n"

/-- The block stays open after the failure, and the declaration is refused. -/
theorem not_keepsBlocks_strandedBlock :
    ∃ tokens, tokenize strandedBlock = .ok tokens ∧ ¬ KeepsBlocks tokens ∧ ¬ ReadsAnew tokens := by
  have hrun : (tokenize strandedBlock).toOption.map (fun tokens =>
      let c := Request.after (.ofTokens tokens) .wholeProgram
      (c.depth, (program.run (.ofTokens c.row)).1.toOption.map (·.body.map Stmt.line),
        (program.run c).1.toOption.isSome)) = some (1, some [2, 4], false) := by decide +kernel
  obtain ⟨tokens, htokens, hcourse⟩ := exists_ok hrun
  obtain ⟨hdepth, hprograms⟩ := Prod.mk.inj hcourse
  obtain ⟨hanew, hrefused⟩ := Prod.mk.inj hprograms
  refine ⟨tokens, htokens, fun hkeeps => ?_, fun hreads => ?_⟩
  · have hsame := hkeeps [] .wholeProgram
    rw [List.foldl_nil, hdepth, depth_ofTokens] at hsame
    cases hsame
  · obtain ⟨p, hp, _⟩ := exists_ok hanew
    have hagain : (program.run (Request.after (.ofTokens tokens) .wholeProgram)).1 = .ok p :=
      hreads [.wholeProgram] p hp
    rw [hagain] at hrefused
    cases hrefused

end Requests

end Colloquy
