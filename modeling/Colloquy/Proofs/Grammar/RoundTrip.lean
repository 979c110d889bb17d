import Colloquy.Proofs.Grammar.Concatenation
import Colloquy.Proofs.Grammar.Sentence

/-!
# Reading a printed program

A program whose declarations, blocks and timers can be written down is what its printed text is
compiled to, each part with the line on which it was printed.
-/

namespace Colloquy

open Grammar Production List Stmt Colloquy.Expr Cursor Option Bool

mutual

/-- How deep blocks, brackets and prefix operators of a printed statement are nested. -/
def Stmt.nesting : Stmt → Nat
  | .event _ _ body _ | .function _ _ body _ => Stmt.bodyNesting body
  | .whileLoop e body _ | .forEach _ e body _ => max (e.nesting .full 0) (Stmt.bodyNesting body)
  | .ifElse e thenBody elseBody _ =>
    max (e.nesting .full 0) (max (Stmt.bodyNesting thenBody) (Stmt.branchNesting elseBody))
  | .assign _ _ e _ | .increase _ _ e _ | .decrease _ _ e _ | .print e _ _ | .expression e _ =>
    e.nesting .full 0
  | .call callee args line => (Expr.call callee args line).nesting .full 0
  | .giveBack (some e) _ => e.nesting .full 0
  | .giveBack none _ | .delete .. => 0

/-- How deep those of a block are nested, which is a level of its own. -/
def Stmt.bodyNesting : List Stmt → Nat
  | [] => 0
  | s :: body => max (s.nesting + 1) (Stmt.bodyNesting body)

/-- How deep those of a branch are nested. -/
def Stmt.branchNesting : Option (List Stmt) → Nat
  | none => 0
  | some body => Stmt.bodyNesting body

end

/-- A timer event has the name that all of them share, and a positive interval. -/
def Stmt.Timed : Stmt → Prop
  | .event name (some timer) _ _ => name = Program.timerEvent ∧ ¬timer.interval ≤ 0
  | _ => True

section Marks

variable {n line : Nat} {name item : String} {params : List String} {e : Expr}
  {body thenBody : List Stmt} {timer : Schedule} {k : Cursor} {more : List Mark} {s : Stmt}

lemma Stmt.marks_function : (function name params body line).marks n =
    (.keyword .to, n) :: (.identifier name, n) :: (marksOn n (paramKinds params) ++
      colonMarks n (n + 1 + heights body) (bodyMarks (n + 1) body)) :=
  congrArg (List.cons _) (congrArg (List.cons _) rowMarks_colon)

lemma Stmt.marks_while :
    (whileLoop e body line).marks n = (.keyword .whileWord, n) :: (marksOn n (e.kinds n) ++
      colonMarks n (n + 1 + heights body) (bodyMarks (n + 1) body)) :=
  congrArg (List.cons _) rowMarks_colon

lemma Stmt.marks_forEach : (forEach item e body line).marks n =
    (.keyword .forWord, n) :: (.keyword .every, n) :: (.identifier item, n) ::
      (.keyword .inWord, n) ::
      (marksOn n (e.kinds n) ++ colonMarks n (n + 1 + heights body) (bodyMarks (n + 1) body)) :=
  congrArg (List.cons _)
  (congrArg (List.cons _) (congrArg (List.cons _) (congrArg (List.cons _) rowMarks_colon)))

lemma Stmt.marks_ifElse {elseBody : Option (List Stmt)} :
    (ifElse e thenBody elseBody line).marks n =
    (.keyword .ifWord, n) :: (marksOn n (e.kinds n) ++
      colonMarks n (n + 1 + heights thenBody) (bodyMarks (n + 1) thenBody) ++
        branchMarks (n + 1 + heights thenBody) elseBody) := by
  rw [marks, ← append_assoc]
  exact congrArg (· ++ _) (congrArg (List.cons _) rowMarks_colon)

/-- There are fewer parameters than tokens. -/
lemma params_length_lt {tokens : Nat} (h : Fits tokens (marksOn n (paramKinds params) ++ more) k) :
    params.length < tokens := by
  have hmore (params : List String) : params.length ≤ (moreParams params).length := by
    induction params with
    | nil => exact Nat.le_refl 0
    | cons param params ih =>
      change params.length + 1 ≤ (moreParams params).length + 2
      omega
  have hparams : params.length ≤ (paramKinds params).length := by
    cases params with
    | nil => exact Nat.le_refl 0
    | cons param params =>
      have hle := hmore params
      change params.length + 1 ≤ (moreParams params).length + 2
      omega
  unfold Fits marksOn at h
  rw [length_append, length_map] at h
  omega

/-- What is printed of a statement begins one. -/
lemma Stmt.begins (s : Stmt) : beginsStatement (k.headKind (s.marks n ++ more)) = true := by
  have hexpression (e : Expr) :
      beginsStatement (k.headKind (rowMarks n (e.kinds n) ++ more)) = true := by
    rw [rowMarks, append_assoc]
    exact beginsStatement_of_expression e.begins
  cases s with
  | event name timer => cases timer <;> rfl
  | call callee args line => exact hexpression (.call callee args line)
  | expression e => exact hexpression e
  | giveBack value => cases value <;> rfl
  | print value endsLine => cases endsLine <;> rfl
  | _ => rfl

lemma Stmt.begins_alone (s : Stmt) : beginsStatement (k.headKind (s.marks n)) = true := by
  rw [← append_nil (s.marks n)]
  exact s.begins

lemma Stmt.length_marks_pos (s : Stmt) : 0 < (s.marks n).length := by
  refine length_pos_iff.2 fun h => ?_
  have hbegins := s.begins_alone (n := n) (k := ⟨⟨.eof, "", .start⟩, [], 0⟩)
  rw [h] at hbegins
  cases hbegins

lemma Stmt.headKind_bodyMarks {kind : TokenKind} (hk : k.here.kind ≠ kind)
    (hkind : beginsStatement kind = false) :
    k.headKind (bodyMarks n body) ≠ kind := by
  cases body with
  | nil => exact hk
  | cons s body => exact ne_of_beginsStatement s.begins hkind

lemma Stmt.timed_of_isPlaced (h : s.isPlaced false = true) : s.Timed := by
  cases s with
  | event => cases h
  | _ => trivial

end Marks

section Reading

/-- The statements of a block are read from their marks up to its end. -/
def BodyReads (tokens room n : Nat) (body : List Stmt) : Prop :=
  ∀ (done : List Stmt) (rounds : Nat) (k : Cursor), k.here.kind = .dedent →
  (Stmt.bodyMarks n body).length < rounds →
    Fits tokens (Stmt.bodyMarks n body) k →
      YieldsAll (iterate
        (blockRound tokens (nested (room + 1) fun _ => statementAt tokens room)) rounds done)
        (Stmt.bodyMarks n body) (done ++ Stmt.numberedBody n body) k

variable {tokens room n last : Nat} {s : Stmt} {body : List Stmt} {k : Cursor}

lemma BodyReads.nil : BodyReads tokens room n [] := by
  intro done rounds k hk _ _
  rw [numberedBody, append_nil]
  exact .iterate_none (blockRound_none hk)

/-- A block is read statement by statement. -/
lemma BodyReads.cons (hs : ∀ k, Fits tokens (s.marks n) k → k.here.kind ≠ .keyword .elseWord →
      YieldsAll (statementAt tokens room) (s.marks n) (s.numbered n) k)
    (h : BodyReads tokens room (n + s.height) body) : BodyReads tokens room n (s :: body) := by
  intro done rounds k hk hrounds hfits
  rw [bodyMarks] at hrounds hfits ⊢
  obtain ⟨rounds, rfl⟩ := Nat.exists_eq_succ_of_ne_zero (Nat.ne_zero_of_lt hrounds)
  -- every statement has a mark, so that the rounds are not used up before the marks are
  have hmarks := s.length_marks_pos (n := n)
  rw [length_append] at hrounds
  have hmore := h (done ++ [s.numbered n]) rounds k hk (by omega) hfits.after
  rw [append_assoc, singleton_append] at hmore
  refine .iterate_some (fun us hus => blockRound_some ?_ (hs _ (hfits.before hus) ?_)) hmore
  · exact s.begins_alone
  · rw [kind_before hus]
    exact headKind_bodyMarks (by rw [hk]; rintro ⟨⟩) rfl

lemma BodyReads.block (h : BodyReads tokens room (n + 1) body)
    (hfits : Fits tokens (colonMarks n last (bodyMarks (n + 1) body)) k) :
    YieldsAll (block tokens (nested (room + 1) fun _ => statementAt tokens room))
      (colonMarks n last (bodyMarks (n + 1) body)) (numberedBody (n + 1) body) k := by
  have hbody : (bodyMarks (n + 1) body).length + 1 + k.remaining < tokens := by
    unfold Fits colonMarks blockMarks at hfits
    simp only [length_cons, length_append, length_nil] at hfits
    omega
  refine block_yieldsAll fun t ht => h [] tokens _ ht (by omega) ?_
  have hremaining : (deeper (k.before [t])).remaining = 1 + k.remaining := remaining_before
  rwa [Fits, hremaining, ← Nat.add_assoc]

mutual

/-- A statement is read from its marks. -/
lemma Stmt.yieldsAll : ∀ (s : Stmt) (top : Bool) (n room tokens : Nat), s.isPlaced top = true →
    s.Timed → (s.numbered n).nesting < room + 1 → ∀ k, (top = true → k.depth = 0) →
    Fits tokens (s.marks n) k →
      k.here.kind ≠ .keyword .elseWord → YieldsAll (statementAt tokens (room + 1))
      (s.marks n) (s.numbered n) k
  | .event name none body line, top, n, room, tokens, hplaced,
  _, hnesting, k, hdepth, hfits, hk => by
    rw [isPlaced, and_eq_true, and_eq_true] at hplaced
    have hbody := bodyReads body (n + 1) room tokens hplaced.2.2 hnesting
    exact event_yieldsAll (hdepth hplaced.1) (hbody.block hfits.tail.tail)
  | .event name (some timer) body line, top, n, room, tokens,
  hplaced, htimed, hnesting, k, hdepth, hfits, hk => by
    rw [isPlaced, and_eq_true, and_eq_true] at hplaced
    have hbody := bodyReads body (n + 1) room tokens hplaced.2.2 hnesting
    obtain ⟨rfl, hpositive⟩ := htimed
    exact timer_yieldsAll (hdepth hplaced.1) hpositive (hbody.block hfits.tail.tail.tail)
  | .function name params body line, top, n, room, tokens,
  hplaced, _, hnesting, k, hdepth, hfits, hk => by
    rw [isPlaced, and_eq_true, and_eq_true] at hplaced
    have hbody := bodyReads body (n + 1) room tokens hplaced.2.2 hnesting
    rw [marks_function] at hfits ⊢
    exact function_yieldsAll (hdepth hplaced.1) (params_length_lt hfits.tail.tail)
      (hbody.block hfits.tail.tail.after)
  | .assign .., _, _, _, _, _, _, hnesting, _, _, hfits, _ => assign_yieldsAll hnesting hfits
  | .increase .., _, _, _, _, _, _, hnesting, _, _, hfits, _ => increase_yieldsAll hnesting hfits
  | .decrease .., _, _, _, _, _, _, hnesting, _, _, hfits, _ => decrease_yieldsAll hnesting hfits
  | .delete .., _, _, _, _, _, _, _, _, _, _, _ => delete_yieldsAll
  | .call callee args line, _, _, _, _, _, _, hnesting, _, _, hfits, _ =>
    expression_yieldsAll (e := .call callee args line) hnesting hfits
  | .ifElse condition thenBody none line, top, n, room,
  tokens, hplaced, _, hnesting, k, hdepth, hfits, hk => by
    rw [isPlaced, and_eq_true, and_eq_true] at hplaced
    rw [numbered, nesting, Nat.max_lt, Nat.max_lt] at hnesting
    rw [marks_ifElse, branchMarks, append_nil] at hfits ⊢
    have hbody := bodyReads thenBody (n + 1) room tokens hplaced.1.2 hnesting.2.1
    exact if_yieldsAll hk (guarded_yieldsAll hnesting.1 hfits.tail (hbody.block hfits.tail.after))
  | .ifElse condition thenBody (some elseBody) line, top,
  n, room, tokens, hplaced, _, hnesting, k, hdepth, hfits, hk => by
    rw [isPlaced, isPlacedBranch, and_eq_true, and_eq_true, and_eq_true] at hplaced
    rw [numbered, nesting, Nat.max_lt, Nat.max_lt] at hnesting
    rw [marks_ifElse] at hfits ⊢
    have hbody := bodyReads thenBody (n + 1) room tokens hplaced.1.2 hnesting.2.1
    have hbranch :=
      bodyReads elseBody (n + 1 + heights thenBody + 1) room tokens hplaced.2.2 hnesting.2.2
    refine ifElse_yieldsAll (g := ⟨condition.onLine n, numberedBody (n + 1) thenBody, n⟩)
      (fun us hus => ?_) (hbranch.block hfits.tail.after.tail)
    -- the first block is read in front of the `else`, where the chain of conditions cannot be over
    -- yet
    have hguard := hfits.tail.before hus
    exact guarded_yieldsAll hnesting.1 hguard (hbody.block hguard.after)
  | .whileLoop condition body line, top, n, room, tokens,
  hplaced, _, hnesting, k, hdepth, hfits, hk => by
    rw [isPlaced, and_eq_true] at hplaced
    rw [numbered, nesting, Nat.max_lt] at hnesting
    have hbody := bodyReads body (n + 1) room tokens hplaced.2 hnesting.2
    rw [marks_while] at hfits ⊢
    exact while_yieldsAll hnesting.1 hfits.tail (hbody.block hfits.tail.after)
  | .forEach item iterable body line, top, n, room, tokens,
  hplaced, _, hnesting, k, hdepth, hfits, hk => by
    rw [isPlaced, and_eq_true] at hplaced
    rw [numbered, nesting, Nat.max_lt] at hnesting
    have hbody := bodyReads body (n + 1) room tokens hplaced.2 hnesting.2
    rw [marks_forEach] at hfits ⊢
    exact forEach_yieldsAll hnesting.1 hfits.tail.tail.tail.tail
      (hbody.block hfits.tail.tail.tail.tail.after)
  | .print .., _, _, _, _, _, _, hnesting, _, _, hfits, _ => print_yieldsAll hnesting hfits
  | .giveBack none .., _, _, _, _, _, _, hnesting, _, _, hfits, _ =>
    giveBack_yieldsAll (by rintro _ ⟨⟩) hfits
  | .giveBack (some e) .., _, _, _, _, _, _, hnesting, _, _, hfits, _ =>
    giveBack_yieldsAll (by rintro _ ⟨⟩; exact hnesting) hfits
  | .expression e line, _, n, room, tokens, hplaced, _, hnesting, k, _, hfits, _ => by
    rw [isPlaced, not_eq_true', ← e.isCall_onLine (n := n)] at hplaced
    have hread : YieldsAll (statementAt tokens (room + 1))
        (rowMarks n (e.kinds n)) (ofExpression (e.onLine n)) k :=
      expression_yieldsAll hnesting hfits
    rwa [ofExpression_of_not_isCall hplaced, e.line_onLine] at hread

/-- Every block is read from its marks, by induction on its statements. -/
lemma Stmt.bodyReads : ∀ (body : List Stmt) (n room tokens : Nat), arePlaced false body = true →
    bodyNesting (numberedBody n body) < room + 1 → BodyReads tokens room n body
  | [], n, room, tokens, _, _ => .nil
  | s :: body, n, room, tokens, hplaced, hnesting => by
    rw [arePlaced, and_eq_true] at hplaced
    rw [numberedBody, bodyNesting, Nat.max_lt] at hnesting
    -- a block is a level of nesting for its statements, none of which is a declaration
    obtain ⟨less, rfl⟩ :=
      Nat.exists_eq_succ_of_ne_zero (Nat.ne_zero_of_lt (Nat.lt_of_succ_lt_succ hnesting.1))
    have hs := s.yieldsAll false n less tokens hplaced.1 (timed_of_isPlaced hplaced.1)
      (Nat.lt_of_succ_lt_succ hnesting.1)
    exact .cons (fun k hfits hk => hs k (by rintro ⟨⟩) hfits hk)
      (bodyReads body (n + s.height) (less + 1) tokens hplaced.2 hnesting.2)

end

lemma Stmt.reads {top : Bool} (s : Stmt) (hplaced : s.isPlaced top = true) (htimed : s.Timed)
    (hnesting : (s.numbered n).nesting < room) (hdepth : top = true → k.depth = 0)
    (hfits : Fits tokens (s.marks n) k) (hk : k.here.kind ≠ .keyword .elseWord) :
    YieldsAll (statementAt tokens room) (s.marks n) (s.numbered n) k := by
  obtain ⟨less, rfl⟩ := Nat.exists_eq_succ_of_ne_zero (Nat.ne_zero_of_lt hnesting)
  exact s.yieldsAll top n less tokens hplaced htimed hnesting k hdepth hfits hk

lemma programRound_yieldsAll {marks : List Mark} {done : List Stmt}
    (hhead : k.headKind marks ≠ .eof) (hk : k.here.kind ≠ .newline)
    (h : YieldsAll (statementAt tokens maxNesting) marks s k) :
    YieldsAll (programRound tokens done) marks (some (done ++ [s])) k := by
  refine .cursor fun c hc _ => ?_
  have heof : c.sees .eof = false := decide_eq_false (hc ▸ hhead)
  rw [heof]
  refine .last h (.skipAll ?_ .pure)
  change [.newline].contains k.here.kind = false
  simpa using hk

/-- The statements of a program are read from their marks. -/
lemma Stmt.program_yieldsAll (hend : k.here.kind = .eof) (hdepth : k.depth = 0) :
    ∀ (body done : List Stmt) (n rounds : Nat), arePlaced true body = true →
    (∀ s ∈ body, s.Timed) → (∀ s ∈ numberedBody n body, s.nesting < maxNesting) →
      (bodyMarks n body).length < rounds → Fits tokens (bodyMarks n body) k →
        YieldsAll (iterate (programRound tokens) rounds done) (bodyMarks n body)
        (done ++ numberedBody n body) k
  | [], done, n, rounds, _, _, _, _, _ => by
    rw [numberedBody, append_nil]
    exact .iterate_none (programRound_eof hend)
  | s :: body, done, n, rounds + 1, hplaced, htimed, hnesting, hrounds, hfits => by
    rw [arePlaced, and_eq_true] at hplaced
    obtain ⟨hs, hbody⟩ := forall_mem_cons.1 htimed
    rw [numberedBody] at hnesting
    obtain ⟨hroom, hrooms⟩ := forall_mem_cons.1 hnesting
    rw [bodyMarks] at hrounds hfits ⊢
    rw [length_append] at hrounds
    have hmarks := s.length_marks_pos (n := n)
    have hmore := program_yieldsAll hend hdepth body (done ++ [s.numbered n])
      (n + s.height) rounds hplaced.2 hbody hrooms
      (by omega) hfits.after
    rw [append_assoc, singleton_append] at hmore
    refine .iterate_some (fun us hus => ?_) hmore
    -- after the statement comes another one or the end of the input
    have hnext {kind : TokenKind} (hne : .eof ≠ kind) (hkind : beginsStatement kind = false) :
        (k.before us).here.kind ≠ kind := by
      rw [kind_before hus]
      exact headKind_bodyMarks (by rwa [hend]) hkind
    have hread := s.reads hplaced.1 hs hroom (fun _ => depth_before.trans hdepth) (hfits.before hus)
      (hnext (by rintro ⟨⟩) rfl)
    exact programRound_yieldsAll (ne_of_beginsStatement s.begins_alone rfl)
      (hnext (by rintro ⟨⟩) rfl) hread

lemma ofTokens_concat {us : List Token} {t : Token} (ht : t.kind = .eof) :
    Cursor.ofTokens (us ++ [t]) = Cursor.before ⟨t, [], 0⟩ us := by
  unfold Cursor.ofTokens
  rw [terminated_concat ht]
  cases us <;> rfl

end Reading

section Lines

variable {f g : Nat → Nat}

mutual

/-- Lines can be mapped in one go. -/
lemma Expr.mapLine_mapLine : ∀ e : Expr, (e.mapLine g).mapLine f = e.mapLine (f ∘ g)
  | .literal v line => rfl
  | .identifier name scope line => rfl
  | .binary op left right line => by
    rw [Expr.mapLine, Expr.mapLine, left.mapLine_mapLine, right.mapLine_mapLine]
    rfl
  | .unary op operand line => by
    rw [Expr.mapLine, Expr.mapLine, operand.mapLine_mapLine]
    rfl
  | .call callee args line => by
    rw [Expr.mapLine, Expr.mapLine, mapLines_mapLines args]
    rfl
  | .member object property line => by
    rw [Expr.mapLine, Expr.mapLine, object.mapLine_mapLine, property.mapLine_mapLine]
    rfl
  | .list elements line => by
    rw [Expr.mapLine, Expr.mapLine, mapLines_mapLines elements]
    rfl
  | .record fields line => by
    rw [Expr.mapLine, Expr.mapLine, mapFields_mapFields fields]
    rfl

lemma Expr.mapLines_mapLines :
    ∀ es : List Expr, Expr.mapLines f (Expr.mapLines g es) = Expr.mapLines (f ∘ g) es
  | [] => rfl
  | e :: es =>
    by rw [Expr.mapLines, Expr.mapLines, e.mapLine_mapLine, mapLines_mapLines es, Expr.mapLines]

lemma Expr.mapFields_mapFields : ∀ fields : List (String × Expr),
    Expr.mapFields f (Expr.mapFields g fields) = Expr.mapFields (f ∘ g) fields
  | [] => rfl
  | (key, e) :: fields => by
    rw [Expr.mapFields, Expr.mapFields, e.mapLine_mapLine,
      mapFields_mapFields fields, Expr.mapFields]

end

end Lines

/-- The statement without its lines. -/
def Stmt.unlined (s : Stmt) : Stmt := s.mapLine fun _ => 0

/-- The program without its lines. -/
def Program.unlined (p : Program) : Program := ⟨p.body.map Stmt.unlined⟩

lemma Expr.unlined_onLine {n : Nat} (e : Expr) :
    (e.onLine n).mapLine (fun _ => 0) = e.mapLine fun _ => 0 := e.mapLine_mapLine

mutual

/-- Without lines, a numbered statement is the statement itself. -/
lemma Stmt.mapLine_numbered :
    ∀ (s : Stmt) (n : Nat), (s.numbered n).mapLine (fun _ => 0) = s.mapLine fun _ => 0
  | .event name timer body line, n => by
    rw [numbered, mapLine, mapLine, mapLines_numberedBody body]
  | .function name params body line, n => by
    rw [numbered, mapLine, mapLine, mapLines_numberedBody body]
  | .assign target scope value line, n =>
    by rw [numbered, mapLine, mapLine, value.unlined_onLine]
  | .increase target scope amount line, n =>
    by rw [numbered, mapLine, mapLine, amount.unlined_onLine]
  | .decrease target scope amount line, n =>
    by rw [numbered, mapLine, mapLine, amount.unlined_onLine]
  | .delete target scope line, n => rfl
  | .call callee args line, n => by
    rw [numbered, mapLine, mapLine, mapLines_mapLines args]
    rfl
  | .ifElse condition thenBody elseBody line, n => by
    rw [numbered, mapLine, mapLine, condition.unlined_onLine,
      mapLines_numberedBody thenBody, mapBranch_numberedBranch elseBody]
  | .whileLoop condition body line, n => by
    rw [numbered, mapLine, mapLine, condition.unlined_onLine, mapLines_numberedBody body]
  | .forEach item iterable body line, n => by
    rw [numbered, mapLine, mapLine, iterable.unlined_onLine, mapLines_numberedBody body]
  | .print value endsLine line, n =>
    by rw [numbered, mapLine, mapLine, value.unlined_onLine]
  | .giveBack none line, n => rfl
  | .giveBack (some value) line, n => by
    rw [numbered, mapLine, mapLine, map_some, map_some, value.unlined_onLine, map_some]
  | .expression value line, n =>
    by rw [numbered, mapLine, mapLine, value.unlined_onLine]

lemma Stmt.mapLines_numberedBody : ∀ (body : List Stmt) (n : Nat),
    mapLines (fun _ => 0) (numberedBody n body) = mapLines (fun _ => 0) body
  | [], n => rfl
  | s :: body, n => by
    rw [numberedBody, mapLines, mapLines, s.mapLine_numbered, mapLines_numberedBody body]

lemma Stmt.mapBranch_numberedBranch : ∀ (branch : Option (List Stmt)) (n : Nat),
    mapBranch (fun _ => 0) (numberedBranch n branch) = mapBranch (fun _ => 0) branch
  | none, n => rfl
  | some body, n =>
    by rw [numberedBranch, mapBranch, mapBranch, mapLines_numberedBody body]

end

lemma Program.unlined_numbered (p : Program) : p.numbered.unlined = p.unlined := by
  have hbody := Stmt.mapLines_numberedBody p.body 1
  rw [Stmt.mapLines_eq_map, Stmt.mapLines_eq_map] at hbody
  exact congrArg Program.mk hbody

section Compiling

variable {digits : Float → String} {p : Program}

/-- A text is compiled to what is read from its marks. -/
lemma compile_marks {source : String} {tokens : List Token} {marks : List Mark}
    {last : Mark} {body : List Stmt} (htokens : tokenize source = .ok tokens)
    (hmarks : tokens.map Token.mark = marks ++ [last]) (hlast : last.1 = .eof)
    (hhead : ∀ k : Cursor, k.here.kind = .eof → k.headKind marks ≠ .newline)
    (hloop : ∀ k : Cursor, k.here.kind = .eof → k.depth = 0 → Fits (marks.length + 1) marks k →
      YieldsAll (iterate (programRound (marks.length + 1)) (marks.length + 1) []) marks body k) :
    compile source = .ok ⟨body⟩ := by
  obtain ⟨us, t, rfl, hus, ht⟩ := Token.map_mark_concat hmarks
  rw [hlast] at ht
  let k : Cursor := ⟨t, [], 0⟩
  have hremaining : (k.before us).remaining = marks.length := remaining_marked hus
  have hread := hloop k ht rfl (Nat.lt_succ_self _) us hus
  have hpass : (k.before us).pass [.newline] = k.before us := by
    have hne := hhead k ht
    refine pass_of_not_contains ?_
    rw [kind_before hus]
    simpa using hne
  refine compile_iff.2 ⟨us ++ [t], k, htokens, ?_⟩
  rw [ofTokens_concat ht, program_run_iff, hpass, hremaining]
  exact hread

lemma Program.compile_numbered (hwritable : p.Writable digits)
    (hplaced : arePlaced true p.body = true)
    (hnesting : ∀ s ∈ p.numbered.body, s.nesting < maxNesting) (htimed : ∀ s ∈ p.body, s.Timed) :
    compile (p.text digits) = .ok p.numbered := by
  obtain ⟨tokens, htokens, hmarks⟩ := p.tokenize_text hplaced hwritable
  refine compile_marks htokens hmarks rfl (fun k hk => ?_) fun k hk hdepth hfits => ?_
  · exact headKind_bodyMarks (by rw [hk]; rintro ⟨⟩) rfl
  · exact program_yieldsAll hk hdepth p.body [] 1 _ hplaced htimed hnesting
      (Nat.lt_succ_self _) hfits

/-- A program that is printed one statement a line is what its text is compiled to, with the lines
on which its parts were printed. -/
theorem compile_text (hwritable : p.Writable digits) (hplaced : Stmt.arePlaced true p.body = true)
    (hnesting : ∀ s ∈ p.numbered.body, s.nesting < maxNesting) (htimed : ∀ s ∈ p.body, s.Timed) :
    compile (p.text digits) = .ok p.numbered ∧ p.numbered.unlined = p.unlined :=
  ⟨p.compile_numbered hwritable hplaced hnesting htimed, p.unlined_numbered⟩

end Compiling

/-- The digits of a number as they are displayed. -/
def numeral (value : Float) : String := (TokenKind.number value).display

/-- A function, an event and a timer, with blocks inside blocks:
```
to greet using name, times:
    while times > 0:
        say "hi " + name
        decrease times by 1
    give back {count: times, "for whom": [name, - 1]}
when start:
    set global total to greet("Bo", 5) .count
    for every x in [1, 2.5, "a"]:
        if (x == total) and (not (x < 3)):
            display x
        else:
            delete global total
every 5 seconds:
    log(total["full name"])
    give back
```
-/
def errands : Program :=
  let name (word : String) : Expr := .identifier word .plain 0
  let number (value : Float) : Expr := .literal (.number value) 0
  let text (word : String) : Expr := .literal (.text word) 0
  ⟨[.function "greet" ["name", "times"]
      [.whileLoop (.binary .greater (name "times") (number 0) 0)
        [.print (.binary .add (text "hi ") (name "name") 0) true 0,
        .decrease "times" .plain (number 1) 0] 0,
      .giveBack (some (.record [("count", name "times"),
        ("for whom", .list [name "name", .unary .negate (number 1) 0] 0)] 0)) 0] 0,
    .event "start" none
      [.assign "total" .global (.member (.call "greet" [text "Bo", number 5] 0) (text "count") 0) 0,
      .forEach "x" (.list [number 1, number 2.5, text "a"] 0)
        [.ifElse (.binary .and (.binary .equal (name "x") (name "total") 0)
            (.unary .not (.binary .less (name "x") (number 3) 0) 0) 0)
          [.print (name "x") false 0] (some [.delete "total" .global 0]) 0] 0] 0,
    .event Program.timerEvent (some ⟨5, .seconds⟩)
      [.call "log" [.member (name "total") (text "full name") 0] 0, .giveBack none 0] 0]⟩

/-- It is read back, with its parts on lines 1, 6 and 13. -/
theorem compile_errands : compile (errands.text numeral) = .ok errands.numbered ∧
    errands.numbered.body.map Stmt.line = [1, 6, 13] ∧
    errands.numbered.unlined = errands.unlined := by
  have htimed : ∀ s ∈ errands.body, s.Timed := by
    refine List.forall_mem_cons.2 ⟨trivial,
      List.forall_mem_cons.2 ⟨trivial, List.forall_mem_singleton.2 ?_⟩⟩
    exact ⟨rfl, by decide +kernel⟩
  have hwritable : errands.Writable numeral := by decide +kernel
  have hcompile := compile_text hwritable (by decide +kernel) (by decide +kernel) htimed
  exact ⟨hcompile.1, by decide +kernel, hcompile.2⟩

/-- What is wrong with a source text, if anything is. -/
def compileFault? (source : String) : Option CompileError :=
  match compile source with
  | .ok _ => none
  | .error e => some e

lemma compile_eq_error {source : String} {e : CompileError} (h : compileFault? source = some e) :
    compile source = .error e := by
  unfold compileFault? at h
  split at h
  · cases h
  · cases h
    assumption

/-- A program with one timer event. -/
def timerProgram (name : String) (interval : Float) : Program :=
  ⟨[.event name (some ⟨interval, .seconds⟩) [.delete "x" .plain 0] 0]⟩

lemma compile_timerProgram {name : String} :
    compile ((timerProgram name 5).text numeral) =
      .ok (timerProgram Program.timerEvent 5).numbered := by
  have hwritable : (timerProgram Program.timerEvent 5).Writable numeral := by decide +kernel
  refine Program.compile_numbered hwritable rfl (by decide +kernel) (forall_mem_singleton.2 ?_)
  exact ⟨rfl, by decide +kernel⟩

/-- Timers without a positive interval or with a name of their own are not read back. -/
theorem timers_not_read_back :
    ((timerProgram "timer" 0).Writable numeral ∧
      Stmt.arePlaced true (timerProgram "timer" 0).body = true ∧
      (∀ s ∈ (timerProgram "timer" 0).numbered.body, s.nesting < maxNesting) ∧
        compile ((timerProgram "timer" 0).text numeral) =
          .error (.grammar ⟨.invalid .intervalNotPositive, ⟨1, 7, 6⟩⟩)) ∧
      (timerProgram "tick" 5).Writable numeral ∧
      Stmt.arePlaced true (timerProgram "tick" 5).body = true ∧
        (∀ s ∈ (timerProgram "tick" 5).numbered.body, s.nesting < maxNesting) ∧
          compile ((timerProgram "tick" 5).text numeral) ≠
            .ok (timerProgram "tick" 5).numbered := by
  refine ⟨⟨by decide +kernel, rfl, by decide +kernel, compile_eq_error (by decide +kernel)⟩,
    by decide +kernel, rfl, by decide +kernel, fun h => ?_⟩
  -- what is read back has the name that all timers share
  rw [compile_timerProgram] at h
  injection h with h
  injection h with h
  injection h with h
  injection h with hname
  exact absurd hname (by decide)

end Colloquy
