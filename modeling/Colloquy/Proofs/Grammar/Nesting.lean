import Colloquy.Proofs.Grammar.Depth
import Colloquy.Proofs.Grammar.RoundTrip

/-!
# How deep a program can be nested

What compiles is nested no deeper than the limit, apart from arguments, elements and further
conditions that are spelled without a level of their own. With `length of` there is a program of
every depth.
-/

namespace Colloquy

open Grammar Production Scanner List Cursor Option Token

instance : Walks scopeMark := by
  unfold scopeMark
  infer_instance

instance : Walks endOfStatement := by
  unfold endOfStatement
  infer_instance

instance {keyword : Token} : Walks (requireTop keyword) := by
  unfold requireTop
  infer_instance

instance : Walks eventName := by
  unfold eventName
  infer_instance

instance : Walks schedule := by
  refine .of_bind inferInstance fun c => ?_
  dsimp only
  split
  · refine .of_bind inferInstance fun _ => ?_
    split
    · infer_instance
    · refine .of_bind inferInstance fun _ => .of_bind inferInstance fun word => ?_
      split <;> infer_instance
  · infer_instance

instance {params : List String} : Walks (paramRound params) := by
  unfold paramRound
  infer_instance

instance {tokens : Nat} : Walks (paramNames tokens) := by
  unfold paramNames
  infer_instance

instance {tokens : Nat} : Walks (parameters tokens) := by
  rw [parameters_eq]
  infer_instance

instance {tokens : Nat} : Walks (skipNewlines tokens) := inferInstanceAs (Walks (skipAll _ tokens))

section Statements

variable {w tokens room allowed total depth : Nat} {inner : InnerStatement} {c : Cursor}

/-- A block takes a level. -/
lemma bounded_block (hinner : Bounded w allowed (fun s => s.depth w + 1) inner) :
    Bounded w allowed (Stmt.bodyDepth w 1) (block tokens inner) := by
  intro c total depth hc
  refine .require fun _ => .require fun _ => passes_of_walks.bind hc.next.next fun _ c hc =>
    .require fun _ => .setDepth ?_
  have hopen : Reached w allowed total (max depth (Stmt.bodyDepth w 1 [])) { c.next with
      depth := c.next.depth + 1 } := by
    rw [Stmt.bodyDepth, Nat.max_zero]
    exact ⟨hc.next.closed, hc.next.allowed_le, hc.next.depth_le⟩
  refine .bind (Bounded.iterate (Stmt.bodyDepth w 1) hopen fun body c hbody => ?_)
    fun body c hbody => .setDepth ?_
  · refine passes_of_walks.bind hbody fun _ c hbody => .cursor ?_
    split
    · exact .pure hbody
    · refine hinner.bind hbody fun s c' hs => .pure ?_
      rwa [getD_some, Stmt.bodyDepth_concat, ← Nat.max_assoc]
  · have hclose : Reached w allowed total (max depth (Stmt.bodyDepth w 1 body)) { c with
        depth := c.depth - 1 } :=
      ⟨hbody.closed, hbody.allowed_le, hbody.depth_le⟩
    exact .require fun _ => .pure hclose.next

section

variable (hinner : Bounded w room (fun s => s.depth w + 1) inner)
include hinner

lemma bounded_eventDeclaration : Bounded w room (Stmt.depth w) (eventDeclaration tokens inner) := by
  intro c total depth hc
  refine .take (passes_of_walks.bind hc.next fun _ c hc => passes_of_walks.bind hc fun _ c hc => ?_)
  exact (bounded_block hinner).bind hc fun body c' hbody => .pure hbody

lemma bounded_timerDeclaration : Bounded w room (Stmt.depth w) (timerDeclaration tokens inner) := by
  intro c total depth hc
  refine .take (passes_of_walks.bind hc.next fun _ c hc => passes_of_walks.bind hc fun _ c hc => ?_)
  exact (bounded_block hinner).bind hc fun body c' hbody => .pure hbody

lemma bounded_functionDeclaration :
    Bounded w room (Stmt.depth w) (functionDeclaration tokens inner) := by
  intro c total depth hc
  refine .take (passes_of_walks.bind hc.next fun _ c hc => .name fun _ _ => ?_)
  refine passes_of_walks.bind hc.next fun _ c hc => ?_
  exact (bounded_block hinner).bind hc fun body c' hbody => .pure hbody

end

lemma ensures_lastTarget {s : Scope → String → Stmt} {n : Nat}
    (hs : ∀ scope target, (s scope target).depth w = n)
    (hc : Reached w allowed total (max depth n) c) :
    Ensures (lastTarget s) c fun s c' => Reached w allowed total (max depth (s.depth w)) c' := by
  refine passes_of_walks.bind hc fun scope c hc => .name fun target _ => ?_
  refine passes_of_walks.bind hc.next fun _ c hc => .pure ?_
  rwa [hs]

section Lines

variable (hw : w ≤ 1)
include hw

lemma bounded_lastValue {s : Expr → Stmt} (hs : ∀ e, (s e).depth w = e.depth w) :
    Bounded w room (Stmt.depth w) (lastValue tokens room s) := by
  intro c total depth hc
  refine (bounded_value hw).bind hc fun e c he => passes_of_walks.bind he fun _ c he => .pure ?_
  rwa [hs]

lemma bounded_assignment : Bounded w room (Stmt.depth w) (assignment tokens room) := by
  intro c total depth hc
  refine .take (passes_of_walks.bind hc.next fun scope c hc => .name fun target _ => ?_)
  split <;> exact .require fun _ => bounded_lastValue hw (fun _ => rfl) _ _ _ hc.next.next

lemma bounded_accumulation : Bounded w room (Stmt.depth w) (accumulation tokens room) := by
  intro c total depth hc
  refine .take ((bounded_value hw).bind hc.next fun amount c' hamount => ?_)
  dsimp only
  split
  · refine .require fun _ => ?_
    exact ensures_lastTarget (s := fun scope target => .increase target scope amount c.here.line)
      (fun _ _ => rfl) hamount.next
  · refine .require fun _ => ?_
    exact ensures_lastTarget (s := fun scope target => .decrease target scope amount c.here.line)
      (fun _ _ => rfl) hamount.next

lemma bounded_targetByAmount :
    Bounded w room (fun r => r.2.2.depth w) (targetByAmount tokens room) := by
  intro c total depth hc
  refine passes_of_walks.bind hc fun scope c hc => .name fun target _ => .require fun _ => ?_
  exact (bounded_value hw).bind hc.next.next fun e c he =>
    passes_of_walks.bind he fun _ c he => .pure he

lemma bounded_adjustment : Bounded w room (Stmt.depth w) (adjustment tokens room) := by
  intro c total depth hc
  refine .take ((bounded_targetByAmount hw).bind hc.next fun r c hr => ?_)
  obtain ⟨target, scope, amount⟩ := r
  refine .pure ?_
  split <;> exact hr

lemma bounded_scaling : Bounded w room (Stmt.depth w) (scaling tokens room) := by
  intro c total depth hc
  refine .take ((bounded_targetByAmount hw).bind hc.next fun r c hr => ?_)
  obtain ⟨target, scope, amount⟩ := r
  refine .pure ?_
  rw [Stmt.depth, Expr.depth, Expr.depth, Nat.zero_max]
  exact hr

omit hw in
lemma bounded_deletion : Bounded w room (Stmt.depth w) deletion := by
  intro c total depth hc
  refine .take (ensures_lastTarget (s := fun scope target => .delete target scope c.here.line)
    (fun _ _ => rfl) ?_)
  rw [Nat.max_zero]
  exact hc.next

lemma bounded_printing : Bounded w room (Stmt.depth w) (printing tokens room) := by
  intro c total depth hc
  exact .take (bounded_lastValue hw (fun _ => rfl) _ _ _ hc.next)

lemma bounded_returning : Bounded w room (Stmt.depth w) (returning tokens room) := by
  intro c total depth hc
  refine .take (.require fun _ => .cursor ?_)
  split
  · refine (passes_of_walks (p := endOfStatement)).bind hc.next.next fun _ c hc => .pure ?_
    rwa [Stmt.depth, Nat.max_zero]
  · exact bounded_lastValue hw (s := fun e => .giveBack (some e) c.here.line)
      (fun _ => rfl) _ _ _ hc.next.next

lemma bounded_storing : Bounded w room (Stmt.depth w) (storing tokens room) := by
  intro c total depth hc
  refine .take ((bounded_value hw).bind hc.next fun e c' he => .require fun _ => ?_)
  exact ensures_lastTarget (s := fun scope target => .assign target scope e c.here.line)
    (fun _ _ => rfl) he.next

/-- The prompt takes none. -/
lemma ensures_asking (hc : Reached w room total depth c) (hk : c.here.kind = .keyword .ask) :
    Ensures (asking tokens room) c fun s c' => Reached w room total (max depth (s.depth w)) c' := by
  have hspare := hc.spare (by rw [hk]; rintro ⟨⟩) (by rw [hk]; rfl)
  refine .take ((bounded_value hw).add.bind hspare fun prompt c' hprompt => ?_)
  have hprompt' : Reached w room total (max depth (prompt.depth w + w)) c' :=
    hprompt.of_le (Nat.le_add_right _ _) (Nat.le_refl _)
  have hend {c'' : Cursor} (h : Reached w room total (max depth (prompt.depth w + w)) c'') :=
    ensures_lastTarget (s := fun scope target =>
    .assign target scope (.call "input" [prompt] c.here.line) c.here.line)
      (n := prompt.depth w + w) (fun _ _ => Expr.itemsDepth_singleton) h
  refine .require fun _ => .require fun _ =>
    .accept (fun _ => .require fun _ => .require fun _ => ?_)
    fun _ => .require fun _ => .require fun _ => ?_
  · exact hend hprompt'.next.next.next.next.next
  · exact hend hprompt'.next.next.next.next

omit hw in
lemma bounded_termination : Bounded w room (Stmt.depth w) termination := by
  intro c total depth hc
  refine .take (.require fun _ => passes_of_walks.bind hc.next.next fun _ c hc => .pure ?_)
  rwa [Stmt.depth, Expr.itemsDepth, Nat.max_zero]

end Lines

lemma Reached.spare_elseIf (h : Reached w allowed total depth c) (helse : seesElseIf c = true) :
    Reached w (allowed + w) total depth c.next := by
  rw [seesElseIf, Bool.and_eq_true] at helse
  have hk : c.here.kind = .keyword .elseWord := of_decide_eq_true helse.1
  have hne : c.here.kind ≠ .eof := by rw [hk]; rintro ⟨⟩
  have hnext : c.next.here.kind = .keyword .ifWord := peek_one hne ▸ of_decide_eq_true helse.2
  exact h.spare hne (by rw [hk, hnext]; rfl)

section Blocks

variable (hw : w ≤ 1) (hinner : Bounded w room (fun s => s.depth w + 1) inner)
include hw hinner

lemma bounded_governed {α : Type} {size : α → Nat} {build : Expr → List Stmt → α}
    (hbuild : ∀ e body, size (build e body) = max (e.depth w) (Stmt.bodyDepth w 1 body)) :
    Bounded w room size (governed tokens room inner build) := by
  intro c total depth hc
  refine (bounded_value hw).bind hc fun e c he =>
    (bounded_block hinner).bind he fun body c hbody => .pure ?_
  rwa [hbuild, ← Nat.max_assoc]

lemma bounded_guarded : Bounded w room (Guarded.depth w) (guarded tokens room inner) := by
  intro c total depth hc
  exact .take (bounded_governed hw hinner (fun _ _ => rfl) _ _ _ hc.next)

/-- The links of a chain take none. -/
lemma bounded_conditional : Bounded w room (Stmt.depth w) (conditional tokens room inner) := by
  intro c total depth hc
  refine (bounded_guarded hw hinner).bind hc fun first c hfirst => ?_
  -- the more links have been read, the more words have been passed that make room for the next one
  have hnone : Reached w (room + w * ([] : List Guarded).length) total
      (max (max depth (first.depth w)) (linksDepth w [])) c := by
    rwa [linksDepth, Nat.max_zero]
  refine .bind (.iterate (I := fun others c => Reached w (room + w * others.length) total
    (max (max depth (first.depth w)) (linksDepth w others)) c) hnone fun others c h => .cursor ?_)
      fun others c h => ?_
  · split
    · rename_i helse
      have hspare := h.spare_elseIf helse
      rw [Nat.add_assoc] at hspare
      refine .take ((bounded_guarded hw hinner).add.bind hspare fun g c' hg => .pure ?_)
      rw [getD_some, linksDepth_concat, ← Nat.max_assoc,
        length_append, length_singleton, Nat.mul_succ]
      exact hg
    · exact .pure h
  · have hchain {c : Cursor} {last : Option (List Stmt)}
        (h : Reached w (room + w * others.length) total
          (max (max (max depth (first.depth w)) (linksDepth w others))
          (Stmt.branchDepth w last + w * others.length)) c) :
        Reached w room total (max depth ((chain first others last).depth w)) c := by
      refine h.of_le (Nat.le_add_right _ _) ?_
      have hbranch := branchDepth_links (w := w) others last
      rw [chain, Stmt.depth, Guarded.depth]
      omega
    refine .accept (fun _ => ?_) fun _ => .pure (hchain ?_)
    · refine (bounded_block hinner).add.bind h.next fun body c' hbody =>
        .pure (hchain (hbody.of_le (Nat.le_refl _) ?_))
      have hle := Stmt.branchDepth_some_le hw body
      omega
    · refine ⟨h.closed, h.allowed_le, ?_⟩
      have hdepth := h.depth_le
      have hallowed := h.allowed_le
      rw [Stmt.branchDepth]
      omega

lemma bounded_looping : Bounded w room (Stmt.depth w) (looping tokens room inner) := by
  intro c total depth hc
  refine .take ?_
  split
  · refine .accept (fun _ => ?_) fun _ => ?_
    · exact bounded_governed hw hinner (fun _ _ => rfl) _ _ _ hc.next.next
    · exact bounded_governed hw hinner (fun _ _ => rfl) _ _ _ hc.next
  · exact bounded_governed hw hinner (fun _ _ => rfl) _ _ _ hc.next

lemma bounded_loopOver {build : Expr → List Stmt → Stmt}
    (hbuild : ∀ e body, (build e body).depth w = max (e.depth w) (Stmt.bodyDepth w 1 body)) :
    Bounded w room (Stmt.depth w) (loopOver tokens room inner build) := by
  intro c total depth hc
  refine .cursor ?_
  split
  · exact .take (.take (bounded_governed hw hinner hbuild _ _ _ hc.next.next))
  · exact bounded_governed hw hinner hbuild _ _ _ hc

lemma bounded_loopFor {build : String → Expr → List Stmt → Stmt}
    (hbuild : ∀ item e body, (build item e body).depth w =
      max (e.depth w) (Stmt.bodyDepth w 1 body)) :
    Bounded w room (Stmt.depth w) (loopFor tokens room inner build) := by
  intro c total depth hc
  refine .name fun item _ => .require fun _ => .accept (fun _ => ?_) fun _ => ?_
  · exact bounded_loopOver hw hinner (hbuild item) _ _ _ hc.next.next.next
  · exact bounded_loopOver hw hinner (hbuild item) _ _ _ hc.next.next

lemma bounded_iterating : Bounded w room (Stmt.depth w) (iterating tokens room inner) := by
  intro c total depth hc
  refine .take (.accept (fun _ => ?_) fun _ => ?_)
  · exact bounded_loopFor hw hinner (fun _ _ _ => rfl) _ _ _ hc.next.next
  · exact bounded_loopFor hw hinner (fun _ _ _ => rfl) _ _ _ hc.next

/-- Every statement is bounded by its room. -/
lemma bounded_statement : Bounded w room (Stmt.depth w) (statement tokens room inner) := by
  intro c total depth hc
  refine .cursor ?_
  split
  · exact bounded_eventDeclaration hinner c total depth hc
  · exact bounded_timerDeclaration hinner c total depth hc
  · exact bounded_functionDeclaration hinner c total depth hc
  · exact bounded_assignment hw c total depth hc
  · exact bounded_assignment hw c total depth hc
  · exact bounded_assignment hw c total depth hc
  · exact bounded_accumulation hw c total depth hc
  · exact bounded_accumulation hw c total depth hc
  · exact bounded_adjustment hw c total depth hc
  · exact bounded_adjustment hw c total depth hc
  · exact bounded_scaling hw c total depth hc
  · exact bounded_scaling hw c total depth hc
  · exact bounded_deletion c total depth hc
  · exact bounded_conditional hw hinner c total depth hc
  · exact bounded_looping hw hinner c total depth hc
  · exact bounded_looping hw hinner c total depth hc
  · exact bounded_iterating hw hinner c total depth hc
  · exact bounded_printing hw c total depth hc
  · exact bounded_printing hw c total depth hc
  · exact bounded_returning hw c total depth hc
  · rename_i hk
    exact ensures_asking hw hc hk
  · exact bounded_storing hw c total depth hc
  · exact bounded_termination c total depth hc
  · exact bounded_lastValue hw (fun e => by cases e <;> rfl) c total depth hc

end Blocks

lemma bounded_statementAt (hw : w ≤ 1) :
    Bounded w room (Stmt.depth w) (statementAt tokens room) := by
  induction room with
  | zero => exact bounded_statement hw fun _ _ _ _ => .invalid
  | succ room ih => exact bounded_statement hw ih.add

/-- Programs are bounded by the limit. -/
lemma bounded_programAt (hw : w ≤ 1) :
    Bounded w maxNesting (Program.depth w) (programAt tokens) := by
  intro c total depth hc
  rw [programAt_eq]
  refine passes_of_walks.bind hc fun _ c hc => ?_
  have hempty : Reached w maxNesting total (max depth (Stmt.bodyDepth w 0 [])) c := by
    rwa [Stmt.bodyDepth, Nat.max_zero]
  refine .bind (Bounded.iterate (Stmt.bodyDepth w 0) hempty fun body c hbody => .cursor ?_)
    fun body c hbody => .pure hbody
  split
  · exact .pure hbody
  · refine (bounded_statementAt hw).bind hbody fun s c' hs =>
      passes_of_walks.bind hs fun _ c' hs => .pure ?_
    rwa [getD_some, Stmt.bodyDepth_concat, ← Nat.max_assoc]

end Statements

section Measures

/-- The length of the length of a variable, and so on. -/
def measure (line : Nat) : Nat → Expr
  | 0 => .identifier "x" .plain line
  | n + 1 => .call "length" [measure line n] line

/-- The words that spell it. -/
def measureKinds : Nat → List TokenKind
  | 0 => [.identifier "x"]
  | n + 1 => .keyword .length :: .keyword .of :: measureKinds n

lemma depth_measure {n line : Nat} : (measure line n).depth 1 = n := by
  induction n with
  | zero => rfl
  | succ n ih => rw [measure, Expr.depth, Expr.itemsDepth_singleton, ih]

variable {ts : List Token} {l o : Token}
  {room rounds n line tokens : Nat} {k : Cursor} {digits : Float → String}

/-- So many words `length of` are read, by induction on their number. -/
lemma measure_opens (hk : Stops postfixLevel k.here.kind) : ∀ (n rounds : Nat) (ts : List Token),
    ts.map Token.mark = marksOn line (measureKinds n) → (k.before ts).remaining ≤ rounds →
      Opens rounds room postfixLevel ts (measure line n) k
  | 0, rounds, ts, hts, hr => by
    obtain ⟨t, us, rfl, ht, rfl, hus⟩ := map_mark_cons hts
    obtain rfl := map_eq_nil_iff.1 hus
    exact opens_primary (primary_identifier ht) hr
  | n + 1, rounds, ts, hts, hr => by
    obtain ⟨l, us, rfl, hl, hline, hus⟩ := map_mark_cons hts
    obtain ⟨o, vs, rfl, ho, _, hvs⟩ := map_mark_cons hus
    have hlength : (k.before vs).remaining + 2 ≤ rounds := by
      simp only [remaining_before, length_cons] at hr ⊢
      omega
    obtain ⟨less, rfl⟩ : ∃ less, rounds = less + 1 := ⟨rounds - 1, by omega⟩
    have hinner : Yields (exprAt (less + 1) .call room) vs (measure line n) k :=
      (measure_opens hk n less vs hvs (by omega)).yields (Nat.le_refl _) hk
    refine opens_primary ?_ hr
    refine .cursor ?_
    dsimp only [Cursor.before]
    rw [hl, hline]
    exact .take hl (.accept ho hinner.map)

/-- The measuring chain is read. -/
lemma measure_yieldsAll (hk : Stops 0 k.here.kind)
    (hfits : Fits tokens (marksOn line (measureKinds n)) k) :
    YieldsAll (value tokens (room + 1)) (marksOn line (measureKinds n)) (measure line n) k := by
  intro ts hts
  have hremaining := remaining_marked (k := k) hts
  obtain ⟨less, rfl⟩ : ∃ less, tokens = less + 1 :=
    Nat.exists_eq_succ_of_ne_zero (Nat.ne_zero_of_lt hfits)
  have hr : (k.before ts).remaining ≤ less := hremaining ▸ Nat.le_of_lt_succ hfits
  have hopens : Opens less room postfixLevel ts (measure line n) k :=
    measure_opens (hk.mono (Nat.zero_le _)) n less ts hts hr
  have hhead : beginsOperand (k.before ts).here.kind = true := by
    rw [kind_before hts]
    cases n <;> rfl
  have hloose :=
    hopens.descend (Nat.zero_le _) (Nat.le_refl _) hr (hk.mono (Nat.zero_le 1)) fun _ => hhead
  exact .nested (hloose.yields (Nat.zero_le _) hk)

/-- The row `say length of length of ... x`. -/
def measureRow (n : Nat) : Row := ⟨0, .keyword .say :: measureKinds n⟩

lemma writable_measureRow : ∀ kind ∈ (measureRow n).kinds, kind.Writable digits := by
  have hname : Text.isName "x" = true := by decide +kernel
  have hkinds : ∀ kind ∈ measureKinds n, kind.Writable digits := by
    induction n with
    | zero => exact forall_mem_singleton.2 hname
    | succ n ih => exact forall_mem_cons.2 ⟨trivial, forall_mem_cons.2 ⟨trivial, ih⟩⟩
  exact forall_mem_cons.2 ⟨trivial, hkinds⟩

lemma measureRow_yieldsAll (hroom : 0 < room)
    (hfits : Fits tokens (rowMarks 1 (measureRow n).kinds) k) :
    YieldsAll (statementAt tokens room) (rowMarks 1 (measureRow n).kinds)
    (.print (measure 1 n) true 1) k := by
  obtain ⟨less, rfl⟩ := Nat.exists_eq_succ_of_ne_zero (Nat.ne_zero_of_lt hroom)
  refine statement_yieldsAll (.take fun t ht hn => ?_)
  rw [ht, hn]
  refine .bind (fun us hus => measure_yieldsAll (stops_of_joint_none ?_) (hfits.tail.before hus))
    (endOfStatement_yieldsAll .pure)
  rw [kind_before hus]
  rfl

/-- A program of every depth is compiled. -/
lemma compile_measure :
    compile (rowsText digits [measureRow n]) = .ok ⟨[.print (measure 1 n) true 1]⟩ := by
  have hwritable : ∀ row ∈ [measureRow n], ∀ kind ∈ row.kinds, kind.Writable digits :=
    forall_mem_singleton.2 writable_measureRow
  obtain ⟨tokens, htokens, hmarks⟩ :=
    tokenize_rows hwritable (forall_mem_singleton.2 (cons_ne_nil _ _))
    ⟨Nat.zero_le _, trivial⟩ (by rintro _ ⟨⟩; exact Nat.le_refl 0)
  rw [measureRow, pageMarks_row] at hmarks
  refine compile_marks htokens hmarks rfl (fun k _ => by rintro ⟨⟩) fun k hk hdepth hfits => ?_
  have hend {kind : TokenKind} (hkind : .eof ≠ kind) : k.here.kind ≠ kind := hk ▸ hkind
  refine .iterate_once (programRound_yieldsAll ?_ (hend (by rintro ⟨⟩))
    (measureRow_yieldsAll (by decide) hfits)) (programRound_eof hk)
  rintro ⟨⟩

lemma depth_measured : Program.depth 1 ⟨[.print (measure 1 n) true 1]⟩ = n := by
  rw [Program.depth, Stmt.bodyDepth, Stmt.bodyDepth, Stmt.depth,
    depth_measure, Nat.add_zero, Nat.max_zero]

end Measures

section Programs

variable {w : Nat} {source : String} {tokens : List Token} {p : Program}

lemma slack_zero {kinds : List TokenKind} : slack 0 kinds = 0 := by
  induction kinds with
  | nil => rfl
  | cons kind kinds ih =>
    rw [slack, ih]
    split <;> rfl

/-- A program is nested no deeper than the limit and the words without a level allow. -/
lemma depth_le (hw : w ≤ 1) (htokens : (start source.toList).tokenize.1 = .ok tokens) {c : Cursor}
    (hrun : program.run (.ofTokens tokens) = (.ok p, c)) :
    p.depth w ≤ maxNesting + slack w (tokens.map Token.kind) := by
  have hcomplete := complete_of_tokenize htokens
  have hrow := hcomplete.row_ofTokens
  obtain ⟨inner, last, hlast, _, heof, _⟩ := hcomplete
  have hstart :
      Reached w maxNesting (maxNesting + slack w (tokens.map Token.kind)) 0 (.ofTokens tokens) := by
    refine ⟨⟨inner, last, hrow.trans hlast, heof⟩, ?_, ?_⟩ <;> rw [Cursor.slack, hrow]
    rw [Nat.zero_add]
    exact Nat.le_add_left _ _
  have hend := bounded_programAt hw _ _ _ hstart p c hrun
  have hdepth := hend.depth_le
  omega

/-- What compiles is nested no deeper than the limit, apart from arguments, elements and further
conditions. With them, it is deeper by at most one for each word without a level of its own. -/
theorem compile_depth (h : compile source = .ok p) : ∃ tokens, tokenize source = .ok tokens ∧
    p.depth 0 ≤ maxNesting ∧ p.depth 1 ≤ maxNesting + slack 1 (tokens.map Token.kind) := by
  obtain ⟨tokens, c, htokens, hrun⟩ := compile_iff.1 h
  refine ⟨tokens, htokens, ?_, depth_le (Nat.le_refl 1) htokens hrun⟩
  -- without a weight, the words allow for nothing
  have hzero := depth_le (Nat.zero_le 1) htokens hrun
  rwa [slack_zero] at hzero

/-- A program of 150 levels, none of them counted. -/
theorem compile_depth_measure : ∃ p tokens, compile (rowsText numeral [measureRow 150]) = .ok p ∧
    tokenize (rowsText numeral [measureRow 150]) = .ok tokens ∧ p.depth 1 = 150 ∧
      p.depth 0 ≤ maxNesting ∧ p.depth 1 ≤ maxNesting + slack 1 (tokens.map Token.kind) := by
  have hp : compile (rowsText numeral [measureRow 150]) = .ok ⟨[.print (measure 1 150) true 1]⟩ :=
    compile_measure
  obtain ⟨tokens, htokens, hbounds⟩ := compile_depth hp
  exact ⟨_, tokens, hp, htokens, depth_measured, hbounds⟩

/-- The limit does not bound the depth of what compiles. -/
theorem compile_exceeds_maxNesting : ∃ p,
    compile ("say " ++ String.join (List.replicate 101 "length of ") ++ "x\n") = .ok p ∧
    maxNesting < p.depth 1 := by
  have htext : rowsText numeral [measureRow 101] = "say " ++
      String.join (List.replicate 101 "length of ") ++ "x\n" := by
    decide +kernel
  refine ⟨_, htext ▸ compile_measure, ?_⟩
  rw [depth_measured]
  decide

end Programs

end Colloquy
