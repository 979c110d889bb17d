import Colloquy.Proofs.Grammar.Nesting
import Colloquy.Proofs.Grammar.Progress

/-!
# Statements come to an end

A statement passes a token of its own line, and then the end of that line, unless the block or the
input ends there (`Cursor.Concludes`). What is read one block deeper ends at the same depth.
-/

namespace Colloquy

open List Cursor

namespace Cursor

variable {o c c' : Cursor} {line : Nat}

/-- The end of a line stands between two cursors. -/
def Turns (o c : Cursor) : Prop := ∃ passed, Between passed o c ∧ ∃ t ∈ passed, t.kind = .newline

/-- A token of this line is passed, and after it the end of a line. -/
def Leaves (o c : Cursor) (line : Nat) : Prop :=
  ∃ before after, Between (before ++ after) o c ∧ (∃ t ∈ before, t.line = line) ∧
  ∃ t ∈ after, t.kind = .newline

/-- No statement can begin at a cursor. -/
def Halted (c : Cursor) : Prop := c.here.kind = .dedent ∨ c.here.kind = .eof

/-- A statement of this line has been read: its line has ended, or no other statement follows. -/
structure Concludes (o c : Cursor) (line : Nat) : Prop where
  onward : o.Onward c
  crosses : o.Crosses c line
  rests : c.Halted ∨ o.Leaves c line

lemma Closed.turns_next (h : c.Closed) (hk : c.here.kind = .newline) : c.Turns c.next :=
  ⟨_, h.between_next (by rw [hk]; rintro ⟨⟩), c.here, mem_singleton_self _, hk⟩

lemma Turns.onward (h : o.Turns c) (h' : c.Onward c') : o.Turns c' := by
  obtain ⟨passed, hpassed, t, ht, hk⟩ := h
  obtain ⟨passed', hpassed'⟩ := h'.path
  exact ⟨_, hpassed.append hpassed', t, mem_append_left _ ht, hk⟩

lemma Onward.turns (h : o.Onward c) (h' : c.Turns c') : o.Turns c' := by
  obtain ⟨passed, hpassed⟩ := h.path
  obtain ⟨passed', hpassed', t, ht, hk⟩ := h'
  exact ⟨_, hpassed.append hpassed', t, mem_append_right _ ht, hk⟩

lemma Turns.crosses (h : o.Turns c) : ∃ line, o.Crosses c line := by
  obtain ⟨passed, hpassed, t, ht, _⟩ := h
  exact ⟨t.line, passed, hpassed, t, ht, rfl⟩

lemma Crosses.leaves (h : o.Crosses c line) (h' : c.Turns c') : o.Leaves c' line := by
  obtain ⟨before, hbefore, t, ht, hline⟩ := h
  obtain ⟨after, hafter, u, hu, hk⟩ := h'
  exact ⟨before, after, hbefore.append hafter, ⟨t, ht, hline⟩, u, hu, hk⟩

lemma Leaves.crosses (h : o.Leaves c line) : o.Crosses c line := by
  obtain ⟨before, after, hpassed, ⟨t, ht, hline⟩, _⟩ := h
  exact ⟨_, hpassed, t, mem_append_left _ ht, hline⟩

lemma Leaves.onward (h : o.Leaves c line) (h' : c.Onward c') : o.Leaves c' line := by
  obtain ⟨before, after, hpassed, hline, u, hu, hk⟩ := h
  obtain ⟨passed, hpassed'⟩ := h'.path
  refine ⟨before, after ++ passed, ?_, hline, u, mem_append_left _ hu, hk⟩
  rw [← append_assoc]
  exact hpassed.append hpassed'

lemma Closed.leaves_of_next (h : o.Closed) (h' : o.next.Turns c) : o.Leaves c o.here.line := by
  obtain ⟨_, hcrosses⟩ := h'.crosses
  exact (h.crosses_next (not_eof_of_next hcrosses)).leaves h'

end Cursor

namespace Grammar

open Production

variable {n m room : Nat} {inner inner' : InnerStatement} {o c : Cursor} {lines : List Nat}

/-- The statements of a block, with what is done at its end to the number of open blocks. -/
def blockLeaving (leave : Nat → Nat) (tokens : Nat) (inner : InnerStatement) :
    Production (List Stmt) := do
  let _ ← require (.symbol .colon) "':'"
  let _ ← require .newline "new line after ':'"
  skipNewlines tokens
  let _ ← require .indent "indented block"
  setDepth (· + 1)
  let body ← iterate (blockRound tokens inner) tokens []
  setDepth leave
  let _ ← require .dedent "end of block"
  return body

lemma block_eq : block n inner = blockLeaving (· - 1) n inner := rfl

/-- Both productions read a statement. -/
def Completes (p q : Production Stmt) (c : Cursor) : Prop :=
  Steady c p q c fun s c' => c.Concludes c' s.line

/-- Inner statements, for two readers with different numbers of rounds. -/
def InnerCompletes (n m : Nat) (inner inner' : InnerStatement) : Prop :=
  ∀ c, c.Closed → c.remaining < n → c.remaining < m → Completes inner inner' c

/-- Both productions read something and pass the end of a line. -/
def Turned {α : Type} (p q : Production α) (c : Cursor) : Prop :=
  Steady c p q c fun _ c' => c.Onward c' ∧ c.Turns c'

/-- The rest of a statement has been read, at least one token of it. -/
structure Finished (o c : Cursor) : Prop where
  onward : o.Onward c
  crosses : ∃ line, o.Crosses c line
  rests : c.Halted ∨ o.Turns c

lemma Finished.of_turns (h : o.Onward c) (hturns : o.Turns c) : Finished o c :=
  ⟨h, hturns.crosses, .inr hturns⟩

lemma Turned.bind {α β : Type} {p q : Production α} {f g : α → Production β}
    {post : β → Cursor → Prop} (hp : Turned p q c) (h : Amid n m o lines c)
    (hf : ∀ a c', Amid n m o lines c' → o.Turns c' → Steady o (f a) (g a) c' post) :
    Steady o (p >>= f) (q >>= g) c post :=
  .bind (hp.since h.onward) fun a c' hc' => hf a c' (h.after hc'.1) (h.onward.turns hc'.2)

/-- A statement has the line of its first token. -/
lemma completes_headed {f g : Token → Production Stmt} (h : Amid n m c [] c)
    (hf : Amid n m c.next [] c.next → Steady c.next (f c.here) (g c.here) c.next fun s c' =>
      s.line = c.here.line ∧ Finished c.next c') : Completes (take >>= f) (take >>= g) c := by
  have hnext := h.step
  refine .take (((hf hnext.anew).since hnext.onward).mono ?_)
  rintro s c' ⟨hline, honward, ⟨line, hcrosses⟩, hrests⟩
  rw [hline]
  have hclosed := h.onward.closed
  exact ⟨hnext.onward.trans honward, hclosed.crosses_of_next hcrosses,
    hrests.imp_right hclosed.leaves_of_next⟩

/-- A statement ends with its line, its block or the input. -/
lemma rests_endOfStatement (h : Amid n m o lines c) :
    Steady c endOfStatement endOfStatement c fun _ c' => c.Onward c' ∧
    (c'.Halted ∨ c.Turns c') := by
  have hclosed := h.onward.closed
  refine .accept (fun hk => .pure ⟨hclosed.onward_next, .inr (hclosed.turns_next hk)⟩)
    fun _ => .cursor ?_
  split
  · rename_i hend
    exact .pure ⟨.refl hclosed,
      .inl ((Bool.or_eq_true_iff.mp hend).symm.imp of_decide_eq_true of_decide_eq_true)⟩
  · exact .expected (.refl hclosed)

lemma tried_paramRound {params : List String} (h : Amid n m c [] c) :
    Steady c (paramRound params) (paramRound params) c (Tried n m c) := by
  refine h.accept (fun h => h.name fun _ h => .pure (.some h)) ?_
  exact h.accept (fun h => h.name fun _ h => .pure (.some h)) (.pure (.none h))

lemma Amid.paramNames (h : Amid n m o lines c) :
    Steady o (paramNames n) (paramNames m) c fun _ c' => o.Onward c' :=
  h.name fun _ h => (h.loop fun _ _ h => tried_paramRound h).mono fun _ _ h => h.onward

lemma proceeds_parameters (h : Amid n m o lines c) : Proceeds (parameters n) (parameters m) c :=
  h.anew.accept (fun h => Amid.paramNames h)
  (h.anew.accept (fun h => Amid.paramNames h) (.pure h.anew.onward))

section Blocks

variable (hinner : InnerCompletes n m inner inner') {leave leave' : Nat → Nat}
  {s : Expr → List Stmt → Stmt} {line : Nat}

/-- What is read one block deeper ends at the same depth, so that there is a block to leave. -/
lemma Amid.deeper {α β : Type} {loop loop' : Production α} {f g : α → Production β}
    {post : β → Cursor → Prop} (h : Amid n m o lines c)
    (hin : ∃ passed, Between passed o c ∧ 0 < Cursor.indents passed)
    (hloop : ∀ c, Amid n m c [] c → Proceeds loop loop' c) (hleave : ∀ d, leave (d + 1) = d)
    (hleave' : ∀ d, leave' (d + 1) = d) (hf : ∀ a c', c.Onward c' → Steady o (f a) (g a) c' post) :
    Steady o
      (do
        setDepth (· + 1)
        let a ← loop
        setDepth leave
        f a)
      (do
        setDepth (· + 1)
        let a ← loop'
        setDepth leave'
        g a) c post := by
  have hdeep : Amid n m { c with depth := c.depth + 1 } [] { c with depth := c.depth + 1 } :=
    .start h.onward.closed h.left h.right
  have hbody := hloop _ hdeep
  have hstep : Steady o
      (do
        let a ← loop
        setDepth leave
        f a)
      (do
        let a ← loop'
        setDepth leave'
        g a) { c with depth := c.depth + 1 } post := by
    have hinside : Steady o loop loop' { c with depth := c.depth + 1 } fun _ c' =>
        Onward { c with depth := c.depth + 1 } c' := by
      refine ⟨hbody.same, hbody.ok, fun e c' hr => ?_⟩
      obtain ⟨hclosed, ⟨passed', hpassed', hle⟩, hdepth⟩ := hbody.error e c' hr
      obtain ⟨passed, hpassed, hpos⟩ := hin
      have hc : c.depth = o.depth := h.onward.depth
      refine ⟨hclosed, ⟨_, hpassed.append hpassed', ?_⟩, hc ▸ Nat.le_of_succ_le hdepth⟩
      rw [Cursor.indents, countP_append]
      dsimp only [Cursor.indents] at hle hpos
      omega
    refine .bind hinside fun a c' ha => ?_
    have hdepth : c'.depth = c.depth + 1 := ha.depth
    have hback : c.Onward { c' with depth := c.depth } := ⟨ha.closed, ha.path, rfl⟩
    have hout {leave : Nat → Nat} (hleave : ∀ d, leave (d + 1) = d) :
        run (setDepth leave) c' = (.ok (), { c' with depth := c.depth }) := by
      rw [run, setDepth, hdepth, hleave]
    exact .bind_ok (hout hleave) (hout hleave') (hf a _ hback)
  exact ⟨hstep.same, hstep.ok, hstep.error⟩

include hinner

lemma tried_blockRound {body : List Stmt} (h : Amid n m c [] c) :
    Steady c (blockRound n inner body) (blockRound m inner' body) c (Tried n m c) := by
  refine (h.skipAll (by decide)).bind h fun _ c' h => .cursor ?_
  split
  · exact .pure (.none h)
  · have hstatement := hinner c' h.onward.closed h.left h.right
    exact .bind (hstatement.since h.onward) fun s c'' hs =>
      .pure (.some (h.cross hs.onward hs.crosses))

/-- A block passes the end of a line. -/
lemma turned_blockLeaving (hleave : ∀ d, leave (d + 1) = d) (hleave' : ∀ d, leave' (d + 1) = d)
    (h : Amid n m o lines c) :
    Turned (blockLeaving leave n inner) (blockLeaving leave' m inner') c := by
  refine h.anew.require fun h => .require h.onward fun hk => ?_
  have hturns := h.onward.turns (h.onward.closed.turns_next hk)
  refine .bind ((h.step.skipAll (by decide)).since h.step.onward) fun _ c' hskip => ?_
  have h' := h.step.after hskip
  refine .require h'.onward fun hindent => ?_
  have hin : ∃ passed, Between passed c c'.next ∧ 0 < Cursor.indents passed := by
    obtain ⟨passed, hpassed⟩ := h'.onward.path
    refine ⟨_, hpassed.append (h'.onward.closed.between_next (by rw [hindent]; rintro ⟨⟩)), ?_⟩
    simp [Cursor.indents, hindent]
  refine Amid.deeper h'.step hin (fun c hc => ?_) hleave hleave' fun body c'' hbody => ?_
  · exact (hc.loop fun _ _ h => tried_blockRound hinner h).mono fun _ _ h => h.onward
  · have h'' := h'.step.after hbody
    exact .require h''.onward fun _ =>
      .pure ⟨h''.step.onward, hturns.onward ((hskip.next.trans hbody).next)⟩

lemma turned_block (h : Amid n m o lines c) : Turned (block n inner) (block m inner') c :=
  turned_blockLeaving hinner (fun _ => rfl) (fun _ => rfl) h

section

variable (h : Amid n m c [] c)
include h

lemma completes_eventDeclaration :
    Completes (eventDeclaration n inner) (eventDeclaration m inner') c :=
  completes_headed h fun h => h.proceeds.bind h fun _ _ h => h.proceeds.bind h fun _ _ h =>
    (turned_block hinner h).bind h fun _ _ h hturns => .pure ⟨rfl, .of_turns h.onward hturns⟩

lemma completes_timerDeclaration :
    Completes (timerDeclaration n inner) (timerDeclaration m inner') c :=
  completes_headed h fun h => h.proceeds.bind h fun _ _ h => h.proceeds.bind h fun _ _ h =>
    (turned_block hinner h).bind h fun _ _ h hturns => .pure ⟨rfl, .of_turns h.onward hturns⟩

lemma completes_functionDeclaration :
    Completes (functionDeclaration n inner) (functionDeclaration m inner') c :=
  completes_headed h fun h => h.proceeds.bind h fun _ _ h =>
  h.name fun _ h => (proceeds_parameters h).bind h
    fun _ _ h => (turned_block hinner h).bind h fun _ _ h hturns =>
      .pure ⟨rfl, .of_turns h.onward hturns⟩

lemma steady_guarded :
    Steady c (guarded n room inner) (guarded m room inner') c fun g c' => c.Onward c' ∧
    c.Leaves c' g.line := by
  have hclosed := h.onward.closed
  refine .take (.since ?_ hclosed.onward_next)
  exact (advances_value h.step.anew).bind h.step.anew fun _ _ h =>
      (turned_block hinner h).bind h fun _ _ h hturns =>
    .pure ⟨hclosed.onward_next.trans h.onward, hclosed.leaves_of_next hturns⟩

lemma tried_linkRound {others : List Guarded} :
    Steady c (linkRound n room inner others) (linkRound m room inner' others) c (Tried n m c) := by
  refine .cursor ?_
  split
  · rename_i helse
    rw [seesElseIf, Bool.and_eq_true] at helse
    have hnext := h.past (of_decide_eq_true helse.1)
    exact .take (.bind ((steady_guarded hinner hnext.anew).since hnext.onward) fun g c' hg =>
      .pure (.some (hnext.cross hg.1 hg.2.crosses)))
  · exact .pure (.none h)

/-- A chain of conditions comes to its end. -/
lemma completes_conditional :
    Completes (conditional n room inner) (conditional m room inner') c := by
  refine .bind (steady_guarded hinner h) fun first c1 ⟨hfirst, hleaves⟩ => ?_
  have h1 := h.after hfirst
  refine .bind ((h1.anew.loop fun _ _ h => tried_linkRound hinner h).since hfirst)
    fun others c2 h2 => ?_
  have hdone {c' : Cursor} (h : c1.Onward c') : c.Concludes c' first.line :=
    ⟨hfirst.trans h, hleaves.crosses.onward h, .inr (hleaves.onward h)⟩
  refine (h1.after h2.onward).accept (fun h => ?_) (.pure (hdone h2.onward))
  exact .bind ((turned_block hinner h).since h.onward) fun _ _ hblock =>
    .pure (hdone (h2.step.onward.trans hblock.1))

end

lemma Amid.governed (h : Amid n m o lines c) (hs : ∀ e body, (s e body).line = line) :
    Steady o (governed n room inner s) (governed m room inner' s) c fun s' c' =>
    s'.line = line ∧ Finished o c' :=
  (advances_value h).bind h fun e _ h => (turned_block hinner h).bind h fun body _ h hturns =>
    .pure ⟨hs e body, .of_turns h.onward hturns⟩

lemma completes_looping (h : Amid n m c [] c) :
    Completes (looping n room inner) (looping m room inner') c := by
  refine completes_headed h fun h => ?_
  split
  · refine h.accept (fun h => ?_) ?_
    · exact Amid.governed hinner h fun _ _ => rfl
    · exact Amid.governed hinner h fun _ _ => rfl
  · exact Amid.governed hinner h fun _ _ => rfl

lemma Amid.loopOver (h : Amid n m o lines c) (hs : ∀ e body, (s e body).line = line) :
    Steady o (loopOver n room inner s) (loopOver m room inner' s) c fun s' c' => s'.line = line ∧
    Finished o c' := by
  refine .cursor ?_
  split
  · exact .take (.take (Amid.governed hinner h.step.step hs))
  · exact Amid.governed hinner h hs

lemma Amid.loopFor {s : String → Expr → List Stmt → Stmt} (h : Amid n m o lines c)
    (hs : ∀ item e body, (s item e body).line = line) :
    Steady o (loopFor n room inner s) (loopFor m room inner' s) c fun s' c' =>
    s'.line = line ∧ Finished o c' :=
  h.name fun item h => h.require fun h =>
    h.accept (fun h => Amid.loopOver hinner h (hs item)) (Amid.loopOver hinner h (hs item))

lemma completes_iterating (h : Amid n m c [] c) :
    Completes (iterating n room inner) (iterating m room inner') c := by
  refine completes_headed h fun h => h.accept (fun h => ?_) ?_
  · exact Amid.loopFor hinner h fun _ _ _ => rfl
  · exact Amid.loopFor hinner h fun _ _ _ => rfl

end Blocks

section Lines

variable {line : Nat}

lemma Amid.finished {c' : Cursor} (h : Amid n m o (line :: lines) c) (honward : c.Onward c')
    (hrests : c'.Halted ∨ c.Turns c') : Finished o c' :=
  ⟨h.onward.trans honward, ⟨line, (h.after honward).crosses line mem_cons_self⟩,
  hrests.imp_right h.onward.turns⟩

lemma Amid.ended {s : Stmt} (h : Amid n m o (line :: lines) c) :
    Steady o (do endOfStatement; return s) (do endOfStatement; return s) c fun s' c' =>
    s'.line = s.line ∧ Finished o c' :=
  .bind ((rests_endOfStatement h).since h.onward) fun _ _ hc' =>
  .pure ⟨rfl, Amid.finished h hc'.1 hc'.2⟩

lemma Amid.lastValue {s : Expr → Stmt} (h : Amid n m o lines c) (hs : ∀ e, (s e).line = line) :
    Steady o (lastValue n room s) (lastValue m room s) c fun s' c' =>
    s'.line = line ∧ Finished o c' :=
  (advances_value h).bind h fun e _ h => hs e ▸ Amid.ended h

lemma Amid.lastTarget {s : Scope → String → Stmt} (h : Amid n m o lines c)
    (hs : ∀ scope target, (s scope target).line = line) :
    Steady o (lastTarget s) (lastTarget s) c fun s' c' => s'.line = line ∧ Finished o c' :=
  h.proceeds.bind h fun scope _ h => h.name fun target h => hs scope target ▸ Amid.ended h

lemma completes_assignment (h : Amid n m c [] c) :
    Completes (assignment n room) (assignment m room) c := by
  refine completes_headed h fun h => h.proceeds.bind h fun _ _ h => h.name fun _ h => ?_
  split
  · exact h.require fun h => Amid.lastValue h fun _ => rfl
  · exact h.require fun h => Amid.lastValue h fun _ => rfl

lemma completes_accumulation (h : Amid n m c [] c) :
    Completes (accumulation n room) (accumulation m room) c := by
  refine completes_headed h fun h => (advances_value h).bind h fun amount _ h => ?_
  dsimp only
  split
  · exact h.require fun h =>
      Amid.lastTarget (s := fun scope target => .increase target scope amount _) h fun _ _ => rfl
  · exact h.require fun h =>
      Amid.lastTarget (s := fun scope target => .decrease target scope amount _) h fun _ _ => rfl

lemma finishes_targetByAmount (h : Amid n m o lines c) :
    Steady c (targetByAmount n room) (targetByAmount m room) c fun _ c' => Finished c c' :=
  h.proceeds.bind h.anew fun _ _ h => h.name fun _ h => h.require fun h => (advances_value h).bind h
    fun _ _ h => .bind ((rests_endOfStatement h).since h.onward) fun _ _ hc' =>
      .pure (Amid.finished h hc'.1 hc'.2)

section

variable (h : Amid n m c [] c)
include h

lemma completes_adjustment : Completes (adjustment n room) (adjustment m room) c := by
  refine completes_headed h fun h => .bind (finishes_targetByAmount h) fun r _ hr => .pure ⟨?_, hr⟩
  split <;> rfl

lemma completes_scaling : Completes (scaling n room) (scaling m room) c :=
  completes_headed h fun h => .bind (finishes_targetByAmount h) fun _ _ hr => .pure ⟨rfl, hr⟩

lemma completes_deletion : Completes deletion deletion c := completes_headed h fun h =>
  Amid.lastTarget (s := fun scope target => .delete target scope _) h fun _ _ => rfl

lemma completes_printing : Completes (printing n room) (printing m room) c :=
  completes_headed h fun h => Amid.lastValue (s := fun e => .print e _ _) h fun _ => rfl

lemma completes_returning : Completes (returning n room) (returning m room) c := by
  refine completes_headed h fun h => h.require fun h => .cursor ?_
  split
  · exact Amid.ended (s := .giveBack none _) h
  · exact Amid.lastValue (s := fun e => .giveBack (some e) _) h fun _ => rfl

lemma completes_asking : Completes (asking n room) (asking m room) c := by
  refine completes_headed h fun h => (advances_value h).bind h fun prompt _ h =>
    h.require fun h => h.require fun h => ?_
  have hresult {o c : Cursor} {line : Nat} {lines : List Nat} (h : Amid n m o lines c) :
      Steady o (resultTarget fun scope target =>
      .assign target scope (.call "input" [prompt] line) line)
        (resultTarget fun scope target => .assign target scope (.call "input" [prompt] line) line) c
        fun s c' => s.line = line ∧ Finished o c' :=
    h.require fun h => h.require fun h => Amid.lastTarget h fun _ _ => rfl
  exact h.accept (fun h => hresult h) (hresult h)

lemma completes_storing : Completes (storing n room) (storing m room) c :=
  completes_headed h fun h => (advances_value h).bind h fun e _ h => h.require fun h =>
    Amid.lastTarget (s := fun scope target => .assign target scope e _) h fun _ _ => rfl

lemma completes_termination : Completes termination termination c :=
  completes_headed h fun h => h.require fun h => Amid.ended (s := .call "terminate" [] _) h

end

lemma line_ofExpression {e : Expr} : (ofExpression e).line = e.line := by cases e <;> rfl

lemma completes_expressionStatement (h : Amid n m c [] c) :
    Completes (expressionStatement n room) (expressionStatement m room) c := by
  refine .bind (advances_value h) fun e c1 ⟨honward, hcrosses⟩ => ?_
  refine .bind ((rests_endOfStatement (h.after honward)).since honward)
    fun _ c2 ⟨honward', hrests⟩ => .pure ?_
  rw [line_ofExpression]
  exact ⟨honward.trans honward', hcrosses.onward honward', hrests.imp_right hcrosses.leaves⟩

end Lines

/-- So does every statement, case by case of its first word. -/
lemma completes_statement (hinner : InnerCompletes n m inner inner') (h : Amid n m c [] c) :
    Completes (statement n room inner) (statement m room inner') c := by
  refine .cursor ?_
  split
  · exact completes_eventDeclaration hinner h
  · exact completes_timerDeclaration hinner h
  · exact completes_functionDeclaration hinner h
  · exact completes_assignment h
  · exact completes_assignment h
  · exact completes_assignment h
  · exact completes_accumulation h
  · exact completes_accumulation h
  · exact completes_adjustment h
  · exact completes_adjustment h
  · exact completes_scaling h
  · exact completes_scaling h
  · exact completes_deletion h
  · exact completes_conditional hinner h
  · exact completes_looping hinner h
  · exact completes_looping hinner h
  · exact completes_iterating hinner h
  · exact completes_printing h
  · exact completes_printing h
  · exact completes_returning h
  · exact completes_asking h
  · exact completes_storing h
  · exact completes_termination h
  · exact completes_expressionStatement h

/-- So do inner statements, by induction on the room. -/
lemma innerCompletes_innerStatement :
    InnerCompletes n m (innerStatement n room) (innerStatement m room) := by
  induction room with
  | zero =>
    intro c hc _ _
    unfold Completes innerStatement
    exact .nested (.refl hc) fun _ => .expected (.refl hc)
  | succ room ih =>
    intro c hc hn hm
    unfold Completes innerStatement
    refine .nested (.refl hc) fun _ => ?_
    rw [statementAt_eq, statementAt_eq]
    exact completes_statement ih (.start hc hn hm)

lemma completes_statementAt (h : Amid n m c [] c) :
    Completes (statementAt n room) (statementAt m room) c := by
  rw [statementAt_eq, statementAt_eq]
  exact completes_statement innerCompletes_innerStatement h

lemma tried_programRound {body : List Stmt} (h : Amid n m c [] c) :
    Steady c (programRound n body) (programRound m body) c (Tried n m c) := by
  refine .cursor ?_
  split
  · exact .pure (.none h)
  · refine .bind (completes_statementAt h) fun s c' hs => ?_
    have hnext := h.cross hs.onward hs.crosses
    exact (hnext.skipAll (by decide)).bind hnext fun _ _ h => .pure (.some h)

lemma proceeds_programAt (h : Amid n m c [] c) : Proceeds (programAt n) (programAt m) c := by
  rw [programAt_eq, programAt_eq]
  exact (h.skipAll (by decide)).bind h fun _ _ h => .bind (h.loop fun _ _ h => tried_programRound h)
    fun _ _ h => .pure h.onward

lemma run_program : program.run c = (programAt (c.remaining + 1)).run c := by
  rw [run, run]
  rfl

lemma run_expression : expression.run c = (expressionAt (c.remaining + 1) maxNesting).run c := by
  rw [run, run]
  rfl

end Grammar

end Colloquy
