import Colloquy.Proofs.Grammar.Attribution
import Colloquy.Proofs.Grammar.Completion
import Colloquy.Proofs.Token.Order

/-!
# The shape of programs

A program that can be read has declarations at its top only and no empty body; its timers have a
positive interval, a call alone is a statement, and lines go down and are those of tokens. This
rests on where ends of lines and marks of blocks stand in a row (`Orderly`).
-/

namespace Colloquy

open List Stmt Cursor

/-- The bodies right inside a statement. -/
def Stmt.bodies : Stmt → List (List Stmt)
  | .event _ _ body _ | .function _ _ body _ | .whileLoop _ body _ | .forEach _ _ body _ => [body]
  | .ifElse _ thenBody elseBody _ => thenBody :: elseBody.toList
  | _ => []

/-- Each statement stands further down than those before it. -/
def Descends (body : List Stmt) : Prop := body.Pairwise fun s s' => s.line < s'.line

/-- Statements that can be the body of another one. -/
structure IsBody (body : List Stmt) : Prop where
  nonempty : body ≠ []
  undeclared : ∀ s ∈ body, s.isDeclaration = false
  descends : Descends body

/-- A statement is well formed, apart from those inside it. -/
structure Stmt.Formed (s : Stmt) : Prop where
  bodies : ∀ body ∈ s.bodies, IsBody body
  timer : ∀ name timer body line, s = .event name (some timer) body line → 0 < timer.interval
  value : ∀ e line, s = .expression e line → ∀ function args line', e ≠ .call function args line'

/-- A program is well formed, and its lines are those of tokens. -/
structure Program.WellFormed (p : Program) (tokens : List Token) : Prop where
  formed : ∀ s, Occurs p.body (.stmt s) → s.Formed
  descends : Descends p.body
  lines : ∀ n, Occurs p.body n → ∃ t ∈ tokens, t.line = n.line

section Trees

variable {s : Stmt} {body : List Stmt} {n : Node}

/-- A statement is well formed with all those inside it. -/
inductive Stmt.Whole : Stmt → Prop where
  | mk {s : Stmt} :
    s.Formed →
    (∀ body ∈ s.bodies, ∀ inner ∈ body, Whole inner) →
    Whole s

lemma Stmt.Whole.formed (h : s.Whole) : s.Formed := by
  cases h with
  | mk hformed _ => exact hformed

lemma Node.stmt_notMem_parts {e : Expr} : Node.stmt s ∉ (Node.expr e).parts := by
  intro h
  cases e <;> simp [Node.parts] at h

lemma Node.mem_bodies {outer : Stmt} (h : Node.stmt s ∈ (Node.stmt outer).parts) :
    ∃ body ∈ outer.bodies, s ∈ body := by
  cases outer with
  | ifElse condition thenBody elseBody line =>
    cases elseBody <;> simpa [Node.parts, Stmt.bodies] using h
  | event | function | whileLoop | forEach => simpa [Node.parts, Stmt.bodies] using h
  | _ => simp [Node.parts] at h

/-- Whatever stands in whole statements is whole. -/
lemma Occurs.whole (hb : ∀ s ∈ body, s.Whole) (h : Occurs body n) : ∀ s, n = .stmt s → s.Whole := by
  induction h with
  | top hs =>
    rintro _ ⟨⟩
    exact hb _ hs
  | @part outer _ _ hm ih =>
    rintro s rfl
    cases outer with
    | expr e => exact absurd hm Node.stmt_notMem_parts
    | stmt outer =>
      obtain ⟨body, hbody, hs⟩ := Node.mem_bodies hm
      cases ih outer rfl with
      | mk _ hinner => exact hinner body hbody s hs

/-- Whole statements that can be the body of another one. -/
def WholeBody (body : List Stmt) : Prop := IsBody body ∧ ∀ s ∈ body, s.Whole

lemma WholeBody.singleton (h : s.Whole) (htop : s.isDeclaration = false) : WholeBody [s] :=
  ⟨⟨cons_ne_nil _ _, forall_mem_singleton.mpr htop, pairwise_singleton _ _⟩,
    forall_mem_singleton.mpr h⟩

lemma Stmt.whole_of_bodies (h : ∀ body ∈ s.bodies, WholeBody body)
    (htimer : ∀ name timer body line, s = .event name (some timer) body line → 0 < timer.interval)
    (hvalue : ∀ e line, s ≠ .expression e line) : s.Whole :=
  .mk ⟨fun body hb => (h body hb).1, htimer, fun e line he => absurd he (hvalue e line)⟩
    fun body hb => (h body hb).2

/-- Whether a statement takes a line only, and is well formed. -/
def Stmt.isLine : Stmt → Bool
  | .assign .. | .increase .. | .decrease .. | .delete .. | .call .. | .print .. | .giveBack .. =>
    true
  | .expression (.call ..) _ => false
  | .expression .. => true
  | _ => false

lemma Stmt.whole_of_isLine (h : s.isLine = true) : s.Whole ∧ s.isDeclaration = false := by
  cases s with
  | event | function | ifElse | whileLoop | forEach => cases h
  | expression e line =>
    refine ⟨.mk ⟨nofun, nofun, ?_⟩ nofun, rfl⟩
    rintro _ _ ⟨⟩ function args line' rfl
    cases h
  | _ => exact ⟨.mk ⟨nofun, nofun, nofun⟩ nofun, rfl⟩

end Trees

namespace Cursor

variable {o c : Cursor} {line : Nat}

lemma Onward.mem_row {t : Token} (h : o.Onward c) (ht : t ∈ c.row) : t ∈ o.row := by
  obtain ⟨passed, hrow, _⟩ := h.path
  rw [hrow]
  exact mem_append_right _ ht

lemma Onward.orderly (h : o.Onward c) (horder : Orderly o.row) : Orderly c.row := by
  obtain ⟨passed, hrow, _⟩ := h.path
  rw [hrow] at horder
  exact horder.suffix

lemma Crosses.exists_mem (h : o.Crosses c line) : ∃ t ∈ o.row, t.line = line := by
  obtain ⟨passed, ⟨hrow, _⟩, t, ht, hline⟩ := h
  rw [hrow]
  exact ⟨t, mem_append_left _ ht, hline⟩

/-- Behind the end of a line all tokens are further down. -/
lemma Leaves.lt (h : o.Leaves c line) (horder : Orderly o.row) : ∀ t ∈ c.row, line < t.line := by
  obtain ⟨before, after, ⟨hrow, _⟩, ⟨u, hu, rfl⟩, v, hv, hnewline⟩ := h
  intro t ht
  have hlines := horder.lines
  rw [hrow] at hlines
  obtain ⟨hpassed, _, hbeyond⟩ := pairwise_append.mp hlines
  have huv := (pairwise_append.mp hpassed).2.2 u hu v hv
  have hvt := hbeyond v (mem_append_right _ hv) t ht
  exact Nat.lt_of_le_of_lt huv.1 (hvt.2 hnewline)

end Cursor

namespace Grammar

open Production

variable {n room : Nat} {inner : InnerStatement} {c c' : Cursor} {s : Stmt} {body : List Stmt}

/-- A place in the tokens of a text, with fewer left than rounds. -/
structure Site (n : Nat) (c : Cursor) : Prop where
  closed : c.Closed
  left : c.remaining < n
  orderly : Orderly c.row

section Sites

variable {β : Type} {post : β → Cursor → Prop}

lemma Site.amid (h : Site n c) : Amid n n c [] c := .start h.closed h.left h.left

lemma Site.after (h : Site n c) (h' : c.Onward c') : Site n c' :=
  ⟨h'.closed, Nat.lt_of_le_of_lt h'.remaining_le h.left, h'.orderly h.orderly⟩

lemma Site.next (h : Site n c) : Site n c.next := h.after h.closed.onward_next

lemma Site.bind {α : Type} {p : Production α} {f : α → Production β} (h : Site n c)
    (hp : Proceeds p p c) (hf : ∀ a c', Site n c' → c'.depth = c.depth → Ensures (f a) c' post) :
    Ensures (p >>= f) c post :=
  .bind hp.ok fun a c' hc' => hf a c' (h.after hc') hc'.depth

lemma Site.value {f : Expr → Production β} (h : Site n c)
    (hf : ∀ e c', Site n c' → Ensures (f e) c' post) : Ensures (value n room >>= f) c post :=
  .bind (advances_value h.amid).ok fun e c' hc' => hf e c' (h.after hc'.1)

lemma Site.isPlain_next (h : Site n c) (hk : c.here.kind = .indent) :
    c.next.here.kind.isPlain = true := by
  have hne : c.here.kind ≠ .eof := by
    rw [hk]
    rintro ⟨⟩
  obtain ⟨hrow, _⟩ := h.closed.between_next hne
  have hblocks := h.orderly.blocks
  rw [hrow] at hblocks
  exact (isChain_cons.mp hblocks).1 c.next.here rfl hk

end Sites

/-- Statements have been read up to here, at one depth. Another one stands below them. -/
structure Gathered (n depth : Nat) (body : List Stmt) (c : Cursor) : Prop where
  site : Site n c
  depth : c.depth = depth
  whole : ∀ s ∈ body, s.Whole
  descends : Descends body
  below : c.Halted ∨ ∀ s ∈ body, ∀ t ∈ c.row, s.line < t.line

section Rows

variable {depth : Nat}

lemma Gathered.nil (h : Site n c) (hdepth : c.depth = depth) : Gathered n depth [] c :=
  ⟨h, hdepth, nofun, .nil, .inr nofun⟩

lemma Gathered.skip (h : Gathered n depth body c) : Gathered n depth body (c.pass [.newline]) := by
  have honward := h.site.closed.onward_pass (by decide : TokenKind.eof ∉ [TokenKind.newline])
  refine ⟨h.site.after honward, honward.depth.trans h.depth, h.whole, h.descends, ?_⟩
  rcases h.below with hhalted | hbelow
  · have hstays : c.pass [.newline] = c := by
      apply pass_of_not_contains
      rcases hhalted with hk | hk <;> rw [hk] <;> rfl
    rw [hstays]
    exact .inl hhalted
  · exact .inr fun s hs t ht => hbelow s hs t (honward.mem_row ht)

lemma Gathered.skipNewlines {β : Type} {f : Unit → Production β} {post : β → Cursor → Prop}
    (h : Gathered n depth body c) (hf : Ensures (f ()) (c.pass [.newline]) post) :
    Ensures (skipNewlines n >>= f) c post := by
  intro b c' hr
  rw [run_bind, Grammar.skipNewlines, run_skipAll (by decide) h.site.left] at hr
  exact hf b c' hr

/-- One more statement goes below the others. -/
lemma Gathered.concat (h : Gathered n depth body c) (hgo : ¬ c.Halted) (hs : c.Concludes c' s.line)
    (hwhole : s.Whole) :
    Gathered n depth (body ++ [s]) c' := by
  have hbelow := h.below.resolve_left hgo
  refine ⟨h.site.after hs.onward, hs.onward.depth.trans h.depth,
    ?_, ?_, hs.rests.imp_right fun hleaves => ?_⟩
  · exact forall_mem_append.mpr ⟨h.whole, forall_mem_singleton.mpr hwhole⟩
  · refine pairwise_append.mpr ⟨h.descends, pairwise_singleton _ _, fun s' hs' s'' hs'' => ?_⟩
    obtain ⟨t, ht, hline⟩ := hs.crosses.exists_mem
    rw [mem_singleton.mp hs'', ← hline]
    exact hbelow s' hs' t ht
  · refine forall_mem_append.mpr ⟨fun s' hs' t ht => ?_, forall_mem_singleton.mpr ?_⟩
    · exact hbelow s' hs' t (hs.onward.mem_row ht)
    · exact hleaves.lt h.site.orderly

end Rows

/-- A whole statement is read here, a declaration only where no block is open. -/
structure Stated (c : Cursor) (s : Stmt) : Prop where
  whole : s.Whole
  top : s.isDeclaration = true → c.depth = 0

/-- The statements inside another one are well formed. -/
def InnerStated (n : Nat) (inner : InnerStatement) : Prop :=
  ∀ c, Site n c → Ensures inner c fun s _ => Stated c s

section Blocks

/-- A declaration is read at the top only. -/
lemma ensures_requireTop {β : Type} {f : Unit → Production β}
    {post : β → Cursor → Prop} {keyword : Token} (h : c.depth = 0 → Ensures (f ()) c post) :
    Ensures (requireTop keyword >>= f) c post := by
  have htop : Ensures (requireTop keyword) c fun _ c' => c' = c ∧ c.depth = 0 := by
    refine .cursor ?_
    split
    · exact .invalid
    · rename_i hdepth
      exact .pure ⟨rfl, Nat.eq_zero_of_not_pos hdepth⟩
  refine .bind htop fun _ c' hc' => ?_
  rw [hc'.1]
  exact h hc'.2

/-- Schedules with other intervals are refused. -/
lemma positive_schedule (h : Site n c) : Ensures schedule c fun timer _ => 0 < timer.interval := by
  refine .cursor ?_
  dsimp only
  split
  · rename_i interval hk
    refine .take ?_
    split
    · exact .invalid
    · rename_i hpositive
      have hinterval : 0 < interval :=
        (h.orderly.signs c.here mem_cons_self interval hk).resolve_left hpositive
      refine .cursor (.name fun word _ => ?_)
      split
      · exact .pure hinterval
      · exact .invalid
  · exact .expected

/-- A chain of conditions is whole if its bodies are. -/
lemma whole_chain {first : Guarded} {others : List Guarded} {last : Option (List Stmt)}
    (hfirst : WholeBody first.body) (hothers : ∀ g ∈ others, WholeBody g.body)
    (hlast : ∀ body ∈ last.toList, WholeBody body) :
    (chain first others last).Whole := by
  have hlink {g : Guarded} {rest : Option (List Stmt)} (hg : WholeBody g.body)
      (hrest : ∀ body ∈ rest.toList, WholeBody body) :
      (Stmt.ifElse g.condition g.body rest g.line).Whole :=
    whole_of_bodies (forall_mem_cons.mpr ⟨hg, hrest⟩) nofun nofun
  apply hlink hfirst
  clear hfirst
  induction others with
  | nil => exact hlast
  | cons g others ih =>
    obtain ⟨hg, hothers⟩ := forall_mem_cons.mp hothers
    exact forall_mem_singleton.mpr (.singleton (hlink hg (ih hothers)) rfl)

lemma not_newline_of_isPlain {kind : TokenKind} (h : kind.isPlain = true) :
    [TokenKind.newline].contains kind = false := by
  cases kind with
  | newline => cases h
  | _ => rfl

variable (hcompletes : InnerCompletes n n inner inner) (hinner : InnerStated n inner)

include hcompletes hinner

/-- A block is not empty: a token of a line follows its indentation. -/
lemma wholeBody_block (h : Site n c) : Ensures (block n inner) c fun body _ => WholeBody body := by
  rw [block_eq]
  refine .require fun _ => .require fun _ => ?_
  refine h.next.next.bind (h.next.next.amid.skipAll (by decide)) fun _ c1 h1 _ =>
    .require fun hindent => .setDepth ?_
  -- the body is not empty, or the token is still to come that it begins with
  refine .bind (Ensures.iterate (I := fun body c' => Gathered n (c1.next.depth + 1) body c' ∧
    (∀ s ∈ body, s.isDeclaration = false) ∧ (c'.here.kind.isPlain = true ∨ body ≠ [])) ?_
      fun body c' hbody => ?_)
    fun body c' hbody => .setDepth (.require fun hdedent => .pure ?_)
  · exact ⟨.nil ⟨h1.next.closed, h1.next.left, h1.next.orderly⟩ rfl,
      nofun, .inl (h1.isPlain_next hindent)⟩
  · obtain ⟨hgathered, hundeclared, hbegun⟩ := hbody
    refine hgathered.skipNewlines (.cursor ?_)
    have hskip := hgathered.skip
    split
    · refine .pure ⟨hskip, hundeclared, hbegun.imp_left fun hplain => ?_⟩
      rw [pass_of_not_contains (not_newline_of_isPlain hplain)]
      exact hplain
    · rename_i hgo
      have hsite := hskip.site
      have hstatement : Ensures inner (c'.pass [.newline]) fun s c'' =>
          (c'.pass [.newline]).Concludes c'' s.line ∧ Stated (c'.pass [.newline]) s :=
        fun s c'' hr =>
        ⟨(hcompletes _ hsite.closed hsite.left hsite.left).ok s c'' hr, hinner _ hsite s c'' hr⟩
      refine .bind hstatement fun s c'' hs => .pure ⟨?_, ?_, .inr (concat_ne_nil _ _)⟩
      · exact hskip.concat (fun hhalted =>
          hgo (Bool.or_eq_true_iff.mpr (hhalted.imp decide_eq_true decide_eq_true))) hs.1 hs.2.whole
      · refine forall_mem_append.mpr ⟨hundeclared,
          forall_mem_singleton.mpr (eq_false_of_ne_true fun htop => ?_)⟩
        cases hskip.depth.symm.trans (hs.2.top htop)
  · obtain ⟨hgathered, hundeclared, hbegun⟩ := hbody
    have hne : body ≠ [] := by
      refine hbegun.resolve_left fun hplain => ?_
      have hk : c'.here.kind = .dedent := hdedent
      rw [hk] at hplain
      cases hplain
    exact ⟨⟨hne, hundeclared, hgathered.descends⟩, hgathered.whole⟩

lemma stated_eventDeclaration (h : Site n c) :
    Ensures (eventDeclaration n inner) c fun s _ => Stated c s := by
  refine .take (ensures_requireTop fun htop =>
    h.next.bind h.next.amid.proceeds fun name c1 h1 _ => ?_)
  refine .bind (wholeBody_block hcompletes hinner h1) fun body _ hbody =>
    .pure ⟨?_, fun _ => depth_next.symm.trans htop⟩
  exact whole_of_bodies (forall_mem_singleton.mpr hbody) nofun nofun

lemma stated_timerDeclaration (h : Site n c) :
    Ensures (timerDeclaration n inner) c fun s _ => Stated c s := by
  refine .take (ensures_requireTop fun htop => ?_)
  have hschedule : Ensures schedule c.next fun timer c' => c.next.Onward c' ∧ 0 < timer.interval :=
    fun timer c' hr => ⟨h.next.amid.proceeds.ok timer c' hr, positive_schedule h.next timer c' hr⟩
  refine .bind hschedule fun timer c1 hc1 => ?_
  refine .bind (wholeBody_block hcompletes hinner (h.next.after hc1.1)) fun body _ hbody =>
    .pure ⟨?_, fun _ => depth_next.symm.trans htop⟩
  refine whole_of_bodies (forall_mem_singleton.mpr hbody) ?_ nofun
  rintro _ _ _ _ ⟨⟩
  exact hc1.2

lemma stated_functionDeclaration (h : Site n c) :
    Ensures (functionDeclaration n inner) c fun s _ => Stated c s := by
  refine .take (ensures_requireTop fun htop => .name fun _ _ => ?_)
  refine h.next.next.bind h.next.next.amid.proceeds fun params c1 h1 _ => ?_
  refine .bind (wholeBody_block hcompletes hinner h1) fun body _ hbody =>
    .pure ⟨?_, fun _ => depth_next.symm.trans htop⟩
  exact whole_of_bodies (forall_mem_singleton.mpr hbody) nofun nofun

lemma wholeBody_guarded (h : Site n c) :
    Ensures (guarded n room inner) c fun g c' => Site n c' ∧ WholeBody g.body := by
  have hbody : Ensures (guarded n room inner) c fun g _ => WholeBody g.body :=
    .take (h.next.value fun _ _ h1 =>
    .bind (wholeBody_block hcompletes hinner h1) fun _ _ hbody => .pure hbody)
  exact fun g c' hr => ⟨h.after ((steady_guarded hcompletes h.amid).ok g c' hr).1, hbody g c' hr⟩

/-- Conditions are well formed. -/
lemma stated_conditional (h : Site n c) :
    Ensures (conditional n room inner) c fun s _ => Stated c s := by
  refine .bind (wholeBody_guarded hcompletes hinner h) fun first c1 ⟨h1, hfirst⟩ => ?_
  refine .bind (Ensures.iterate (I := fun others c' => Site n c' ∧
    ∀ g ∈ others, WholeBody g.body) ⟨h1, nofun⟩ ?_)
    fun others c2 ⟨h2, hothers⟩ => ?_
  · rintro others c' ⟨hc', hothers⟩
    refine .cursor ?_
    split
    · refine .take (.bind (wholeBody_guarded hcompletes hinner hc'.next) fun g c'' ⟨hc'', hg⟩ =>
        .pure ⟨hc'', ?_⟩)
      exact forall_mem_append.mpr ⟨hothers, forall_mem_singleton.mpr hg⟩
    · exact .pure ⟨hc', hothers⟩
  · refine .accept (fun _ => ?_) fun _ => .pure ⟨whole_chain hfirst hothers nofun, nofun⟩
    refine .bind (wholeBody_block hcompletes hinner h2.next) fun body _ hbody =>
      .pure ⟨whole_chain hfirst hothers ?_, nofun⟩
    exact forall_mem_singleton.mpr hbody

lemma stated_governed {c1 : Cursor} {build : Expr → List Stmt → Stmt}
    (hbuild : ∀ e body, WholeBody body → Stated c (build e body)) (h : Site n c1) :
    Ensures (governed n room inner build) c1 fun s _ => Stated c s :=
  h.value fun e _ h1 => .bind (wholeBody_block hcompletes hinner h1) fun body _ hbody =>
  .pure (hbuild e body hbody)

lemma stated_looping (h : Site n c) : Ensures (looping n room inner) c fun s _ => Stated c s := by
  have hbuild (e : Expr) (body : List Stmt) (hbody : WholeBody body) :
      Stated c (.whileLoop e body c.here.line) :=
    ⟨whole_of_bodies (forall_mem_singleton.mpr hbody) nofun nofun, nofun⟩
  refine .take ?_
  split
  · refine .accept (fun _ => ?_) fun _ => ?_
    · exact stated_governed hcompletes hinner hbuild h.next.next
    · exact stated_governed hcompletes hinner hbuild h.next
  · exact stated_governed hcompletes hinner hbuild h.next

lemma stated_iterating (h : Site n c) :
    Ensures (iterating n room inner) c fun s _ => Stated c s := by
  have hbuild {item : String} (e : Expr) (body : List Stmt) (hbody : WholeBody body) :
      Stated c (.forEach item e body c.here.line) :=
    ⟨whole_of_bodies (forall_mem_singleton.mpr hbody) nofun nofun, nofun⟩
  refine .take (h.next.bind h.next.amid.proceeds fun _ c1 h1 _ =>
    .name fun _ _ => .require fun _ => ?_)
  refine h1.next.next.bind h1.next.next.amid.proceeds fun _ c2 h2 _ => .cursor ?_
  split
  · exact .take (.take (stated_governed hcompletes hinner hbuild h2.next.next))
  · exact stated_governed hcompletes hinner hbuild h2

end Blocks

lemma isLine_assignment : Ensures (assignment n room) c fun s _ => s.isLine = true := by
  refine .take (.skip fun _ _ => .skip fun _ _ => ?_)
  split <;> exact .skip fun _ _ => .skip fun _ _ => .skip fun _ _ => .pure rfl

lemma isLine_accumulation : Ensures (accumulation n room) c fun s _ => s.isLine = true := by
  refine .take (.skip fun amount _ => ?_)
  dsimp only
  split <;> exact .skip fun _ _ => .skip fun _ _ => .skip fun _ _ => .skip fun _ _ => .pure rfl

lemma isLine_adjustment : Ensures (adjustment n room) c fun s _ => s.isLine = true := by
  refine .take (.skip fun r _ => .pure ?_)
  split <;> rfl

lemma isLine_scaling : Ensures (scaling n room) c fun s _ => s.isLine = true :=
  .take (.skip fun _ _ => .pure rfl)

lemma isLine_deletion : Ensures deletion c fun s _ => s.isLine = true :=
  .take (.skip fun _ _ => .skip fun _ _ => .skip fun _ _ => .pure rfl)

lemma isLine_printing : Ensures (printing n room) c fun s _ => s.isLine = true :=
  .take (.skip fun _ _ => .skip fun _ _ => .pure rfl)

lemma isLine_returning : Ensures (returning n room) c fun s _ => s.isLine = true := by
  refine .take (.skip fun _ _ => .cursor ?_)
  split
  · exact .skip fun _ _ => .skip fun _ _ => .pure rfl
  · exact .skip fun _ _ => .skip fun _ _ => .skip fun _ _ => .pure rfl

lemma isLine_asking : Ensures (asking n room) c fun s _ => s.isLine = true :=
  .take (.skip fun _ _ => .skip fun _ _ => .skip fun _ _ => .skip fun _ _ => .skip
    fun _ _ => .skip fun _ _ => .skip fun _ _ => .skip fun _ _ => .skip fun _ _ => .pure rfl)

lemma isLine_storing : Ensures (storing n room) c fun s _ => s.isLine = true :=
  .take (.skip fun _ _ => .skip fun _ _ => .skip fun _ _ => .skip fun _ _ => .skip
    fun _ _ => .pure rfl)

lemma isLine_termination : Ensures termination c fun s _ => s.isLine = true :=
  .take (.skip fun _ _ => .skip fun _ _ => .pure rfl)

lemma isLine_expressionStatement :
    Ensures (expressionStatement n room) c fun s _ => s.isLine = true := by
  refine .skip fun e _ => .skip fun _ _ => .pure ?_
  cases e <;> rfl

lemma stated_of_isLine {p : Production Stmt} (h : Ensures p c fun s _ => s.isLine = true) :
    Ensures p c fun s _ => Stated c s := by
  refine h.mono fun s _ hs => ?_
  obtain ⟨hwhole, htop⟩ := whole_of_isLine hs
  refine ⟨hwhole, fun hd => ?_⟩
  cases htop.symm.trans hd

/-- So is every statement whose inner statements are. -/
lemma stated_statement (hcompletes : InnerCompletes n n inner inner)
    (hinner : InnerStated n inner) (h : Site n c) :
    Ensures (statement n room inner) c fun s _ => Stated c s := by
  refine .cursor ?_
  split
  · exact stated_eventDeclaration hcompletes hinner h
  · exact stated_timerDeclaration hcompletes hinner h
  · exact stated_functionDeclaration hcompletes hinner h
  · exact stated_of_isLine isLine_assignment
  · exact stated_of_isLine isLine_assignment
  · exact stated_of_isLine isLine_assignment
  · exact stated_of_isLine isLine_accumulation
  · exact stated_of_isLine isLine_accumulation
  · exact stated_of_isLine isLine_adjustment
  · exact stated_of_isLine isLine_adjustment
  · exact stated_of_isLine isLine_scaling
  · exact stated_of_isLine isLine_scaling
  · exact stated_of_isLine isLine_deletion
  · exact stated_conditional hcompletes hinner h
  · exact stated_looping hcompletes hinner h
  · exact stated_looping hcompletes hinner h
  · exact stated_iterating hcompletes hinner h
  · exact stated_of_isLine isLine_printing
  · exact stated_of_isLine isLine_printing
  · exact stated_of_isLine isLine_returning
  · exact stated_of_isLine isLine_asking
  · exact stated_of_isLine isLine_storing
  · exact stated_of_isLine isLine_termination
  · exact stated_of_isLine isLine_expressionStatement

/-- Inner statements are well formed. -/
lemma innerStated_innerStatement : InnerStated n (innerStatement n room) := by
  induction room with
  | zero =>
    intro c _
    unfold innerStatement
    exact .nested nofun
  | succ room ih =>
    intro c h
    unfold innerStatement
    refine .nested fun _ _ => ?_
    rw [statementAt_eq]
    exact stated_statement innerCompletes_innerStatement ih h

lemma stated_statementAt (h : Site n c) : Ensures (statementAt n room) c fun s _ => Stated c s := by
  rw [statementAt_eq]
  exact stated_statement innerCompletes_innerStatement innerStated_innerStatement h

/-- So is every program, by induction on its rounds. -/
lemma gathered_programAt (h : Site n c) :
    Ensures (programAt n) c fun p _ => Descends p.body ∧ ∀ s ∈ p.body, s.Whole := by
  rw [programAt_eq]
  have hstart : Gathered n c.depth [] c := .nil h rfl
  refine hstart.skipNewlines
    (.bind (Ensures.iterate (I := Gathered n c.depth) hstart.skip fun body c' hbody => ?_)
    fun body _ hbody => .pure ⟨hbody.descends, hbody.whole⟩)
  refine .cursor ?_
  split
  · exact .pure hbody
  · rename_i hgo
    have hsite := hbody.site
    have hstatement : Ensures (statementAt n maxNesting) c' fun s c'' =>
        ¬ c'.Halted ∧ c'.Concludes c'' s.line ∧ Stated c' s := by
      intro s c'' hr
      refine ⟨?_, (completes_statementAt hsite.amid).ok s c'' hr, stated_statementAt hsite s c'' hr⟩
      rintro (hk | hk)
      · have hrefused : c'.here.kind ∈ refused := by
          rw [hk]
          decide
        exact (statementAt_refuses hrefused).absurd hr
      · exact hgo (decide_eq_true hk)
    refine .bind hstatement fun s c'' hs => ?_
    have hnext := hbody.concat hs.1 hs.2.1 hs.2.2.whole
    exact hnext.skipNewlines (.pure hnext.skip)

end Grammar

section Programs

open Grammar Production

variable {source : String} {p : Program}

/-- The statements of a compiled program are whole and go down the text. -/
lemma whole_of_compile (h : compile source = .ok p) : Descends p.body ∧ ∀ s ∈ p.body, s.Whole := by
  obtain ⟨tokens, c, htokens, hrun⟩ := compile_iff.mp h
  have hcomplete := Scanner.complete_of_tokenize htokens
  have hrow := hcomplete.row_ofTokens
  obtain ⟨inner, last, hlast, _, heof, _⟩ := hcomplete
  have hsite : Site ((Cursor.ofTokens tokens).remaining + 1) (.ofTokens tokens) := by
    refine ⟨⟨inner, last, hrow.trans hlast, heof⟩, Nat.lt_succ_self _, ?_⟩
    rw [hrow]
    exact tokenize_orderly htokens
  rw [run_program] at hrun
  exact gathered_programAt hsite p c hrun

/-- Every program that can be read is well formed, with the lines of tokens of its text. -/
theorem compile_wellFormed (h : compile source = .ok p) :
    ∃ tokens, tokenize source = .ok tokens ∧ p.WellFormed tokens := by
  obtain ⟨hdescends, hwhole⟩ := whole_of_compile h
  obtain ⟨tokens, _, htokens, _⟩ := compile_iff.mp h
  refine ⟨tokens, htokens, fun s hs => (hs.whole hwhole s rfl).formed, hdescends, fun n hn => ?_⟩
  obtain ⟨tokens', htokens', hline⟩ := compile_line h hn
  cases htokens.symm.trans htokens'
  exact hline

/-- A timer, a record with a margin of its own, a chain of conditions and a call that stands
alone. -/
def tiered : String :=
  "every 2 seconds:\n  if a:\n    set x to \x7b\n      k: 1\n    \x7d\n    say x\n" ++
    "  else if b:\n    f(x)\n  x + 1\nsay 2\n"

/-- All of it is well formed. -/
theorem tiered_wellFormed : ∃ p tokens, compile tiered = .ok p ∧ p.body.map Stmt.line = [1, 10] ∧
    tokenize tiered = .ok tokens ∧ p.WellFormed tokens := by
  have hread : (compile tiered).toOption.map (fun p => p.body.map Stmt.line) = some [1, 10] := by
    decide +kernel
  obtain ⟨p, hp, hlines⟩ := exists_ok hread
  obtain ⟨tokens, htokens, hformed⟩ := compile_wellFormed hp
  exact ⟨p, tokens, hp, hlines, htokens, hformed⟩

end Programs

end Colloquy
