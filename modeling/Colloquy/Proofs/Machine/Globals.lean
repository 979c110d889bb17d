import Colloquy.Proofs.Machine.Blame
import Colloquy.Proofs.Machine.Run

/-!
# Which global variables are written

`Stmt.globalTargets` reads off which names some statements write or delete as global variables. What
a thread does to the global table, it does for a statement in hand (`Thread.deeds_global`), so all
other names keep what they stand for (`Thread.runFor_globals`).
-/

namespace Colloquy

open List

/-- A name as far as it is marked as that of a global variable. -/
def Scope.marked (target : String) : Scope → List String
  | .global => [target]
  | .plain => []

mutual

/-- The global variables that a statement, or one inside it, writes or deletes. -/
def Stmt.globalTargets : Stmt → List String
  | .assign target scope _ _ | .increase target scope _
    _ | .decrease target scope _ _ | .delete target scope _ =>
    scope.marked target
  | .event _ _ body _ | .function _ _ body _ | .whileLoop _ body _ | .forEach _ _ body _ =>
    Stmt.rowTargets body
  | .ifElse _ thenBody elseBody _ => Stmt.rowTargets thenBody ++ Stmt.branchTargets elseBody
  | _ => []

/-- The global variables that some statements write or delete. -/
def Stmt.rowTargets : List Stmt → List String
  | [] => []
  | s :: body => s.globalTargets ++ Stmt.rowTargets body

/-- Those that a branch, if there is one, writes or deletes. -/
def Stmt.branchTargets : Option (List Stmt) → List String
  | none => []
  | some body => Stmt.rowTargets body

end

/-- The global variables that a node writes or deletes. -/
def Node.globalTargets : Node → List String
  | .expr _ => []
  | .stmt s => s.globalTargets

namespace Deed

/-- The global variable that a deed writes or deletes. -/
def globalTargets : Deed → List String
  | .write name scope _ | .erase name scope => scope.marked name
  | _ => []

/-- Whether a deed empties both tables. -/
def isClear : Deed → Bool
  | .clear => true
  | _ => false

end Deed

section Targets

variable {name : String} {body : List Stmt} {n m : Node}

lemma Stmt.mem_rowTargets {s : Stmt} (hs : s ∈ body) (h : name ∈ s.globalTargets) :
    name ∈ Stmt.rowTargets body := by
  induction hs with
  | head => exact mem_append_left _ h
  | tail _ _ ih => exact mem_append_right _ ih

lemma Node.mem_rowTargets (hm : m ∈ body.map Node.stmt) (h : name ∈ m.globalTargets) :
    name ∈ Stmt.rowTargets body := by
  obtain ⟨s, hs, rfl⟩ := mem_map.1 hm
  exact Stmt.mem_rowTargets hs h

/-- The targets of the parts of a node are its own. -/
lemma Node.mem_globalTargets (hm : m ∈ n.parts) (h : name ∈ m.globalTargets) :
    name ∈ n.globalTargets := by
  cases m with
  | expr e => cases h
  | stmt s =>
    cases n with
    | expr e => cases e <;> simp [Node.parts] at hm
    | stmt t =>
      cases t with
      | event name timer body line | function name params body line => exact mem_rowTargets hm h
      | ifElse condition thenBody elseBody line =>
        rcases mem_append.1 hm with hm | hm
        · rcases mem_cons.1 hm with hm | hm
          · cases hm
          · exact mem_append_left _ (mem_rowTargets hm h)
        · cases elseBody with
          | none => cases hm
          | some body => exact mem_append_right _ (mem_rowTargets hm h)
      | whileLoop condition body line | forEach item iterable body line =>
        rcases mem_cons.1 hm with hm | hm
        · cases hm
        · exact mem_rowTargets hm h
      | giveBack value line => cases value <;> simp [Node.parts] at hm
      | _ => simp [Node.parts] at hm

lemma Occurs.mem_rowTargets (ho : Occurs body n) (h : name ∈ n.globalTargets) :
    name ∈ Stmt.rowTargets body := by
  induction ho with
  | top hs => exact Stmt.mem_rowTargets hs h
  | part _ hm ih => exact ih (Node.mem_globalTargets hm h)

end Targets

section Replaying

variable {name : String} {st : Store} {d : Deed} {ds : List Deed}

/-- A deed with other targets leaves a variable, or clears all. -/
lemma Deed.get?_replay (h : name ∉ d.globalTargets) :
    (d.replay st).globals.get? name = if d.isClear then none else st.globals.get? name := by
  cases d with
  | write target scope v =>
    cases scope with
    | plain => rfl
    | global => exact Table.get?_insert_of_ne _ _ (ne_of_not_mem_cons h)
  | erase target scope =>
    cases scope with
    | plain => rfl
    | global => exact Table.get?_erase_of_ne _ (ne_of_not_mem_cons h)
  | _ => rfl

lemma Deed.get?_foldl_replay (h : name ∉ ds.flatMap globalTargets) :
    (ds.foldl replay st).globals.get? name = if ds.any isClear then none
    else st.globals.get? name := by
  induction ds generalizing st with
  | nil => rfl
  | cons d ds ih =>
    rw [flatMap_cons, mem_append, not_or] at h
    rw [foldl_cons, ih h.2, get?_replay h.1, any_cons]
    cases d.isClear <;> cases ds.any isClear <;> rfl

lemma Deed.functions_foldl_replay : (ds.foldl replay st).functions = st.functions := by
  induction ds generalizing st with
  | nil => rfl
  | cons d ds ih =>
    rw [foldl_cons, ih]
    cases d with
    | write target scope v | erase target scope => cases scope <;> rfl
    | _ => rfl

end Replaying

/-- Deeds with no global targets but these. -/
structure Confined (targets : List String) (ds : List Deed) : Prop where
  kept : ds.any Deed.isClear = false
  within : ∀ name ∈ ds.flatMap Deed.globalTargets, name ∈ targets

section Confinement

variable {targets : List String} {ds : List Deed}

lemma Confined.none (hc : ds.any Deed.isClear = false) (ht : ds.flatMap Deed.globalTargets = []) :
    Confined targets ds := by
  refine ⟨hc, fun name hn => ?_⟩
  rw [ht] at hn
  cases hn

lemma Confined.target {d : Deed} (hc : d.isClear = false)
    (ht : ∀ name ∈ d.globalTargets, name ∈ targets) :
    Confined targets [d] := by
  refine ⟨?_, fun name hn => ht name ?_⟩
  · rw [any_cons, hc]
    rfl
  · rwa [flatMap_cons, flatMap_nil, append_nil] at hn

lemma Confined.cons {d : Deed} (h : Confined targets ds) (hc : d.isClear = false)
    (ht : d.globalTargets = []) :
    Confined targets (d :: ds) := by
  refine ⟨?_, ?_⟩
  · rw [any_cons, hc]
    exact h.kept
  · rw [flatMap_cons, ht]
    exact h.within

end Confinement

namespace Thread

section Deeds

variable {known : List Stmt → Prop} {own body : List Stmt} {targets : List String}
  {fs : List Frame} {s : State}

lemma invokeDeeds_global {name args} : Confined targets (invokeDeeds name args s) := by
  unfold invokeDeeds
  split
  · rename_i b _
    cases b <;> exact .none rfl rfl
  · split <;> exact .none rfl rfl

lemma argumentDeeds_global {function done rest} :
    Confined targets (argumentDeeds function done rest s) := by
  cases rest with
  | nil => exact invokeDeeds_global
  | cons e rest => exact .none rfl rfl

lemma evalDeeds_global {e : Expr} : Confined targets (evalDeeds e s) := by
  cases e with
  | call function args line => exact argumentDeeds_global
  | _ => exact .none rfl rfl

lemma startDeeds_global {stmt : Stmt} (ho : Occurs body (.stmt stmt)) :
    Confined (Stmt.rowTargets body) (startDeeds stmt s) := by
  cases stmt with
  | delete target scope line => exact .target rfl fun name hn => ho.mem_rowTargets hn
  | call function args line => exact argumentDeeds_global
  | _ => exact .none rfl rfl

lemma blockDeeds_global {row : List Stmt} (hr : OccurAll body row) :
    Confined (Stmt.rowTargets body) (blockDeeds row s) := by
  cases row with
  | nil => exact .none rfl rfl
  | cons stmt rest =>
    simp only [blockDeeds]
    split
    · exact .none rfl rfl
    · exact startDeeds_global (hr stmt mem_cons_self)

lemma itemsDeeds_global {item left} : Confined targets (itemsDeeds item left s) := by
  cases left with
  | nil => exact .none rfl rfl
  | cons v left =>
    simp only [itemsDeeds]
    split <;> exact .none rfl rfl

lemma adjustDeeds_global {how target scope amount}
    (ht : ∀ name ∈ Scope.marked target scope, name ∈ targets) :
    Confined targets (adjustDeeds how target scope amount s) := by
  unfold adjustDeeds
  split
  · refine .cons ?_ rfl rfl
    exact .target rfl ht
  · exact .none rfl rfl

/-- A value that is handed to a frame is written for a statement in hand. -/
lemma giveDeeds_global {v frame} (h : Under known own body (frame :: fs)) :
    Confined (Stmt.rowTargets body) (giveDeeds v frame s) := by
  cases h with
  | scope _ _ => exact .none rfl rfl
  | frame hw _ =>
    cases hw with
    | rest _ | mainLine _ => exact .none rfl rfl
    | serves ho hs =>
      cases hs with
      | argument _ _ => exact argumentDeeds_global
      | assign => exact .target rfl fun name hn => ho.mem_rowTargets hn
      | increase | decrease => exact adjustDeeds_global fun name hn => ho.mem_rowTargets hn
      | _ => exact .none rfl rfl

lemma leaveDeeds_global {saved detached} : Confined targets (leaveDeeds saved detached s) := by
  cases detached <;> exact .none rfl rfl

/-- A step has no targets but those of the statements in hand. -/
lemma deeds_global {t : Thread} (h : t.Stems known own body) :
    Confined (Stmt.rowTargets body) (t.deeds s) := by
  obtain ⟨control, frames⟩ := t
  obtain ⟨hc, hf⟩ := h
  cases hc with
  | eval _ => exact evalDeeds_global
  | block hr => exact blockDeeds_global hr
  | items _ => exact itemsDeeds_global
  | value =>
    cases frames with
    | nil => exact .none rfl rfl
    | cons frame frames => exact giveDeeds_global hf
  | @flow f =>
    cases frames with
    | nil => exact .none rfl rfl
    | cons frame frames =>
      cases frame with
      | scope saved depth detached => cases f <;> exact leaveDeeds_global
      | _ => cases f <;> exact .none rfl rfl
  | fault =>
    cases frames with
    | nil => exact .none rfl rfl
    | cons frame frames =>
      cases frame with
      | scope saved depth detached => exact leaveDeeds_global
      | _ => exact .none rfl rfl
  | _ => exact .none rfl rfl

end Deeds

section Runs

variable {known : List Stmt → Prop} {own body : List Stmt} {name : String} {s : State} {t : Thread}

lemma step_globals (h : t.Stems known own body) (hn : name ∉ Stmt.rowTargets body) :
    (t.step s).2.store.globals.get? name = s.store.globals.get? name := by
  have hd : Confined (Stmt.rowTargets body) (t.deeds s) := deeds_global h
  rw [step_accounts.store, Deed.get?_foldl_replay fun hm => hn (hd.within name hm), hd.kept]
  rfl

lemma step_functions : (t.step s).2.store.functions = s.store.functions := by
  rw [step_accounts.store, Deed.functions_foldl_replay]

lemma Knows.step (hk : Knows known s) : Knows known (t.step s).2 := by
  unfold Knows
  rw [step_functions]
  exact hk

/-- No statement of a thread or of its functions targets a variable. -/
structure Spares (name : String) (known : List Stmt → Prop) (own : List Stmt) : Prop where
  own : name ∉ Stmt.rowTargets own
  known : ∀ body, known body → name ∉ Stmt.rowTargets body

lemma Spares.in_hand (h : Spares name known own) (ht : t.Stems known own body) :
    name ∉ Stmt.rowTargets body := by
  rcases ht.frames.origin with rfl | hk
  · exact h.own
  · exact h.known body hk

/-- A run leaves the variable that it spares. -/
lemma runFor_globals {n : Nat} (hsp : Spares name known own) (hk : Knows known s)
    (h : t.Stems known own body) :
    (runFor n (t, s)).2.store.globals.get? name = s.store.globals.get? name := by
  induction n generalizing t s body with
  | zero => rfl
  | succ n ih =>
    obtain ⟨body', h'⟩ := exists_stems hk h
    have hrest :
        (runFor n (t.step s)).2.store.globals.get? name = (t.step s).2.store.globals.get? name :=
      ih hk.step h'
    rw [runFor, hrest]
    exact step_globals h (hsp.in_hand h)

end Runs

end Thread

end Colloquy
