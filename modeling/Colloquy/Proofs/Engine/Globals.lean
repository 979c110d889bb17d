import Colloquy.Proofs.Machine.Globals
import Colloquy.Proofs.Engine.Faults

/-!
# The frame of the global table

A block changes the global table only at names that it or a declared function marks as global,
whatever others do meanwhile (`Within.globals`). In a run only names that a program marks ever get
there (`run_globals`).
-/

namespace Colloquy

open List Thread

/-- The global variables that statements and the functions of a state write or delete. -/
def State.globalTargets (s : State) (body : List Stmt) : List String :=
  Stmt.rowTargets body ++ s.store.functions.flatMap fun entry => Stmt.rowTargets entry.2.body

/-- The functions that a state declares. -/
def State.Registers (s : State) (body : List Stmt) : Prop :=
  ∃ name f, s.store.functions.get? name = some f ∧ f.body = body

section Tables

variable {α : Type} {table : Table α} {name : String} {entry : α}

lemma Table.mem_of_get? (h : table.get? name = some entry) : (name, entry) ∈ table := by
  induction table with
  | nil => cases h
  | cons first rest ih =>
    obtain ⟨key, found⟩ := first
    unfold Table.get? at h
    split at h
    · rename_i hkey
      cases h
      exact hkey ▸ mem_cons_self
    · exact mem_cons_of_mem _ (ih h)

lemma Table.eq_nil_of_get? (h : ∀ name, table.get? name = none) : table = [] := by
  cases table with
  | nil => rfl
  | cons first rest =>
    have hfirst := h first.1
    simp [Table.get?] at hfirst

end Tables

section Targets

variable {s : State} {body : List Stmt} {name : String}

lemma State.spares (h : name ∉ s.globalTargets body) : Spares name s.Registers body := by
  rw [State.globalTargets, mem_append, not_or] at h
  refine ⟨h.1, ?_⟩
  rintro _ ⟨function, f, hf, rfl⟩ hm
  exact h.2 (mem_flatMap.2 ⟨_, Table.mem_of_get? hf, hm⟩)

lemma State.knows_registers : Knows s.Registers s := fun function f hf => ⟨function, f, hf, rfl⟩

lemma Program.Contains.mem_rowTargets {p : Program} (h : p.Contains body)
    (hm : name ∈ Stmt.rowTargets body) :
    name ∈ Stmt.rowTargets p.body := by
  cases h with
  | whole => exact hm
  | event hs | function hs => exact Stmt.mem_rowTargets hs hm

end Targets

namespace Engine

section Gate

variable {e d : Engine} {id : TaskId} {t : Thread} {fs : List Frame} {known : List Stmt → Prop}
  {own body : List Stmt} {name : String}

/-- A block leaves the variables that it spares. -/
lemma Within.globals (hr : e.Reachable) (ht : e.thread? id = some (t.onto fs))
    (hst : t.Stems known own body) (hk : Knows known e.state)
    (hsp : Thread.Spares name known own) (h : Within id fs.length e d) :
    d.state.store.globals.get? name = e.state.store.globals.get? name := by
  -- the statements in hand are followed through the steps, together with the functions that are
  -- known
  have hall :
    (∃ (t : Thread) (body : List Stmt), d.thread? id = some (t.onto fs) ∧ t.Stems known own body) ∧
      Knows known d.state ∧ d.state.store.globals.get? name = e.state.store.globals.get? name := by
    induction h with
    | refl => exact ⟨⟨t, body, ht, hst⟩, hk, rfl⟩
    | @act d a hw hn ih =>
      obtain ⟨⟨t, body, ht, hst⟩, hk, hget⟩ := ih
      obtain ⟨_, ⟨hthread, hs⟩ | ⟨hthread, hs⟩⟩ := perform_onto (hw.reachable hr) ht hn a
      · unfold Knows
        rw [hs.store]
        exact ⟨⟨t, body, hthread, hst⟩, hk, hget⟩
      · rw [hs]
        obtain ⟨body', hst'⟩ := exists_stems hk hst
        exact ⟨⟨_, body', hthread, hst'⟩, hk.step, (step_globals hst (hsp.in_hand hst)).trans hget⟩
  exact hall.2.2

end Gate

section Programs

variable {texts : String → Prop} {e : Engine} {name : String} {q : Sequence}

/-- No program of these source texts writes a global variable. -/
def Unwritten (texts : String → Prop) (name : String) : Prop :=
  ∀ text p, texts text → compile text = .ok p → name ∉ Stmt.rowTargets p.body

lemma Unwritten.compiled {body : List Stmt} (h : Unwritten texts name) (hc : Compiled texts body) :
    name ∉ Stmt.rowTargets body := by
  obtain ⟨text, p, ht, hp, hb⟩ := hc
  exact fun hm => h text p ht hp (hb.mem_rowTargets hm)

/-- No sequence targets what no program writes. -/
lemma Sourced.spares (h : Sourced texts e) (hu : Unwritten texts name) (hq : e.Conducts q) :
    Thread.Spares name (q.body.Callable texts) q.body.stmts := by
  obtain ⟨w, answerDue, ht, hb⟩ := hq.inv
  have hw : w.Sourced texts := h.work _ (mem_of_getElem? ht)
  refine ⟨hu.compiled (hw.compiled hb), ?_⟩
  intro body hc
  cases hqb : q.body with
  | block stmts =>
    rw [hqb] at hc
    exact hu.compiled hc
  | main p =>
    rw [hqb] at hc hb
    obtain ⟨function, params, line, hm⟩ := hc
    cases w with
    | program p' =>
      cases hb
      obtain ⟨text, htext, hp⟩ := hw
      exact hu.compiled ⟨text, p, htext, hp, .function hm⟩
    | _ => cases hb

lemma deeds_globalTargets {body : Body} : body.deeds.flatMap Deed.globalTargets = [] := by
  rw [flatMap_eq_nil_iff]
  intro d hd
  rcases Body.mem_deeds hd with rfl | ⟨u, rfl⟩ <;> rfl

section

variable (hr : e.Reachable) (h : Sourced texts e) (hu : Unwritten texts name)
include hr h hu

/-- No action writes a global variable that no program writes. -/
lemma notes_global (a : Action) :
    name ∉ ((e.notes a).map Entry.act).flatMap Deed.globalTargets := by
  cases a with
  | step id =>
    simp only [notes, note]
    split
    · exact not_mem_nil
    · rename_i t ht
      obtain ⟨work, phase⟩ := t
      dsimp only
      split
      · split <;> exact not_mem_nil
      · split
        · rw [map_act, deeds_globalTargets]
          exact not_mem_nil
        · exact not_mem_nil
      · rename_i thread answerDue
        split
        · rename_i outcome _
          cases outcome <;> exact not_mem_nil
        · split
          · exact not_mem_nil
          · rw [map_act]
            cases hr.fitting _ (mem_of_getElem? ht) with
            | active hw _ =>
              obtain ⟨body, hb⟩ := hw.exists_body
              have hq : e.Conducts ⟨id, body, thread⟩ := conducts_of_task ht hb
              obtain ⟨inner, hst⟩ := (h.sequence _ hq).2
              have hin : name ∉ Stmt.rowTargets inner := (h.spares hu hq).in_hand hst
              exact fun hm => hin ((Thread.deeds_global hst).within name hm)
      · exact not_mem_nil
  | _ => exact not_mem_nil

lemma perform_globals (hn : e.state.store.globals.get? name = none) (a : Action) :
    (e.perform a).state.store.globals.get? name = none := by
  obtain ⟨m, hm⟩ := hr.exists_mirrors
  change (e.perform a).state.bare.store.globals.get? name = none
  rw [(perform_follows hm hr a).accounts.store, Deed.get?_foldl_replay (notes_global hr h hu a)]
  split
  · rfl
  · exact hn

lemma run_globals {actions : List Action} (hn : e.state.store.globals.get? name = none)
    (ha : ∀ text, .execute text ∈ actions → texts text) :
    (e.run actions).state.store.globals.get? name = none := by
  induction actions generalizing e with
  | nil => exact hn
  | cons a actions ih =>
    refine ih (.act a hr) (perform_sourced hr h ?_) (perform_globals hr h hu hn a) ?_
    · rintro text rfl
      exact ha text mem_cons_self
    · exact fun text hm => ha text (mem_cons_of_mem _ hm)

end

end Programs

end Engine

open Thread Engine

/-- A block that runs to any outcome, through any calls, changes the global table only at names that
it or a declared function marks as global in a write or a deletion: by itself, and behind the gate
while others take their steps. In every run a name that no program marks is never in the global
table, and if none marks any it stays empty. So a plain write, a loop variable and a parameter never
become global. -/
theorem globals_change_only_at_targets :
    (∀ (body : List Stmt) (s : State) (n : Nat) (name : String), name ∉ s.globalTargets body →
      (runFor n (⟨.block body, []⟩, s)).2.store.globals.get? name = s.store.globals.get? name) ∧
    (∀ (e d : Engine) (id : TaskId) (body : List Stmt) (fs : List Frame) (name : String),
    e.Reachable →
      e.thread? id = some ⟨.block body, fs⟩ → Within id fs.length e d →
      name ∉ e.state.globalTargets body →
      d.state.store.globals.get? name = e.state.store.globals.get? name) ∧
    (∀ (maxDepth : Nat) (host : Host) (actions : List Action) (name : String),
      (∀ text p, Action.execute text ∈ actions → compile text = .ok p →
        name ∉ Stmt.rowTargets p.body) →
      ((fresh maxDepth host).run actions).state.store.globals.get? name = none) ∧
    (∀ (maxDepth : Nat) (host : Host) (actions : List Action),
      (∀ text p, Action.execute text ∈ actions → compile text = .ok p →
        Stmt.rowTargets p.body = []) →
      ((fresh maxDepth host).run actions).state.store.globals = []) := by
  have hruns (maxDepth : Nat) (host : Host) (actions : List Action) (name : String)
      (hu : ∀ text p, Action.execute text ∈ actions → compile text = .ok p →
        name ∉ Stmt.rowTargets p.body) :
      ((fresh maxDepth host).run actions).state.store.globals.get? name = none := by
    have hunwritten : Unwritten (Action.execute · ∈ actions) name := hu
    exact run_globals (.fresh maxDepth host) fresh_sourced hunwritten rfl fun _ ht => ht
  refine ⟨?_, ?_, hruns, ?_⟩
  · intro body s n name h
    exact runFor_globals (State.spares h) State.knows_registers block_stems
  · intro e d id body fs name hr ht hw h
    exact hw.globals (t := ⟨.block body, []⟩) hr ht block_stems
      State.knows_registers (State.spares h)
  · intro maxDepth host actions h
    refine Table.eq_nil_of_get? fun name => hruns maxDepth host actions name fun text p ht hp => ?_
    rw [h text p ht hp]
    exact List.not_mem_nil

namespace Engine

/-- How many frames are below the row that a task is about to run, and the global targets of the row
and the functions. -/
def blockTargets? (e : Engine) (id : TaskId) : Option (Nat × List String) :=
  match e.thread? id with
  | some ⟨.block body, fs⟩ => some (fs.length, e.state.globalTargets body)
  | _ => none

lemma blockTargets?_inv {e : Engine} {id : TaskId} {depth : Nat} {targets : List String}
    (h : e.blockTargets? id = some (depth, targets)) :
    ∃ body fs, e.thread? id = some ⟨.block body, fs⟩ ∧
    fs.length = depth ∧ e.state.globalTargets body = targets := by
  unfold blockTargets? at h
  split at h
  · rename_i body fs ht
    cases h
    exact ⟨body, fs, ht, rfl, rfl⟩
  · cases h

/-- A parameter, a loop and plain writes share a name, and a function marks another. -/
def sharing : String :=
  "to f using g:\n    set g to 2\n    set global h to g\nset g to 1\nfor every g in [true]:\n    f(g)\n"

/-- The program is about to run its statements. -/
def sharer : Engine := (fresh defaultDepth {}).run [.execute sharing, .step 0, .step 0]

/-- Only the marked name becomes global. -/
theorem globals_change_only_at_targets_sharing :
    (sharer.run (List.replicate 30 (.step 0))).state.store.globals.names = ["h"] ∧
      (sharer.run (List.replicate 30 (.step 0))).state.store.globals.get? "g" =
        sharer.state.store.globals.get? "g" ∧
      sharer.state.store.globals.get? "g" = none := by
  have hr : sharer.Reachable := (Reachable.fresh defaultDepth {}).run _
  have hrun : sharer.blockTargets? 0 = some (0, ["h"]) ∧
    worksAbove 0 0 (List.replicate 30 (.step 0)) sharer = true ∧
      (sharer.run (List.replicate 30 (.step 0))).state.store.globals.names = ["h"] ∧
      (compile sharing).toOption.map (fun p => Stmt.rowTargets p.body) = some ["h"] := by
    decide +kernel
  obtain ⟨hblock, hworks, hnames, htext⟩ := hrun
  obtain ⟨body, fs, ht, hlen, htargets⟩ := blockTargets?_inv hblock
  obtain ⟨_, hgate, hruns, _⟩ := globals_change_only_at_targets
  refine ⟨hnames, ?_, ?_⟩
  · have hwithin : Within 0 fs.length sharer (sharer.run (List.replicate 30 (.step 0))) := by
      rw [hlen]
      exact Within.refl.run hworks
    refine hgate sharer _ 0 body fs "g" hr ht hwithin ?_
    rw [htargets]
    decide
  · unfold sharer
    refine hruns defaultDepth {} [.execute sharing, .step 0, .step 0] "g" fun text p hm hp => ?_
    have heq : text = sharing := by
      rcases List.mem_cons.1 hm with hm | hm
      · cases hm
        rfl
      · simp at hm
    rw [heq] at hp
    rw [hp] at htext
    have hmarked : Stmt.rowTargets p.body = ["h"] := Option.some.inj htext
    rw [hmarked]
    decide

end Engine

end Colloquy
