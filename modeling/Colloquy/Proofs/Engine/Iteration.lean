import Colloquy.Proofs.Machine.Retention
import Colloquy.Proofs.Engine.Scope

/-!
# Loops over items

`Iteration` says how far a loop over items has come while others call, stop and wait. All ways to
end without a fault take its variable away; a fault in a round leaves it, unless the round has taken
it away.
-/

namespace Colloquy

open Thread

namespace Engine

variable {e : Engine} {id : TaskId} {item : String} {depth : Nat}

section Loops

variable {e d : Engine} {id : TaskId} {item : String} {body : List Stmt}
  {left : List Value} {fs : List Frame} {t : Thread}

/-- A thread is in a round, and holds the loop's variable unless the round takes it away. -/
structure Round (e : Engine) (id : TaskId) (item : String) (left : List Value)
    (body : List Stmt) (fs : List Frame) (t : Thread) : Prop where
  thread : e.thread? id = some (t.onto (.nextItem item left body :: fs))
  typed : t.Typed .statements
  stems : ∃ row, t.Stems (fun _ => True) body row
  holds : Stmt.anyClears item body = false → Held item t.frames e.state

/-- How far a loop over items has come above some frames. -/
inductive Iteration (item : String) (body : List Stmt) (id : TaskId) (fs : List Frame)
    (d : Engine) : Prop where
  /-- Its list is known. -/
  | listed {left : List Value} {line : Nat} :
    d.thread? id = some ⟨.value (.list left), .iterable item body line :: fs⟩ →
    Iteration item body id fs d
  /-- It is between two rounds. -/
  | between {left : List Value} :
    d.thread? id = some ⟨.items item left body, fs⟩ →
    Iteration item body id fs d
  | round {left : List Value} {t : Thread} :
    d.Round id item left body fs t →
    Iteration item body id fs d
  | ended {f : Flow} :
    d.thread? id = some ⟨.flow f, fs⟩ →
    d.state.store.locals.get? item = none →
    Iteration item body id fs d
  /-- It has failed in a round. -/
  | failed {f : Fault} :
    d.thread? id = some ⟨.fault f, fs⟩ →
    (Stmt.anyClears item body = false → (d.state.store.locals.get? item).isSome = true) →
    Iteration item body id fs d

lemma get?_remove {s : State} : (s.remove item .plain).store.locals.get? item = none :=
  Table.get?_erase_self s.store.locals item

/-- A loop goes on to its next item, or ends. -/
lemma Iteration.next (hr : e.Reachable)
    (ht : e.thread? id = some ⟨.items item left body, fs⟩) (a : Action) :
    Iteration item body id fs (e.perform a) := by
  rcases perform_thread hr ht (by cases fs <;> rfl) a with ⟨ht', _⟩ | ⟨ht', hs⟩
  · exact .between ht'
  · cases left with
    | nil =>
      apply Iteration.ended ht'
      rw [hs]
      exact get?_remove
    | cons v left =>
      simp only [Thread.step, Thread.items] at ht' hs
      split at ht'
      · rename_i hh
        apply Iteration.ended ht'
        rw [hs, if_pos hh]
        exact get?_remove
      · rename_i hh
        refine .round (t := ⟨.block body, []⟩)
          ⟨ht', .of_phrase rfl .nil, ⟨body, .block fun _ hx => .top hx, .base⟩, ?_⟩
        intro _
        rw [hs, if_neg hh]
        change ((e.state.store.locals.insert item v).get? item).isSome = true
        rw [Table.get?_insert_self]
        rfl

lemma Round.rest (h : e.Round id item left body fs t)
    (ht : d.thread? id = some (t.onto (.nextItem item left body :: fs)))
    (hs : SameTables e.state d.state) :
    d.Round id item left body fs t :=
  ⟨ht, h.typed, h.stems, fun hc => (h.holds hc).of_store hs.store⟩

/-- A round goes on. -/
lemma Round.perform (hr : e.Reachable) (h : e.Round id item left body fs t)
    (ho : t.outcome? = none) (a : Action) :
    ∃ t', (e.perform a).Round id item left body fs t' := by
  rcases perform_thread hr h.thread (Thread.outcome?_onto ho) a with ⟨ht, hs⟩ | ⟨ht, hs⟩
  · exact ⟨t, h.rest ht hs⟩
  · rw [step_onto ho] at ht hs
    obtain ⟨row, hst⟩ := h.stems
    refine ⟨(t.step e.state).1, ht, step_typed h.typed, exists_stems (fun _ _ _ => trivial) hst, ?_⟩
    intro hc
    rw [hs]
    exact step_holds h.typed hst hc (h.holds hc)

/-- A round that is over leads back to the loop, or out of it. -/
lemma Round.close {outcome : Outcome} (hr : e.Reachable) (h : e.Round id item left body fs t)
    (ho : t.outcome? = some outcome) (a : Action) : Iteration item body id fs (e.perform a) := by
  obtain ⟨hfs, _⟩ := settled_of_outcome? ho
  obtain ⟨control, frames⟩ := t
  cases hfs
  rcases perform_thread hr h.thread (by cases control <;> rfl) a with ⟨ht, hs⟩ | ⟨ht, hs⟩
  · exact .round (h.rest ht hs)
  · cases control with
    | value v =>
      -- a row of statements never comes to a value
      cases (h.typed.linked rfl).nil_inv
    | flow f =>
      cases f with
      | done => exact .between ht
      | gaveBack v =>
        apply Iteration.ended ht
        rw [hs]
        exact get?_remove
    | fault f =>
      apply Iteration.failed ht
      intro hc
      rw [hs]
      exact h.holds hc
    | _ => cases ho

/-- A loop goes on with every action. -/
lemma Iteration.perform (hr : e.Reachable) (h : Iteration item body id fs e)
    (hn : e.settledDepth? id ≠ some fs.length) (a : Action) :
    Iteration item body id fs (e.perform a) := by
  cases h with
  | listed ht =>
    rcases perform_thread hr ht rfl a with ⟨ht', _⟩ | ⟨ht', _⟩
    · exact .listed ht'
    · exact .between ht'
  | between ht => exact .next hr ht a
  | @round left t h =>
    cases ho : t.outcome? with
    | some outcome => exact h.close hr ho a
    | none =>
      obtain ⟨t', h'⟩ := h.perform hr ho a
      exact .round h'
  | ended ht _ | failed ht _ => exact (hn (settledDepth?_eq ht rfl)).elim

/-- A loop that is over has taken its variable away, or failed. -/
lemma Iteration.ends (h : Iteration item body id fs d)
    (hend : d.settledDepth? id = some fs.length) :
    (∃ f, d.thread? id = some ⟨.flow f, fs⟩ ∧ d.state.store.locals.get? item = none) ∨
      ∃ f, d.thread? id = some ⟨.fault f, fs⟩ ∧
        (Stmt.anyClears item body = false → (d.state.store.locals.get? item).isSome = true) := by
  cases h with
  | @listed left line ht =>
    have hlen : fs.length + 1 = fs.length := (settledDepth?_inv ht hend).2
    omega
  | between ht => cases (settledDepth?_inv ht hend).1
  | @round left t h =>
    have hlen : (t.frames ++ .nextItem item left body :: fs).length = fs.length :=
      (settledDepth?_inv h.thread hend).2
    simp only [List.length_append, List.length_cons] at hlen
    omega
  | ended ht hget => exact .inl ⟨_, ht, hget⟩
  | failed ht hget => exact .inr ⟨_, ht, hget⟩

end Loops

section Statements

variable {e d : Engine} {id : TaskId} {item : String} {body rest : List Stmt}
  {line : Nat} {fs : List Frame} {footing : Footing} {iterable : Expr}

/-- How far a statement that loops over items has come. -/
inductive Traversal (item : String) (body : List Stmt) (line : Nat) (id : TaskId)
    (fs : List Frame) (footing : Footing) (d : Engine) : Prop where
  | evaluating {t : Thread} :
    d.Evaluates id (.iterable item body line :: fs) footing t →
    Traversal item body line id fs footing d
  | iterating :
    Iteration item body id fs d →
    Traversal item body line id fs footing d
  /-- There is no list to go through. -/
  | refused {f : Fault} :
    d.thread? id = some ⟨.fault f, fs⟩ →
    d.state.store.locals = footing.1 →
    Traversal item body line id fs footing d

/-- The loop begins once its list is there, or fails without one. -/
lemma Traversal.enter {t : Thread} {outcome : Outcome} (hr : e.Reachable)
    (h : e.Evaluates id (.iterable item body line :: fs) footing t) (ho : t.outcome? = some outcome)
    (hn : e.settledDepth? id ≠ some fs.length) (a : Action) :
    Traversal item body line id fs footing (e.perform a) := by
  obtain ⟨hfs, _⟩ := settled_of_outcome? ho
  obtain ⟨control, frames⟩ := t
  cases hfs
  have refuse {f : Fault}
      (hstep : Thread.step ⟨control, .iterable item body line :: fs⟩ e.state =
        (⟨.fault f, fs⟩, e.state)) :
      Traversal item body line id fs footing (e.perform a) := by
    rcases perform_thread hr h.thread (by cases control <;> rfl) a with ⟨ht, hs⟩ | ⟨ht, hs⟩
    · refine .evaluating ⟨ht, h.typed, ?_⟩
      rw [State.footing, hs.store, hs.depth]
      exact h.footing
    · change _ = some (Thread.step ⟨control, .iterable item body line :: fs⟩ e.state).1 at ht
      change _ = (Thread.step ⟨control, .iterable item body line :: fs⟩ e.state).2 at hs
      rw [hstep] at ht hs
      apply Traversal.refused ht
      rw [hs]
      exact congrArg Prod.fst h.footing
  cases control with
  | value v =>
    cases v with
    | list left => exact .iterating ((Iteration.listed h.thread).perform hr hn a)
    | _ => exact refuse rfl
  | fault f => exact refuse rfl
  | flow f =>
    -- an expression never comes to a flow
    have hscope : ([] : List Frame).any Frame.isScope = true := (h.typed.linked rfl).any_isScope
    cases hscope
  | _ => cases ho

/-- A loop goes on with its list. -/
lemma Traversal.perform (hr : e.Reachable) (h : Traversal item body line id fs footing e)
    (hn : e.settledDepth? id ≠ some fs.length) (a : Action) :
    Traversal item body line id fs footing (e.perform a) := by
  cases h with
  | @evaluating t h =>
    cases ho : t.outcome? with
    | some outcome => exact .enter hr h ho hn a
    | none =>
      obtain ⟨⟨t', h'⟩, _⟩ := h.perform hr ho a
      exact .evaluating h'
  | iterating h => exact .iterating (h.perform hr hn a)
  | refused ht _ => exact (hn (settledDepth?_eq ht rfl)).elim

/-- A loop begins with the evaluation of its list. -/
lemma start_traversal
    (ht : e.thread? id = some ⟨.block (.forEach item iterable body line :: rest), fs⟩)
    (hh : e.state.halted = false) :
    Traversal item body line id (.rest rest :: fs) e.state.footing (e.step id) := by
  have hstep : Thread.step ⟨.block (.forEach item iterable body line :: rest), fs⟩ e.state =
      (⟨.eval iterable, .iterable item body line :: .rest rest :: fs⟩, e.state) := by
    simp [Thread.step, Thread.block, Thread.start, hh]
  obtain ⟨hthread, hstate⟩ := step_thread ht (by cases fs <;> rfl) rfl
  rw [hstep] at hthread hstate
  refine .evaluating (t := ⟨.eval iterable, []⟩) ⟨hthread, .of_phrase rfl .nil, ?_⟩
  rw [hstate]
  rfl

lemma Within.traversal (hr : e.Reachable)
    (ht : e.thread? id = some ⟨.block (.forEach item iterable body line :: rest), fs⟩)
    (hh : e.state.halted = false) (h : Within id (fs.length + 1) (e.step id) d) :
    Traversal item body line id (.rest rest :: fs) e.state.footing d := by
  induction h with
  | refl => exact start_traversal ht hh
  | act a hw hn ih => exact ih.perform (hw.reachable (hr.step id)) hn a

lemma Within.iteration {left : List Value} (hr : e.Reachable)
    (ht : e.thread? id = some ⟨.value (.list left), .iterable item body line :: fs⟩)
    (h : Within id fs.length e d) :
    Iteration item body id fs d := by
  induction h with
  | refl => exact .listed ht
  | act a hw hn ih => exact ih.perform (hw.reachable hr) hn a

end Statements

/-- However a loop over items ends without a fault, and whatever others do meanwhile, its variable
is no local one any more. If it ends with a fault, either there was no list and the local variables
are as they were, or the fault is one of a round: then the variable is still there, unless the round
can take it away. -/
theorem forEach_clears_item {e : Engine} (hr : e.Reachable) (id : TaskId)
    (item : String) (body : List Stmt) (line : Nat) (fs : List Frame) :
    (∀ (iterable : Expr) (rest : List Stmt) (d : Engine),
      e.thread? id = some ⟨.block (.forEach item iterable body line :: rest), fs⟩ →
      e.state.halted = false →
      Within id (fs.length + 1) (e.step id) d → d.settledDepth? id = some (fs.length + 1) →
        (∃ f, d.thread? id = some ⟨.flow f, .rest rest :: fs⟩ ∧
          d.state.store.locals.get? item = none) ∨
        ∃ f, d.thread? id = some ⟨.fault f, .rest rest :: fs⟩ ∧
          (d.state.store.locals = e.state.store.locals ∨
            (Stmt.anyClears item body = false → (d.state.store.locals.get? item).isSome = true))) ∧
    (∀ (left : List Value) (d : Engine),
      e.thread? id = some ⟨.value (.list left), .iterable item body line :: fs⟩ →
      Within id fs.length e d → d.settledDepth? id = some fs.length →
        (∃ f, d.thread? id = some ⟨.flow f, fs⟩ ∧ d.state.store.locals.get? item = none) ∨
        ∃ f, d.thread? id = some ⟨.fault f, fs⟩ ∧
          (Stmt.anyClears item body = false → (d.state.store.locals.get? item).isSome = true)) := by
  refine ⟨?_, ?_⟩
  · intro iterable rest d ht hh hw hend
    cases hw.traversal hr ht hh with
    | @evaluating t h =>
      have hlen :
          (t.frames ++ .iterable item body line :: .rest rest :: fs).length = fs.length + 1 :=
        (settledDepth?_inv h.thread hend).2
      simp only [List.length_append, List.length_cons] at hlen
      omega
    | iterating h =>
      rcases h.ends hend with hover | ⟨f, hthread, hget⟩
      · exact .inl hover
      · exact .inr ⟨f, hthread, .inr hget⟩
    | refused hthread hsame => exact .inr ⟨_, hthread, .inl hsame⟩
  · intro left d ht hw hend
    exact (hw.iteration hr ht).ends hend

/-- The variable of the loop that a task is about to begin, and how many frames are below. -/
def loopDepth? (e : Engine) (id : TaskId) : Option (String × Nat) :=
  match e.thread? id with
  | some ⟨.block (.forEach item _ _ _ :: _), fs⟩ => some (item, fs.length)
  | _ => none

lemma loopDepth?_inv (h : e.loopDepth? id = some (item, depth)) :
    ∃ iterable body line rest fs, e.thread? id =
      some ⟨.block (.forEach item iterable body line :: rest), fs⟩ ∧ fs.length = depth := by
  unfold loopDepth? at h
  split at h
  · rename_i item' iterable body line rest fs ht
    cases h
    exact ⟨iterable, body, line, rest, fs, ht, rfl⟩
  · cases h

/-- The variable of the loop whose list is there, whether its body takes it away, and how many
frames are below. -/
def listDepth? (e : Engine) (id : TaskId) : Option (String × Bool × Nat) :=
  match e.thread? id with
  | some ⟨.value (.list _), .iterable item body _ :: fs⟩ =>
    some (item, Stmt.anyClears item body, fs.length)
  | _ => none

lemma listDepth?_inv {clears : Bool} (h : e.listDepth? id = some (item, clears, depth)) :
    ∃ left body line fs, e.thread? id = some ⟨.value (.list left), .iterable item body line :: fs⟩ ∧
      Stmt.anyClears item body = clears ∧ fs.length = depth := by
  unfold listDepth? at h
  split at h
  · rename_i left item' body line fs ht
    cases h
    exact ⟨left, body, line, fs, ht, rfl, rfl⟩
  · cases h

/-- Whether a task leaves its frames for a fault. -/
def isFailing (e : Engine) (id : TaskId) : Bool :=
  ((e.thread? id).bind fun t => t.control.failure?).isSome

/-- An engine some steps after it was given a program. -/
def after (source : String) (steps : Nat) : Engine :=
  (fresh defaultDepth {}).run (.execute source :: List.replicate steps (.step 0))

/-- A function is about to begin a loop that gives a value back inside a second one over the same
variable. -/
def beforeReturn : Engine :=
  after
    "to f:\n    for every x in [true, false]:\n        for every x in [x]:\n            give back x\nsay f()\n" 4

/-- The first of its loops is over. -/
def returned : Engine := (beforeReturn.step 0).run (List.replicate 20 (.step 0))

/-- A loop has its list; it calls a function that takes its own variable of that name away and
fails. -/
def beforeFault : Engine :=
  after "to f using x:\n    delete x\n    say y\nfor every x in [true]:\n    f(x)\n" 6

/-- The fault has left the loop. -/
def failed : Engine := beforeFault.run (List.replicate 15 (.step 0))

/-- A return takes the variable away, and a fault leaves it. -/
theorem forEach_clears_item_nested :
    beforeReturn.Reachable ∧ returned.state.store.locals.get? "x" = none ∧
    beforeFault.Reachable ∧ (failed.state.store.locals.get? "x").isSome = true := by
  have hrr : beforeReturn.Reachable := (Reachable.fresh defaultDepth {}).run _
  have hrf : beforeFault.Reachable := (Reachable.fresh defaultDepth {}).run _
  have hreturn : beforeReturn.loopDepth? 0 = some ("x", 3) ∧ beforeReturn.state.halted = false ∧
      worksAbove 0 4 (List.replicate 20 (.step 0)) (beforeReturn.step 0) = true ∧
      returned.settledDepth? 0 = some 4 ∧ returned.isFailing 0 = false := by
    decide +kernel
  have hfault : beforeFault.listDepth? 0 = some ("x", false, 1) ∧
      worksAbove 0 1 (List.replicate 15 (.step 0)) beforeFault = true ∧
      failed.settledDepth? 0 = some 1 ∧ failed.isFailing 0 = true := by
    decide +kernel
  refine ⟨hrr, ?_, hrf, ?_⟩
  · obtain ⟨hloop, hh, hworks, hend, hnot⟩ := hreturn
    obtain ⟨iterable, body, line, rest, fs, ht, hlen⟩ := loopDepth?_inv hloop
    have hw : Within 0 (fs.length + 1) (beforeReturn.step 0) returned := by
      rw [hlen]
      exact Within.refl.run hworks
    have hend : returned.settledDepth? 0 = some (fs.length + 1) := by
      rw [hlen]
      exact hend
    rcases (forEach_clears_item hrr 0 "x" body line fs).1 iterable rest returned ht hh hw hend with
      ⟨_, _, hget⟩ | ⟨f, hthread, _⟩
    · exact hget
    · rw [isFailing, hthread] at hnot
      cases hnot
  · obtain ⟨hlist, hworks, hend, hfailing⟩ := hfault
    obtain ⟨left, body, line, fs, ht, hclears, hlen⟩ := listDepth?_inv hlist
    have hw : Within 0 fs.length beforeFault failed := by
      rw [hlen]
      exact Within.refl.run hworks
    have hend : failed.settledDepth? 0 = some fs.length := by
      rw [hlen]
      exact hend
    rcases (forEach_clears_item hrf 0 "x" body line fs).2 left failed ht hw hend with
      ⟨f, hthread, _⟩ | ⟨_, _, hget⟩
    · rw [isFailing, hthread] at hfailing
      cases hfailing
    · exact hget hclears

/-- Whenever a loop over items has come to an outcome, its variable is gone. -/
def AlwaysClears : Prop :=
  ∀ (e d : Engine) (id : TaskId) (item : String) (left : List Value) (body : List Stmt) (line : Nat)
    (fs : List Frame),
    e.Reachable → e.thread? id = some ⟨.value (.list left), .iterable item body line :: fs⟩ →
    Within id fs.length e d → d.settledDepth? id = some fs.length →
    d.state.store.locals.get? item = none

/-- A fault in a round leaves the variable behind. -/
theorem not_alwaysClears_failing : ¬ AlwaysClears := by
  intro h
  let e := after "for every x in [true]:\n    say y\n" 6
  have hr : e.Reachable := (Reachable.fresh defaultDepth {}).run _
  have hrun : e.listDepth? 0 = some ("x", false, 1) ∧
    worksAbove 0 1 (List.replicate 7 (.step 0)) e = true ∧
      (e.run (List.replicate 7 (.step 0))).settledDepth? 0 = some 1 ∧
      ((e.run (List.replicate 7 (.step 0))).state.store.locals.get? "x").isSome = true := by
    decide +kernel
  obtain ⟨hlist, hworks, hend, hget⟩ := hrun
  obtain ⟨left, body, line, fs, ht, _, hlen⟩ := listDepth?_inv hlist
  rw [← hlen] at hworks hend
  rw [h e _ 0 "x" left body line fs hr ht (Within.refl.run hworks) hend] at hget
  cases hget

end Engine

end Colloquy
