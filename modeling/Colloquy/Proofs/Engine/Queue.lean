import Colloquy.Proofs.Engine.Scope

/-!
# The row at the gate

The row at the gate has each task once that waits or is active, and nobody waits for a free gate
(`Lined`). As long as a task holds the gate its sequence goes on (`perform_goes_on`).
-/

namespace Colloquy

open List Gate

namespace Gate

/-- The task that holds the gate and those that wait for it. -/
def row (g : Gate) : List TaskId := g.holder.toList ++ g.waiting

section Row

variable {g : Gate} {id other : TaskId}

lemma mem_row_of_holder (h : g.holder = some id) : id ∈ g.row := by
  simp [row, h]

/-- A gate handed over has the same row without its first. -/
@[simp] lemma row_release : g.release.row = g.waiting := by
  obtain ⟨holder, waiting⟩ := g
  cases waiting <;> rfl

lemma row_withdraw_sublist : (g.withdraw id).row.Sublist g.row := by
  unfold withdraw
  split
  · rw [row_release]
    exact sublist_append_right _ _
  · exact filter_sublist.append_left _

/-- Only the one who withdraws leaves the row. -/
lemma mem_row_withdraw (h : g.row.Nodup) :
    other ∈ (g.withdraw id).row ↔ other ≠ id ∧ other ∈ g.row := by
  obtain ⟨holder, waiting⟩ := g
  unfold withdraw
  split
  · rename_i hh
    cases hh
    have hout : id ∉ waiting := (nodup_cons.1 h).1
    rw [row_release]
    constructor
    · intro hm
      exact ⟨fun he => hout (he ▸ hm), mem_cons_of_mem _ hm⟩
    · rintro ⟨hne, hm⟩
      exact mem_of_ne_of_mem hne hm
  · rename_i hne
    simp only [row, mem_append, Option.mem_toList, mem_filter, decide_eq_true_eq]
    constructor
    · rintro (hm | ⟨hm, hne'⟩)
      · exact ⟨fun he => hne (he ▸ hm), .inl hm⟩
      · exact ⟨hne', .inr hm⟩
    · rintro ⟨hne', hm | hm⟩
      · exact .inl hm
      · exact .inr ⟨hm, hne'⟩

/-- Nobody waits for a gate that is free. -/
def Manned (g : Gate) : Prop := g.holder = none → g.waiting = []

lemma Manned.row_request (h : g.Manned) : (g.request id).row = g.row ++ [id] := by
  obtain ⟨holder, waiting⟩ := g
  cases holder with
  | none =>
    have hw : waiting = [] := h rfl
    subst hw
    rfl
  | some other => rfl

lemma Manned.request : (g.request id).Manned := by
  obtain ⟨holder, waiting⟩ := g
  cases holder <;> exact nofun

lemma Manned.withdraw (h : g.Manned) : (g.withdraw id).Manned := by
  obtain ⟨holder, waiting⟩ := g
  unfold Gate.withdraw
  split
  · cases waiting with
    | nil => exact fun _ => rfl
    | cons next waiting => exact nofun
  · intro hn
    have hw : waiting = [] := h hn
    subst hw
    rfl

lemma Manned.holder_eq {ids : List TaskId} (h : g.Manned) (hr : g.row = id :: ids) :
    g.holder = some id ∧ g.waiting = ids := by
  obtain ⟨holder, waiting⟩ := g
  cases holder with
  | none =>
    have hw : waiting = [] := h rfl
    subst hw
    cases hr
  | some other =>
    cases hr
    exact ⟨rfl, rfl⟩

end Row

end Gate

/-- Whether a task waits for the gate or is active behind it. -/
def Task.isAtGate (t : Task) : Bool :=
  match t.phase with
  | .queued | .active .. => true
  | _ => false

/-- Whether a task runs a thread. -/
def Task.isActive (t : Task) : Bool :=
  match t.phase with
  | .active .. => true
  | _ => false

namespace Engine

/-- The row is made of the tasks that wait or are active, each once. -/
structure Lined (e : Engine) : Prop where
  manned : e.gate.Manned
  nodup : e.gate.row.Nodup
  mem_iff : ∀ id, id ∈ e.gate.row ↔ ∃ t, e.tasks[id]? = some t ∧ t.isAtGate = true

section Invariants

variable {e d : Engine} {id : TaskId} {t u : Task}

section

variable (h : e.Lined)
include h

lemma Lined.mem_row_iff (ht : e.tasks[id]? = some t) : id ∈ e.gate.row ↔ t.isAtGate = true := by
  rw [h.mem_iff]
  constructor
  · rintro ⟨t', ht', hg⟩
    cases Option.some.inj (ht.symm.trans ht')
    exact hg
  · exact fun hg => ⟨t, ht, hg⟩

/-- The row fits if only one task changes. -/
lemma Lined.set (hu : e.tasks[id]? = some u) (hd : d.tasks = e.tasks.set id t)
    (hm : d.gate.Manned) (hn : d.gate.row.Nodup)
    (hothers : ∀ j, j ≠ id → (j ∈ d.gate.row ↔ j ∈ e.gate.row))
    (hself : id ∈ d.gate.row ↔ t.isAtGate = true) : d.Lined where
  manned := hm
  nodup := hn
  mem_iff := by
    intro j
    by_cases hne : j = id
    · subst hne
      have ht : d.tasks[j]? = some t := by
        rw [hd]
        exact List.getElem?_set_self (List.getElem?_eq_some_iff.1 hu).1
      rw [hself, ht]
      simp
    · rw [hothers j hne, h.mem_iff, hd, List.getElem?_set_ne (Ne.symm hne)]

lemma Lined.stay (hu : e.tasks[id]? = some u) (hd : d.tasks = e.tasks.set id t)
    (hg : d.gate = e.gate) (hself : u.isAtGate = t.isAtGate) : d.Lined := by
  refine h.set hu hd (hg ▸ h.manned) (hg ▸ h.nodup) (fun j _ => by rw [hg]) ?_
  rw [hg, h.mem_row_iff hu, hself]

/-- A request adds the task to the row. -/
lemma Lined.request {w : Work} (hu : e.tasks[id]? = some u) (hat : u.isAtGate = false)
    (hd : d.tasks = e.tasks.set id ⟨w, .queued⟩) (hg : d.gate = e.gate.request id) : d.Lined := by
  have hrow : d.gate.row = e.gate.row ++ [id] := hg ▸ h.manned.row_request
  have hout : id ∉ e.gate.row := by
    rw [h.mem_row_iff hu, hat]
    exact Bool.false_ne_true
  refine h.set hu hd (hg ▸ .request) ?_ ?_ ?_
  · rw [hrow]
    exact (perm_append_singleton id _).nodup_iff.2 (nodup_cons.2 ⟨hout, h.nodup⟩)
  · intro j hne
    rw [hrow, mem_append, mem_singleton, or_iff_left hne]
  · rw [hrow]
    exact iff_of_true (mem_append_right _ (mem_singleton_self id)) rfl

lemma Lined.withdraw (hu : e.tasks[id]? = some u) (hd : d.tasks = e.tasks.set id t)
    (hg : d.gate = e.gate.withdraw id) (hat : t.isAtGate = false) : d.Lined := by
  refine h.set hu hd (hg ▸ h.manned.withdraw) ?_ ?_ ?_
  · rw [hg]
    exact h.nodup.sublist row_withdraw_sublist
  · intro j hne
    rw [hg, mem_row_withdraw h.nodup, and_iff_right hne]
  · rw [hg, mem_row_withdraw h.nodup, hat]
    exact iff_of_false (fun hm => hm.1 rfl) Bool.false_ne_true

/-- New tasks do not stand at the gate. -/
lemma Lined.append {new : List Task} (hd : d.tasks = e.tasks ++ new)
    (hg : d.gate = e.gate) (hnew : ∀ t ∈ new, t.isAtGate = false) : d.Lined where
  manned := hg ▸ h.manned
  nodup := hg ▸ h.nodup
  mem_iff := by
    intro j
    rw [hg, hd, h.mem_iff]
    constructor
    · rintro ⟨t, ht, hat⟩
      exact ⟨t, getElem?_append_some ht, hat⟩
    · rintro ⟨t, ht, hat⟩
      rcases getElem?_append_inv ht with ht | hm
      · exact ⟨t, ht, hat⟩
      · rw [hnew t hm] at hat
        cases hat

lemma Lined.declared {p : Program} : (e.declared p).Lined := by
  have hspec := declared_spec e p
  obtain ⟨new, hn, hall⟩ := hspec.tasks
  refine h.append hn hspec.gate ?_
  intro t ht
  obtain ⟨timer, body, period, due, rfl, _⟩ := hall t ht
  rfl

/-- Every move keeps the row. -/
lemma Move.lined (hm : Move e id d) : d.Lined := by
  cases hm with
  | stay => exact h
  | refuse ht _ => exact h.stay ht rfl rfl rfl
  | call ht _ => exact h.request ht rfl rfl rfl
  | miss ht _ | arm ht => exact h.stay ht rfl rfl rfl
  | summon ht _ => exact h.request ht rfl rfl rfl
  | retire ht _ _ => exact h.withdraw ht rfl rfl rfl
  | tick ht _ _ _ => exact h.request ht rfl rfl rfl
  | @launch p ht _ =>
    obtain ⟨new, hn, _⟩ := (declared_spec e p).tasks
    have ht' : (e.declared p).tasks[id]? = some ⟨.program p, .queued⟩ :=
      hn ▸ getElem?_append_some ht
    exact h.declared.stay ht' rfl rfl rfl
  | respond ht _ | strike ht _ _ _ => exact h.stay ht rfl rfl rfl
  | conclude ht hw _ =>
    cases hw with
    | program | event | timer => exact h.withdraw ht rfl rfl rfl
  | advance ht _ => exact h.stay ht rfl rfl rfl

end

end Invariants

lemma Reachable.lined {e : Engine} (h : e.Reachable) : e.Lined := by
  induction h with
  | fresh maxDepth host =>
    exact ⟨fun _ => rfl, nodup_nil, fun id => by simp [Engine.fresh, Gate.row]⟩
  | @act e a hr ih =>
    cases a with
    | execute source
    | trigger name => exact ih.append rfl rfl fun t ht => by cases mem_singleton.1 ht; rfl
    | step id => exact (step_move hr.fitting).lined ih
    | _ => exact ⟨ih.manned, ih.nodup, ih.mem_iff⟩

section Sequence

variable {e d : Engine} {id other : TaskId} {w : Work} {thread : Thread} {answerDue : Nat}

lemma thread?_isSome (h : e.tasks[id]? = some ⟨w, .active thread answerDue⟩) :
    (e.thread? id).isSome = true := by
  rw [thread?_eq h]
  rfl

lemma thread?_none {t : Task} (ht : e.tasks[id]? = some t) (hn : t.isActive = false) :
    e.thread? id = none := by
  obtain ⟨work, phase⟩ := t
  rw [thread?, ht]
  cases phase with
  | active thread answerDue => cases hn
  | _ => rfl

/-- A sequence goes on while its task holds the gate. -/
lemma Move.goes_on (hl : e.Lined) (hx : e.Exclusive)
    (ht : e.tasks[id]? = some ⟨w, .active thread answerDue⟩) (h : Move e other d)
    (hh : d.gate.holder = some id) : (d.thread? id).isSome = true := by
  by_cases hne : id = other
  · subst hne
    cases h with
    | stay => exact thread?_isSome ht
    | conclude _ hw _ =>
      have hout : id ∉ (e.gate.withdraw id).row :=
        fun hm => ((mem_row_withdraw hl.nodup).1 hm).1 rfl
      cases hw <;> exact (hout (mem_row_of_holder hh)).elim
    | advance _ _ =>
      exact thread?_isSome (List.getElem?_set_self (List.getElem?_eq_some_iff.1 ht).1)
    | retire hj hp _ =>
      cases Option.some.inj (ht.symm.trans hj)
      rcases hp with hp | hp <;> cases hp
    | refuse hj _ | call hj _ | miss hj _ | summon hj _ | arm hj | tick hj _ _ _ | launch hj _
    | respond hj _ | strike hj _ _ _ => cases Option.some.inj (ht.symm.trans hj)
  · exact thread?_isSome (h.others hx ht hne).1

lemma perform_goes_on (hr : e.Reachable) (hid : (e.thread? id).isSome = true) {a : Action}
    (hh : (e.perform a).gate.holder = some id) : ((e.perform a).thread? id).isSome = true := by
  obtain ⟨thread, ht⟩ := Option.isSome_iff_exists.1 hid
  obtain ⟨w, answerDue, ht⟩ := thread?_inv ht
  cases a with
  | execute source | trigger name => exact thread?_isSome (getElem?_append_some ht)
  | step other => exact (step_move hr.fitting).goes_on hr.lined hr.exclusive ht hh
  | _ => exact hid

end Sequence

end Engine

end Colloquy
