import Colloquy.Proofs.Engine.Exclusion

/-!
# The lifecycle

`Orderly` is the invariant of the lifecycle: live timers keep a program running, a running program
is not halted, and one that runs without timers is on its main line. A timer ends only after it was
cancelled or when nothing runs (`Orderly.retire`).
-/

namespace Colloquy

open List

namespace Registry

/-- Numbers were handed out, and no live timer was cancelled. -/
structure Sound (r : Registry) : Prop where
  live_le : ∀ timer ∈ r.live, timer ≤ r.issued
  cancelled_le : ∀ timer ∈ r.cancelled, timer ≤ r.issued
  disjoint : ∀ timer ∈ r.live, timer ∉ r.cancelled

lemma Sound.cancelAll {r : Registry} (h : r.Sound) : r.cancelAll.2.Sound where
  live_le := nofun
  cancelled_le := by
    intro timer hm
    rcases mem_append.1 hm with hm | hm
    · exact h.live_le timer hm
    · exact h.cancelled_le timer hm
  disjoint := nofun

lemma complete_of_not_mem {r : Registry} {timer : Nat} (h : timer ∉ r.live) :
    r.complete timer = r := by
  have hl : r.live.filter (· ≠ timer) = r.live := by
    rw [filter_eq_self]
    intro other hm
    exact decide_eq_true fun he => h (he ▸ hm)
  simp only [complete, hl]

end Registry

/-- Whether a task is a call that runs a source text. -/
def Task.isExecution (t : Task) : Bool :=
  match t.work with
  | .source _ | .program _ => true
  | _ => false

/-- The number of a timer that has not ended. -/
def Task.timer? (t : Task) : Option Nat :=
  match t.work, t.phase with
  | _, .ended _ => none
  | .timer timer .., _ => some timer
  | _, _ => none

namespace Engine

/-- A program has gone through the gate and has not come to its end. -/
def OnMainLine (e : Engine) (id : TaskId) : Prop :=
  ∃ p thread answerDue, e.tasks[id]? = some ⟨.program p, .active thread answerDue⟩

/-- The invariant of the lifecycle. -/
structure Orderly (e : Engine) : Prop where
  registry : e.state.timers.Sound
  running_of_live : e.state.timers.live ≠ [] → e.state.running = true
  not_halted : e.state.running = true → e.state.halted = false
  backed : e.state.running = true → e.state.timers.live ≠ [] ∨ ∃ id, e.OnMainLine id

section Invariants

variable {e d : Engine} {id : TaskId} {outcome : Outcome}

lemma Orderly.live_eq_nil (h : e.Orderly) (hr : e.state.running = false) :
    e.state.timers.live = [] := by
  cases hl : e.state.timers.live with
  | nil => rfl
  | cons timer live =>
    have hne : e.state.timers.live ≠ [] := by
      rw [hl]
      exact cons_ne_nil _ _
    rw [h.running_of_live hne] at hr
    cases hr

lemma Orderly.complete_eq (h : e.Orderly) {timer : Nat}
    (hc : e.state.timers.isCancelled timer = true ∨ e.state.running = false) :
    e.state.timers.complete timer = e.state.timers := by
  apply Registry.complete_of_not_mem
  intro hm
  rcases hc with hc | hc
  · exact h.registry.disjoint timer hm (of_decide_eq_true hc)
  · rw [h.live_eq_nil hc] at hm
    cases hm

/-- Other tasks stay on their main lines. -/
lemma OnMainLine.set {u t : Task} {j : TaskId} (hj : e.OnMainLine j)
    (hu : e.tasks[id]? = some u) (ht : d.tasks = e.tasks.set id t)
    (hk : ∀ p thread answerDue, u = ⟨.program p, .active thread answerDue⟩ →
      ∃ thread' answerDue', t = ⟨.program p, .active thread' answerDue'⟩) : d.OnMainLine j := by
  obtain ⟨p, thread, answerDue, hp⟩ := hj
  by_cases hne : j = id
  · subst hne
    obtain ⟨thread', answerDue', rfl⟩ := hk p thread answerDue (Option.some.inj (hu.symm.trans hp))
    refine ⟨p, thread', answerDue', ?_⟩
    rw [ht]
    exact List.getElem?_set_self (List.getElem?_eq_some_iff.1 hu).1
  · refine ⟨p, thread, answerDue, ?_⟩
    rw [ht]
    exact getElem?_set_other hne hp

/-- Whatever leaves the lifecycle alone keeps it orderly. -/
lemma Orderly.keep (h : e.Orderly) (hr : d.state.running = e.state.running)
    (hh : e.state.halted = false → d.state.halted = false) (ht : d.state.timers = e.state.timers)
    (hm : ∀ j, e.OnMainLine j → d.OnMainLine j) : d.Orderly where
  registry := by rw [ht]; exact h.registry
  running_of_live := by rw [ht, hr]; exact h.running_of_live
  not_halted := by rw [hr]; exact fun hrun => hh (h.not_halted hrun)
  backed := by
    rw [hr, ht]
    intro hrun
    rcases h.backed hrun with hl | ⟨j, hj⟩
    · exact .inl hl
    · exact .inr ⟨j, hm j hj⟩

lemma Orderly.stopped (h : e.Orderly) (hr : d.state.running = false)
    (ht : d.state.timers = e.state.timers.cancelAll.2) : d.Orderly where
  registry := by rw [ht]; exact h.registry.cancelAll
  running_of_live := by rw [ht]; exact fun hl => (hl rfl).elim
  not_halted := by rw [hr]; exact nofun
  backed := by rw [hr]; exact nofun

/-- A program that begins runs. -/
lemma Orderly.launch (h : e.Orderly) {p : Program}
    (ht : e.tasks[id]? = some ⟨.program p, .queued⟩) :
    (e.launch id p).Orderly := by
  have hspec := declared_spec e p
  obtain ⟨new, hn, hall⟩ := hspec.live
  obtain ⟨added, ha, _⟩ := hspec.tasks
  have hrun : (e.launch id p).state.running = true := hspec.running
  have hmain : (e.launch id p).OnMainLine id := by
    refine ⟨p, mainThread p (e.declared p).state, 0, ?_⟩
    rw [launch_eq]
    refine List.getElem?_set_self ?_
    rw [ha, length_append]
    exact Nat.lt_add_right _ (List.getElem?_eq_some_iff.1 ht).1
  refine ⟨⟨?_, ?_, ?_⟩, fun _ => hrun, fun _ => hspec.halted, fun _ => .inr ⟨id, hmain⟩⟩
  · intro timer hm
    change timer ∈ (e.declared p).state.timers.live at hm
    rw [hn] at hm
    rcases mem_append.1 hm with hm | hm
    · exact Nat.le_trans (h.registry.live_le timer hm) hspec.issued
    · exact (hall timer hm).2
  · intro timer hm
    change timer ∈ (e.declared p).state.timers.cancelled at hm
    rw [hspec.cancelled] at hm
    exact Nat.le_trans (h.registry.cancelled_le timer hm) hspec.issued
  · intro timer hm hc
    change timer ∈ (e.declared p).state.timers.live at hm
    change timer ∈ (e.declared p).state.timers.cancelled at hc
    rw [hn] at hm
    rw [hspec.cancelled] at hc
    rcases mem_append.1 hm with hm | hm
    · exact h.registry.disjoint timer hm hc
    · -- a new number is larger than every number that was cancelled
      exact Nat.not_lt.2 (h.registry.cancelled_le timer hc) (hall timer hm).1

lemma reportOutcome_timers {s : State} : (reportOutcome s outcome).timers = s.timers := by
  cases outcome <;> rfl

/-- A program that ends without timers no longer runs. -/
lemma Orderly.conclude (h : e.Orderly) {w : Work} {thread : Thread} {answerDue : Nat}
    (ht : e.tasks[id]? = some ⟨w, .active thread answerDue⟩) (hw : w.Gated) :
    (e.conclude id ⟨w, .active thread answerDue⟩ outcome).Orderly := by
  have hrun : (reportOutcome e.state outcome).running = e.state.running := by cases outcome <;> rfl
  have hhalt : (reportOutcome e.state outcome).halted = e.state.halted := by cases outcome <;> rfl
  have htim : (reportOutcome e.state outcome).timers = e.state.timers := reportOutcome_timers
  cases hw with
  | event | timer =>
    refine h.keep hrun (fun hh => hhalt.trans hh) htim ?_
    intro j hj
    exact hj.set ht rfl nofun
  | program =>
    simp only [Engine.conclude]
    rw [htim]
    cases hl : e.state.timers.live with
    | nil =>
      have hempty : e.state.timers.isEmpty = true := by simp [Registry.isEmpty, hl]
      rw [if_pos hempty]
      exact ⟨h.registry, fun hne => (hne hl).elim, nofun, nofun⟩
    | cons timer live =>
      have hlive : e.state.timers.live ≠ [] := by
        rw [hl]
        exact cons_ne_nil _ _
      have hempty : ¬ e.state.timers.isEmpty = true := by simp [Registry.isEmpty, hl]
      rw [if_neg hempty]
      refine ⟨?_, ?_, ?_, ?_⟩
      · exact htim ▸ h.registry
      · intro _
        exact hrun.trans (h.running_of_live hlive)
      · intro hr
        exact hhalt.trans (h.not_halted (hrun.symm.trans hr))
      · intro _
        refine .inl ?_
        change (reportOutcome e.state outcome).timers.live ≠ []
        rw [htim]
        exact hlive

/-- Every move keeps the lifecycle orderly. -/
lemma Move.orderly (hf : e.Fitting) (h : e.Orderly) (hm : Move e id d) : d.Orderly := by
  cases hm with
  | stay => exact h
  | refuse ht _ => exact h.keep rfl (fun hh => hh) rfl fun j hj => hj.set ht rfl nofun
  | call _ _ => exact h.stopped rfl rfl
  | miss ht _ | summon ht _ | arm ht =>
    exact h.keep rfl (fun hh => hh) rfl fun j hj => hj.set ht rfl nofun
  | retire ht _ hc =>
    exact h.keep rfl (fun hh => hh) (h.complete_eq hc) fun j hj => hj.set ht rfl nofun
  | tick ht _ _ _ => exact h.keep rfl (fun hh => hh) rfl fun j hj => hj.set ht rfl nofun
  | launch ht _ => exact h.launch ht
  | respond ht _ => exact h.keep rfl (fun _ => rfl) rfl fun j hj => hj.set ht rfl nofun
  | strike ht _ _ _ => exact h.keep rfl (fun hh => hh) rfl fun j hj => hj.set ht rfl nofun
  | conclude ht hw _ => exact h.conclude ht hw
  | @advance w thread answerDue next ht _ =>
    cases hf _ (mem_of_getElem? ht) with
    | active _ ty =>
      rcases (Thread.step_change (s := e.state) ty).lifecycle with ⟨hr, hh, htim⟩ | ⟨hr, _, htim⟩
      · refine h.keep hr (fun hf => hh.trans hf) htim fun j hj => hj.set ht rfl ?_
        intro p thread' answerDue' he
        cases he
        exact ⟨_, _, rfl⟩
      · exact h.stopped hr htim

end Invariants

/-- The lifecycle is orderly in every run. -/
lemma Reachable.orderly {e : Engine} (h : e.Reachable) : e.Orderly := by
  induction h with
  | fresh maxDepth host => exact ⟨⟨nofun, nofun, nofun⟩, fun hl => (hl rfl).elim, nofun, nofun⟩
  | @act e a hr ih =>
    cases a with
    | execute source | trigger name =>
      refine ih.keep rfl (fun hh => hh) rfl ?_
      rintro j ⟨p, thread, answerDue, hj⟩
      exact ⟨p, thread, answerDue, getElem?_append_some hj⟩
    | stop => exact ih.stopped rfl rfl
    | step id => exact (step_move hr.fitting).orderly hr.fitting ih
    | _ => exact ih.keep rfl (fun hh => hh) rfl fun _ hj => hj

section Timers

variable {e d : Engine} {id : TaskId} {t : Task}

/-- Every timer that has not ended is live or was cancelled. -/
def Enlisted (e : Engine) : Prop :=
  ∀ t ∈ e.tasks, ∀ timer, t.timer? = some timer →
    timer ∈ e.state.timers.live ∨ timer ∈ e.state.timers.cancelled

lemma mem_cancelAll {r : Registry} {timer : Nat} (h : timer ∈ r.live ∨ timer ∈ r.cancelled) :
    timer ∈ r.cancelAll.2.live ∨ timer ∈ r.cancelAll.2.cancelled :=
  .inr (mem_append.2 h)

/-- A task that is set is enlisted like the one before. -/
lemma Enlisted.set (h : e.Enlisted) (hd : d.tasks = e.tasks.set id t)
    (ht : ∀ timer, t.timer? = some timer → ∃ u ∈ e.tasks, u.timer? = some timer)
    (hr : d.state.timers = e.state.timers ∨ d.state.timers = e.state.timers.cancelAll.2) :
    d.Enlisted := by
  have keep {timer : Nat} (hi : timer ∈ e.state.timers.live ∨ timer ∈ e.state.timers.cancelled) :
      timer ∈ d.state.timers.live ∨ timer ∈ d.state.timers.cancelled := by
    rcases hr with hr | hr
    · rw [hr]
      exact hi
    · rw [hr]
      exact mem_cancelAll hi
  intro u hu timer htimer
  rw [hd] at hu
  rcases mem_or_eq_of_mem_set hu with hu | rfl
  · exact keep (h u hu timer htimer)
  · obtain ⟨v, hv, hvt⟩ := ht timer htimer
    exact keep (h v hv timer hvt)

/-- New timers are live. -/
lemma Enlisted.launch {p : Program} (h : e.Enlisted) : (e.launch id p).Enlisted := by
  have hspec := declared_spec e p
  obtain ⟨new, hn, _⟩ := hspec.live
  obtain ⟨added, ha, hall⟩ := hspec.tasks
  intro u hu timer htimer
  rw [launch_eq] at hu
  rcases mem_or_eq_of_mem_set hu with hu | rfl
  · rw [ha] at hu
    rcases mem_append.1 hu with hu | hu
    · rcases h u hu timer htimer with hl | hc
      · refine .inl ?_
        change timer ∈ (e.declared p).state.timers.live
        rw [hn]
        exact mem_append_left _ hl
      · refine .inr ?_
        change timer ∈ (e.declared p).state.timers.cancelled
        rw [hspec.cancelled]
        exact hc
    · obtain ⟨number, body, period, due, rfl, hl, _⟩ := hall u hu
      cases htimer
      exact .inl hl
  · cases htimer

/-- Every move keeps timers live or cancelled. -/
lemma Move.enlisted (hf : e.Fitting) (ho : e.Orderly) (h : e.Enlisted) (hm : Move e id d) :
    d.Enlisted := by
  cases hm with
  | stay => exact h
  | refuse _ _ => exact h.set rfl nofun (.inl rfl)
  | call _ _ => exact h.set rfl nofun (.inr rfl)
  | miss _ _ | summon _ _ => exact h.set rfl nofun (.inl rfl)
  | arm ht => exact h.set rfl (fun _ hi => ⟨_, mem_of_getElem? ht, hi⟩) (.inl rfl)
  | retire _ _ hc => exact h.set rfl nofun (.inl (ho.complete_eq hc))
  | tick ht _ _ _ =>
    refine h.set rfl (fun timer hi => ⟨_, mem_of_getElem? ht, ?_⟩) (.inl rfl)
    cases hi
    rfl
  | launch _ _ => exact h.launch
  | respond _ _ => exact h.set rfl nofun (.inl rfl)
  | strike ht _ _ _ => exact h.set rfl (fun _ hi => ⟨_, mem_of_getElem? ht, hi⟩) (.inl rfl)
  | conclude ht hw _ =>
    cases hw with
    | program =>
      refine h.set rfl nofun (.inl ?_)
      simp only [Engine.conclude]
      split
      · exact reportOutcome_timers
      · exact reportOutcome_timers
    | event => exact h.set rfl nofun (.inl reportOutcome_timers)
    | timer => exact h.set rfl (fun _ hi => ⟨_, mem_of_getElem? ht, hi⟩) (.inl reportOutcome_timers)
  | advance ht _ =>
    cases hf _ (mem_of_getElem? ht) with
    | active hw ty =>
      refine h.set rfl (fun timer hi => ⟨_, mem_of_getElem? ht, ?_⟩) ?_
      · cases hw <;> exact hi
      · rcases (Thread.step_change (s := e.state) ty).lifecycle with ⟨_, _, htim⟩ | ⟨_, _, htim⟩
        · exact .inl htim
        · exact .inr htim

end Timers

/-- Every timer that has not ended is live or was cancelled. -/
lemma Reachable.enlisted {e : Engine} (h : e.Reachable) : e.Enlisted := by
  induction h with
  | fresh maxDepth host => exact nofun
  | @act e a hr ih =>
    cases a with
    | execute source | trigger name =>
      intro t ht timer htimer
      rcases mem_append.1 ht with ht | ht
      · exact ih t ht timer htimer
      · cases mem_singleton.1 ht
        cases htimer
    | stop => exact fun t ht timer htimer => mem_cancelAll (ih t ht timer htimer)
    | step id => exact (step_move hr.fitting).enlisted hr.fitting hr.orderly ih
    | _ => exact ih

/-- In every run, live timers keep the program running; a program that runs is not halted, and has
live timers or is on its main line behind the gate. So between calls a program runs exactly as long
as timers are live. -/
theorem running_backed_by_timers {e : Engine} (hr : e.Reachable) :
    (e.state.timers.isEmpty = false → e.state.running = true) ∧
      (e.state.running = true →
        e.state.halted = false ∧
          (e.state.timers.isEmpty = false ∨ ∃ id, e.OnMainLine id ∧ e.gate.holder = some id)) ∧
      ((∀ t ∈ e.tasks, t.isExecution = true → t.isEnded = true) →
        (e.state.running = true ↔ 0 < e.state.timers.size)) := by
  have ho := hr.orderly
  have hempty : e.state.timers.isEmpty = false ↔ e.state.timers.live ≠ [] := by
    simp [Registry.isEmpty]
  refine ⟨fun hl => ho.running_of_live (hempty.1 hl), ?_, ?_⟩
  · intro hrun
    refine ⟨ho.not_halted hrun, ?_⟩
    rcases ho.backed hrun with hl | ⟨id, hid⟩
    · exact .inl (hempty.2 hl)
    · obtain ⟨p, thread, answerDue, ht⟩ := hid
      exact .inr ⟨id, ⟨p, thread, answerDue, ht⟩, hr.exclusive id _ thread answerDue ht⟩
  · intro hended
    rw [Registry.size, List.length_pos_iff]
    refine ⟨?_, ho.running_of_live⟩
    intro hrun
    rcases ho.backed hrun with hl | ⟨id, p, thread, answerDue, ht⟩
    · exact hl
    · -- a main line is a call that has not come back
      have hend := hended _ (List.mem_of_getElem? ht) rfl
      cases hend

/-- A program has come to its end and left a timer behind. -/
def ticking : Engine :=
  (fresh defaultDepth {}).run
    [.execute "every 1 seconds:\n    say 1\n", .step 0, .step 0, .step 0, .step 0, .step 1]

/-- It runs on for the sake of its timer. -/
theorem ticking_runs :
    ticking.Reachable ∧ (∀ t ∈ ticking.tasks, t.isExecution = true → t.isEnded = true) ∧
      0 < ticking.state.timers.size ∧ ticking.state.running = true := by
  have hr : ticking.Reachable := (Reachable.fresh defaultDepth {}).run _
  have hended : ∀ t ∈ ticking.tasks, t.isExecution = true → t.isEnded = true := by decide +kernel
  have hlive : 0 < ticking.state.timers.size := by decide +kernel
  exact ⟨hr, hended, hlive, ((running_backed_by_timers hr).2.2 hended).2 hlive⟩

end Engine

end Colloquy
