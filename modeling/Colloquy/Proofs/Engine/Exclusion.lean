import Colloquy.Proofs.Engine.Launch

/-!
# Mutual exclusion

Only the task that holds the gate is active, until its thread has ended. All that others do
meanwhile leaves its thread, the tables and the depth alone (`perform_active`).
-/

namespace Colloquy

open List Gate

namespace Gate

variable {g : Gate} {id other : TaskId}

lemma holder_request (h : g.holder = some other) : (g.request id).holder = some other := by
  simp [request, h]

lemma holder_withdraw (hne : other ≠ id) (h : g.holder = some other) :
    (g.withdraw id).holder = some other := by
  simp [withdraw, h, hne]

end Gate

namespace Engine

/-- Only the task that holds the gate is active. -/
def Exclusive (e : Engine) : Prop :=
  ∀ id w thread answerDue, e.tasks[id]? = some ⟨w, .active thread answerDue⟩ →
  e.gate.holder = some id

section Invariants

variable {e d : Engine} {id j : TaskId} {t u : Task} {tasks new : List Task} {p : Program}

lemma getElem?_set_inv (h : (tasks.set id t)[j]? = some u) :
    (j = id ∧ u = t) ∨ (j ≠ id ∧ tasks[j]? = some u) := by
  rw [List.getElem?_set] at h
  split at h
  · rename_i hj
    split at h
    · exact .inl ⟨hj.symm, (Option.some.inj h).symm⟩
    · cases h
  · rename_i hj
    exact .inr ⟨fun he => hj he.symm, h⟩

lemma Fitting.set (hf : e.Fitting) (ht : t.Fits) (hd : d.tasks = e.tasks.set id t) : d.Fitting := by
  intro u hu
  rw [hd] at hu
  rcases mem_or_eq_of_mem_set hu with hu | rfl
  · exact hf u hu
  · exact ht

lemma Fitting.add (hf : e.Fitting) (ht : t.Fits) : (e.add t).Fitting := by
  intro u hu
  rcases mem_append.1 hu with hu | hu
  · exact hf u hu
  · cases mem_singleton.1 hu
    exact ht

lemma Fitting.declared (hf : e.Fitting) : (e.declared p).Fitting := by
  obtain ⟨new, hn, hall⟩ := (declared_spec e p).tasks
  intro u hu
  rw [hn] at hu
  rcases mem_append.1 hu with hu | hu
  · exact hf u hu
  · obtain ⟨timer, body, period, due, rfl, _⟩ := hall u hu
    exact .timer

/-- Moves keep every phase fitting. -/
lemma Move.fitting (hf : e.Fitting) (h : Move e id d) : d.Fitting := by
  cases h with
  | stay => exact hf
  | refuse _ _ => exact hf.set .ended rfl
  | call _ _ => exact hf.set (.queued .program) rfl
  | miss _ _ => exact hf.set .ended rfl
  | summon _ _ => exact hf.set (.queued .event) rfl
  | arm _ => exact hf.set .resting rfl
  | retire _ _ _ => exact hf.set .ended rfl
  | tick _ _ _ _ => exact hf.set (.queued .timer) rfl
  | launch _ _ =>
    rw [launch_eq]
    exact hf.declared.set (.active .program (mainThread_typed _ _)) rfl
  | respond _ _ => exact hf.set (.active .event (.of_phrase rfl .nil)) rfl
  | strike _ _ _ _ => exact hf.set (.active .timer (.of_phrase rfl .nil)) rfl
  | conclude _ hw _ =>
    cases hw with
    | program | event => exact hf.set .ended rfl
    | timer => exact hf.set .resting rfl
  | advance ht _ =>
    cases hf _ (mem_of_getElem? ht) with
    | active hw ty => exact hf.set (.active hw (Thread.step_typed ty)) rfl

lemma Exclusive.set (hx : e.Exclusive) (hd : d.tasks = e.tasks.set id t)
    (hothers : ∀ j, j ≠ id → e.gate.holder = some j → d.gate.holder = some j)
    (hself : ∀ w thread answerDue, t = ⟨w, .active thread answerDue⟩ → d.gate.holder = some id) :
    d.Exclusive := by
  intro j w thread answerDue hj
  rw [hd] at hj
  rcases getElem?_set_inv hj with ⟨rfl, rfl⟩ | ⟨hne, hj⟩
  · exact hself w thread answerDue rfl
  · exact hothers j hne (hx j w thread answerDue hj)

lemma getElem?_append_inv (h : (tasks ++ new)[j]? = some u) : tasks[j]? = some u ∨ u ∈ new := by
  by_cases hlt : j < tasks.length
  · rw [List.getElem?_append_left hlt] at h
    exact .inl h
  · rw [List.getElem?_append_right (Nat.le_of_not_lt hlt)] at h
    exact .inr (mem_of_getElem? h)

lemma getElem?_append_some (h : tasks[j]? = some u) : (tasks ++ new)[j]? = some u := by
  rw [List.getElem?_append_left (List.getElem?_eq_some_iff.1 h).1]
  exact h

lemma Exclusive.add (hx : e.Exclusive) (ht : t.phase = .fresh) : (e.add t).Exclusive := by
  intro j w thread answerDue hj
  rcases getElem?_append_inv hj with hj | hm
  · exact hx j w thread answerDue hj
  · cases mem_singleton.1 hm
    cases ht

lemma Exclusive.declared (hx : e.Exclusive) : (e.declared p).Exclusive := by
  have hspec := declared_spec e p
  obtain ⟨new, hn, hall⟩ := hspec.tasks
  intro j w thread answerDue hj
  rw [hspec.gate]
  rw [hn] at hj
  rcases getElem?_append_inv hj with hj | hm
  · exact hx j w thread answerDue hj
  · obtain ⟨timer, body, period, due, he, _⟩ := hall _ hm
    cases he

/-- Only the holder of the gate is active after a move. -/
lemma Move.exclusive (hx : e.Exclusive) (h : Move e id d) : d.Exclusive := by
  cases h with
  | stay => exact hx
  | refuse _ _ => exact hx.set rfl (fun _ _ hj => hj) nofun
  | call _ _ => exact hx.set rfl (fun _ _ hj => holder_request hj) nofun
  | miss _ _ | arm _ => exact hx.set rfl (fun _ _ hj => hj) nofun
  | summon _ _ => exact hx.set rfl (fun _ _ hj => holder_request hj) nofun
  | retire _ _ _ => exact hx.set rfl (fun _ hne hj => holder_withdraw hne hj) nofun
  | tick _ _ _ _ => exact hx.set rfl (fun _ _ hj => holder_request hj) nofun
  | @launch p _ hh =>
    rw [launch_eq]
    refine hx.declared.set rfl (fun _ _ hj => hj) ?_
    intro _ _ _ _
    exact (congrArg Gate.holder (declared_spec e p).gate).trans hh
  | respond _ hh | strike _ hh _ _ => exact hx.set rfl (fun _ _ hj => hj) (fun _ _ _ _ => hh)
  | conclude _ hw _ =>
    cases hw with
    | program | event
    | timer => exact hx.set rfl (fun _ hne hj => holder_withdraw hne hj) nofun
  | advance ht _ => exact hx.set rfl (fun _ _ hj => hj) (fun _ _ _ _ => hx _ _ _ _ ht)

end Invariants

lemma Reachable.fitting {e : Engine} (h : e.Reachable) : e.Fitting := by
  induction h with
  | fresh maxDepth host => exact nofun
  | act a _ ih =>
    cases a with
    | execute source => exact ih.add .source
    | trigger name => exact ih.add .trigger
    | step id => exact (step_move ih).fitting ih
    | _ => exact ih

lemma Reachable.exclusive {e : Engine} (h : e.Reachable) : e.Exclusive := by
  induction h with
  | fresh maxDepth host => exact nofun
  | @act e a hr ih =>
    cases a with
    | execute source | trigger name => exact ih.add rfl
    | step id => exact (step_move hr.fitting).exclusive ih
    | _ => exact ih

/-- Two states that differ at most in lifecycle, timers and host. -/
structure SameTables (s s' : State) : Prop where
  store : s'.store = s.store
  depth : s'.depth = s.depth
  maxDepth : s'.maxDepth = s.maxDepth

lemma SameTables.refl {s : State} : SameTables s s := ⟨rfl, rfl, rfl⟩

section Active

variable {e d : Engine} {id other : TaskId} {w : Work} {thread : Thread} {answerDue : Nat}

lemma getElem?_set_other {tasks : List Task} {t u : Task} (hne : id ≠ other)
    (h : tasks[id]? = some u) :
    (tasks.set other t)[id]? = some u := by
  rw [List.getElem?_set_ne hne.symm]
  exact h

/-- A task that begins has the gate: a timer, an event, or a program. -/
lemma begun_inv (hf : e.Fitting) (hidle : e.thread? id = none)
    (hid : (e.step id).tasks[id]? = some ⟨w, .active thread answerDue⟩) :
    (∃ timer body period due, w = .timer timer body period due ∧ thread = ⟨.block body, []⟩ ∧
        e.tasks[id]? = some ⟨w, .queued⟩ ∧ e.gate.holder = some id ∧
        e.state.timers.isCancelled timer = false) ∨
      (∃ body, w = .event body ∧ thread = ⟨.block body, []⟩ ∧ e.tasks[id]? = some ⟨w, .queued⟩) ∨
      ∃ p, w = .program p := by
  have idle {w thread answerDue} (ht : e.tasks[id]? = some ⟨w, .active thread answerDue⟩) :
      False := by
    rw [thread?, ht] at hidle
    cases hidle
  have replaced {tasks : List Task} {t : Task}
    (hs : (tasks.set id t)[id]? = some ⟨w, .active thread answerDue⟩) :
      t = ⟨w, .active thread answerDue⟩ := by
    rcases getElem?_set_inv hs with ⟨_, he⟩ | ⟨hne, _⟩
    · exact he.symm
    · exact (hne rfl).elim
  have hm : Move e id (e.step id) := step_move hf
  generalize e.step id = d at hm hid
  cases hm with
  | stay => exact (idle hid).elim
  | strike ht hh hc _ =>
    cases replaced hid
    exact .inl ⟨_, _, _, _, rfl, rfl, ht, hh, hc⟩
  | respond ht _ =>
    cases replaced hid
    exact .inr (.inl ⟨_, rfl, rfl, ht⟩)
  | launch _ _ =>
    rw [launch_eq] at hid
    cases replaced hid
    exact .inr (.inr ⟨_, rfl⟩)
  | conclude ht _ _ | advance ht _ => exact (idle ht).elim
  | refuse _ _ | call _ _ | miss _ _ | summon _ _ | arm _ | retire _ _ _ | tick _ _ _ _ =>
    cases replaced hid

/-- Moves of others leave an active task alone. -/
lemma Move.others (hx : e.Exclusive) (ht : e.tasks[id]? = some ⟨w, .active thread answerDue⟩)
    (hne : id ≠ other) (h : Move e other d) :
    d.tasks[id]? = some ⟨w, .active thread answerDue⟩ ∧ SameTables e.state d.state := by
  have hid := hx id w thread answerDue ht
  -- whoever begins, ends or continues a thread holds the gate, which the active task does
  have absurd (hh : e.gate.holder = some other) : False := hne (Option.some.inj (hid.symm.trans hh))
  cases h with
  | stay => exact ⟨ht, .refl⟩
  | refuse _ _ | call _ _ => exact ⟨getElem?_set_other hne ht, ⟨rfl, rfl, rfl⟩⟩
  | miss _ _ | summon _ _ | arm _ => exact ⟨getElem?_set_other hne ht, .refl⟩
  | retire _ _ _ => exact ⟨getElem?_set_other hne ht, ⟨rfl, rfl, rfl⟩⟩
  | tick _ _ _ _ => exact ⟨getElem?_set_other hne ht, .refl⟩
  | launch _ hh | respond _ hh | strike _ hh _ _ => exact (absurd hh).elim
  | conclude hj _ _ | advance hj _ => exact (absurd (hx _ _ _ _ hj)).elim

/-- An active task takes a step, or waits. -/
lemma Move.own (ht : e.tasks[id]? = some ⟨w, .active thread answerDue⟩)
    (ho : thread.outcome? = none) (h : Move e id d) :
    d = e ∨ ∃ next, d.tasks[id]? = some ⟨w, .active (thread.step e.state).1 next⟩ ∧
      d.state = (thread.step e.state).2 := by
  cases h with
  | stay => exact .inl rfl
  | @advance w' thread' answerDue' next hj _ =>
    have heq := Option.some.inj (ht.symm.trans hj)
    cases heq
    refine .inr ⟨next, ?_, rfl⟩
    exact List.getElem?_set_self (List.getElem?_eq_some_iff.1 ht).1
  | conclude hj _ ho' =>
    cases Option.some.inj (ht.symm.trans hj)
    rw [ho] at ho'
    cases ho'
  | retire hj hp _ =>
    cases Option.some.inj (ht.symm.trans hj)
    rcases hp with hp | hp <;> cases hp
  | refuse hj _ | call hj _ | miss hj _ | summon hj _ | arm hj | tick hj _ _ _ | launch hj _
  | respond hj _ | strike hj _ _ _ => cases Option.some.inj (ht.symm.trans hj)

/-- An action is a step of the thread, or leaves it alone. -/
lemma perform_active (hr : e.Reachable) (ht : e.tasks[id]? = some ⟨w, .active thread answerDue⟩)
    (ho : thread.outcome? = none) (a : Action) :
    ((∃ answerDue', (e.perform a).tasks[id]? = some ⟨w, .active thread answerDue'⟩) ∧
        SameTables e.state (e.perform a).state) ∨
      (∃ answerDue', (e.perform a).tasks[id]? =
        some ⟨w, .active (thread.step e.state).1 answerDue'⟩) ∧
        (e.perform a).state = (thread.step e.state).2 := by
  cases a with
  | execute source | trigger name => exact .inl ⟨⟨_, getElem?_append_some ht⟩, .refl⟩
  | step other =>
    by_cases hne : id = other
    · subst hne
      rcases (step_move hr.fitting).own ht ho with hd | ⟨next, hj, hs⟩
      · refine .inl ⟨⟨answerDue, ?_⟩, ?_⟩
        · rw [perform, hd]
          exact ht
        · rw [perform, hd]
          exact .refl
      · exact .inr ⟨⟨next, hj⟩, hs⟩
    · obtain ⟨hj, hs⟩ := (step_move hr.fitting).others hr.exclusive ht hne
      exact .inl ⟨⟨answerDue, hj⟩, hs⟩
  | _ => exact .inl ⟨⟨_, ht⟩, ⟨rfl, rfl, rfl⟩⟩

end Active

end Engine

end Colloquy
