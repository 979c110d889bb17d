import Colloquy.Proofs.Engine.Isolation
import Colloquy.Proofs.Engine.Halting

/-!
# Getting the gate

A sequence that is stopped comes to its end (`exists_handsOver_of_active`). So whoever holds the
gate can be made to hand it over, and everyone in the row can get it with their work
(`exists_admitted`).
-/

namespace Colloquy

open List

namespace Engine

/-- The engines that follow while only certain tasks begin programs. -/
inductive Meanwhile (allowed : TaskId → Prop) (e : Engine) : Engine → Prop where
  | refl :
    Meanwhile allowed e e
  | act {d : Engine} (a : Action) :
    Meanwhile allowed e d →
    (∀ id p, a = .step id → d.Launches id p → allowed id) →
    Meanwhile allowed e (d.perform a)

/-- A task has handed the gate to the next, and the others are where they were. -/
structure HandsOver (id : TaskId) (e d : Engine) : Prop where
  gate : d.gate = e.gate.release
  others : ∀ other t, other ≠ id → e.tasks[other]? = some t → d.tasks[other]? = some t

section Meanwhile

variable {allowed : TaskId → Prop} {e d d' : Engine} {id : TaskId}

lemma Meanwhile.reachable (hr : e.Reachable) (h : Meanwhile allowed e d) : d.Reachable := by
  induction h with
  | refl => exact hr
  | act a _ _ ih => exact .act a ih

lemma Meanwhile.trans (h : Meanwhile allowed e d) (h' : Meanwhile allowed d d') :
    Meanwhile allowed e d' := by
  induction h' with
  | refl => exact h
  | act a _ hl ih => exact .act a ih hl

lemma Meanwhile.step (hl : ∀ p, e.tasks[id]? = some ⟨.program p, .queued⟩ → allowed id) :
    Meanwhile allowed e (e.step id) := by
  refine .act (.step id) .refl ?_
  rintro _ p ⟨⟩ hp
  exact hl p hp.1

lemma Meanwhile.exists_run (h : Meanwhile allowed e d) : ∃ actions, d = e.run actions := by
  induction h with
  | refl => exact ⟨[], rfl⟩
  | act a _ _ ih =>
    obtain ⟨actions, rfl⟩ := ih
    exact ⟨actions ++ [a], by simp [run]⟩

lemma Move.getElem?_other {other : TaskId} {t : Task} (h : Move e id d) (hne : other ≠ id)
    (ht : e.tasks[other]? = some t) : d.tasks[other]? = some t := by
  cases h with
  | stay => exact ht
  | @launch p _ _ =>
    obtain ⟨new, hn, _⟩ := (declared_spec e p).tasks
    have ht' : (e.declared p).tasks[other]? = some t := hn ▸ getElem?_append_some ht
    exact getElem?_set_other hne ht'
  | @conclude w thread answerDue outcome _ hw _ => cases hw <;> exact getElem?_set_other hne ht
  | _ => exact getElem?_set_other hne ht

lemma HandsOver.after {e1 : Engine} (h : HandsOver id e1 d) (hg : e1.gate = e.gate)
    (hothers : ∀ other t, other ≠ id → e.tasks[other]? = some t → e1.tasks[other]? = some t) :
    HandsOver id e d where
  gate := hg ▸ h.gate
  others := fun other t hne ht => h.others other t hne (hothers other t hne ht)

end Meanwhile

section Progress

variable (allowed : TaskId → Prop) {e : Engine} {id : TaskId} {w : Work}
  {thread : Thread} {answerDue : Nat}

lemma launch_getElem? {p : Program} {t : Task} (ht : e.tasks[id]? = some t) :
    (e.launch id p).tasks[id]? =
      some ⟨.program p, .active (mainThread p (e.declared p).state) 0⟩ := by
  obtain ⟨new, hn, _⟩ := (declared_spec e p).tasks
  rw [launch_eq]
  refine List.getElem?_set_self ?_
  rw [hn, length_append]
  exact Nat.lt_add_right _ (List.getElem?_eq_some_iff.1 ht).1

lemma step_respond {body : List Stmt} (ht : e.tasks[id]? = some ⟨.event body, .queued⟩)
    (hh : e.gate.holder = some id) :
    e.step id =
      { e.put id ⟨.event body, .active ⟨.block body, []⟩ 0⟩ with
        state := { e.state with halted := false } } := by
  simp [step, ht, passGate, isCancelled, hh]

/-- A step of a thread that is not waiting is taken. -/
lemma step_advance (ht : e.tasks[id]? = some ⟨w, .active thread answerDue⟩)
    (ho : thread.outcome? = none) (hc : answerDue ≤ e.now) :
    ∃ next, e.step id =
      { e.put id ⟨w, .active (thread.step e.state).1 next⟩ with
        state := (thread.step e.state).2 } := by
  have hs : e.step id = e.advance id ⟨w, .active thread answerDue⟩ thread answerDue := by
    rw [step, ht]
  have hwait : (thread.isAnswered && decide (e.now < answerDue)) = false := by
    rw [decide_eq_false (Nat.not_lt.2 hc), Bool.and_false]
  rw [hs, advance, ho]
  simp only [hwait, Bool.false_eq_true, if_false]
  exact ⟨_, rfl⟩

section

variable (hr : e.Reachable) (ht : e.tasks[id]? = some ⟨w, .active thread answerDue⟩)
include hr ht

/-- A sequence that is over hands on the gate. -/
lemma handsOver_of_outcome {outcome : Outcome} (ho : thread.outcome? = some outcome) :
    HandsOver id e (e.step id) := by
  refine ⟨?_, fun other t hne hj => (step_move hr.fitting).getElem?_other hne hj⟩
  have hs : e.step id = e.conclude id ⟨w, .active thread answerDue⟩ outcome := by
    simp only [step, ht, advance, ho]
  have hgate : e.gate.withdraw id = e.gate.release := by
    rw [Gate.withdraw, if_pos (hr.exclusive id w thread answerDue ht)]
  rw [hs]
  cases hr.fitting _ (mem_of_getElem? ht) with
  | active hw _ => cases hw <;> exact hgate

/-- A sequence that is to halt comes to its end. -/
lemma exists_handsOver_of_halted (hh : e.state.halted = true) :
    ∃ d, Meanwhile allowed e d ∧ HandsOver id e d := by
  -- the steps that are left become fewer; time passes until the answer to a prompt is there
  induction hn : thread.remaining using Nat.strongRecOn generalizing e thread answerDue with
  | _ n ih =>
    cases ho : thread.outcome? with
    | some outcome =>
      refine ⟨e.step id, .step fun p hp => ?_, handsOver_of_outcome hr ht ho⟩
      cases Option.some.inj (ht.symm.trans hp)
    | none =>
      have hr1 : (e.perform (.elapse answerDue)).Reachable := .act _ hr
      have ht1 : (e.perform (.elapse answerDue)).tasks[id]? = some ⟨w, .active thread answerDue⟩ :=
        ht
      obtain ⟨next, hstep⟩ := step_advance ht1 ho (Nat.le_add_left answerDue e.now)
      have hlt : (thread.step e.state).1.remaining < n := hn ▸ Thread.step_remaining hh ho
      have ht2 : ((e.perform (.elapse answerDue)).step id).tasks[id]? =
          some ⟨w, .active (thread.step e.state).1 next⟩ := by
        rw [hstep]
        exact List.getElem?_set_self (List.getElem?_eq_some_iff.1 ht).1
      have hh2 : ((e.perform (.elapse answerDue)).step id).state.halted = true :=
        perform_halted hr1 (thread?_isSome ht1) hh (.step id)
      obtain ⟨d, hm, hover⟩ := ih _ hlt (hr1.step id) ht2 hh2 rfl
      have hfirst : Meanwhile allowed e (e.perform (.elapse answerDue)) :=
        .act _ .refl (by rintro _ _ ⟨⟩)
      have hsecond : Meanwhile allowed (e.perform (.elapse answerDue))
          ((e.perform (.elapse answerDue)).step id) := by
        refine .step fun p hp => ?_
        cases Option.some.inj (ht.symm.trans hp)
      refine ⟨d, (hfirst.trans hsecond).trans hm, hover.after ?_ ?_⟩
      · rw [hstep]
        rfl
      · exact fun other t hne hj => (step_move hr1.fitting).getElem?_other hne hj

lemma exists_handsOver_of_active : ∃ d, Meanwhile allowed e d ∧ HandsOver id e d := by
  obtain ⟨d, hm, hover⟩ := exists_handsOver_of_halted allowed (hr.act .stop) ht rfl
  have hfirst : Meanwhile allowed e (e.perform .stop) := .act _ .refl (by rintro _ _ ⟨⟩)
  exact ⟨d, hfirst.trans hm, hover.after rfl fun _ _ _ hj => hj⟩

end

lemma exists_handsOver_of_step {e1 : Engine} (hr : e.Reachable)
    (hl : ∀ p, e.tasks[id]? = some ⟨.program p, .queued⟩ → allowed id) (hs : e.step id = e1)
    (hg : e1.gate = e.gate) (ht : e1.tasks[id]? = some ⟨w, .active thread answerDue⟩) :
    ∃ d, Meanwhile allowed e d ∧ HandsOver id e d := by
  subst hs
  obtain ⟨d, hm, hover⟩ := exists_handsOver_of_active allowed (hr.step id) ht
  refine ⟨d, (Meanwhile.step hl).trans hm, hover.after hg ?_⟩
  exact fun other t hne hj => (step_move hr.fitting).getElem?_other hne hj

/-- Whoever holds the gate can be made to hand it over. -/
lemma exists_handsOver (hr : e.Reachable) (hh : e.gate.holder = some id)
    (hl : ∀ p, e.tasks[id]? = some ⟨.program p, .queued⟩ → allowed id) :
    ∃ d, Meanwhile allowed e d ∧ HandsOver id e d := by
  obtain ⟨t, ht, hat⟩ := (hr.lined.mem_iff id).1 (Gate.mem_row_of_holder hh)
  have hlt : id < e.tasks.length := (List.getElem?_eq_some_iff.1 ht).1
  cases hr.fitting t (mem_of_getElem? ht) with
  | active hw ty => exact exists_handsOver_of_active allowed hr ht
  | queued hw =>
    cases hw with
    | @program p =>
      have hs : e.step id = e.launch id p := Launches.step_eq ⟨ht, hh⟩
      exact exists_handsOver_of_step allowed hr hl hs (declared_spec e p).gate (launch_getElem? ht)
    | @event body =>
      exact exists_handsOver_of_step allowed hr hl (step_respond ht hh) rfl
        (List.getElem?_set_self hlt)
    | @timer timer body period due =>
      by_cases hgone : e.state.timers.isCancelled timer = true ∨ e.state.running = false
      · have hs : e.step id = e.retire id ⟨.timer timer body period due, .queued⟩ := by
          rcases hgone with hc | hrun
          · simp [step, ht, passGate, isCancelled, hc]
          · simp [step, ht, passGate, isCancelled, hh, hrun]
        refine ⟨e.step id, .step hl, ?_, fun other t hne hj =>
          (step_move hr.fitting).getElem?_other hne hj⟩
        rw [hs]
        exact if_pos hh
      · obtain ⟨hc, hrun⟩ := not_or.1 hgone
        have hs :
            e.step id = e.put id ⟨.timer timer body period due, .active ⟨.block body, []⟩ 0⟩ := by
          simp [step, ht, passGate, isCancelled, hh, hc, Bool.not_eq_false _ ▸ hrun]
        exact exists_handsOver_of_step allowed hr hl hs rfl (List.getElem?_set_self hlt)
  | _ => cases hat

/-- Everyone in the row can get the gate with their work. -/
lemma exists_admitted {ahead behind : List TaskId} {t : Task} (hr : e.Reachable)
    (hrow : e.gate.row = ahead ++ id :: behind) (ht : e.tasks[id]? = some t)
    (hl : ∀ other ∈ ahead, ∀ p, e.tasks[other]? = some ⟨.program p, .queued⟩ → allowed other) :
    ∃ d, Meanwhile allowed e d ∧ d.gate.holder = some id ∧ d.tasks[id]? = some t := by
  induction ahead generalizing e with
  | nil => exact ⟨e, .refl, (hr.lined.manned.holder_eq hrow).1, ht⟩
  | cons first ahead ih =>
    rw [cons_append] at hrow
    obtain ⟨hh, hwaiting⟩ := hr.lined.manned.holder_eq hrow
    obtain ⟨d, hm, hover⟩ := exists_handsOver allowed hr hh (hl first mem_cons_self)
    have hnodup : (first :: (ahead ++ id :: behind)).Nodup := hrow ▸ hr.lined.nodup
    have hout : first ∉ ahead ++ id :: behind := (nodup_cons.1 hnodup).1
    have hid : id ≠ first := by
      rintro rfl
      exact hout (mem_append_right _ mem_cons_self)
    have hrow' : d.gate.row = ahead ++ id :: behind := by
      rw [hover.gate, Gate.row_release, hwaiting]
    have hl' : ∀ other ∈ ahead, ∀ p, d.tasks[other]? = some ⟨.program p, .queued⟩ →
        allowed other := by
      intro other hmem p hp
      have hne : other ≠ first := by
        rintro rfl
        exact hout (mem_append_left _ hmem)
      have hin : other ∈ e.gate.row := hrow ▸ mem_cons_of_mem _ (mem_append_left _ hmem)
      obtain ⟨t', ht', _⟩ := (hr.lined.mem_iff other).1 hin
      cases Option.some.inj ((hover.others other t' hne ht').symm.trans hp)
      exact hl other (mem_cons_of_mem _ hmem) p ht'
    obtain ⟨d', hm', hholder, htask⟩ := ih (hm.reachable hr) hrow' (hover.others id t hid ht) hl'
    exact ⟨d', hm.trans hm', hholder, htask⟩

end Progress

end Engine

end Colloquy
