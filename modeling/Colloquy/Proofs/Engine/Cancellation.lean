import Colloquy.Proofs.Engine.Halting

/-!
# Cancelled timers

A timer looks at its flag when it is due and once more when it has the gate. The flag is never
lowered (`Move.cancelled`), so a cancelled timer runs its body no more; one that does begin its body
is live (`ticks_iff`).
-/

namespace Colloquy

namespace Engine

/-- The next step of a task begins the body of a timer. -/
def Ticks (e : Engine) (id : TaskId) (timer : Nat) : Prop :=
  e.thread? id = none ∧
    ∃ body period due thread answerDue,
      (e.step id).tasks[id]? = some ⟨.timer timer body period due, .active thread answerDue⟩

/-- The timer with which a task waits for the gate or has got it. -/
def queuedTimer? (e : Engine) (id : TaskId) : Option Nat :=
  match e.tasks[id]? with
  | some ⟨.timer timer .., .queued⟩ => some timer
  | _ => none

section Flags

variable {e d : Engine} {id : TaskId} {timer : Nat}

lemma mem_cancelAll_cancelled {r : Registry} (h : timer ∈ r.cancelled) :
    timer ∈ r.cancelAll.2.cancelled :=
  List.mem_append_right _ h

section

variable (hr : e.Reachable) (h : timer ∈ e.state.timers.cancelled)
include hr h

lemma Move.cancelled (hm : Move e id d) : timer ∈ d.state.timers.cancelled := by
  cases hm.turn hr.fitting hr.orderly with
  | same _ _ hsame => exact hsame ▸ h
  | stopped _ _ hall => exact hall ▸ mem_cancelAll_cancelled h
  | ended _ _ hsame | launched _ _ hsame | responded _ _ _ hsame => exact hsame ▸ h

lemma perform_cancelled (a : Action) : timer ∈ (e.perform a).state.timers.cancelled := by
  cases a with
  | stop => exact mem_cancelAll_cancelled h
  | step id => exact (step_move hr.fitting).cancelled hr h
  | _ => exact h

lemma run_cancelled (actions : List Action) : timer ∈ (e.run actions).state.timers.cancelled := by
  induction actions generalizing e with
  | nil => exact h
  | cons a actions ih => exact ih (.act a hr) (perform_cancelled hr h a)

end

lemma RequestsHalt.cancels {a : Action} (hr : e.Reachable) (ha : e.RequestsHalt a)
    {t : Task} (ht : t ∈ e.tasks) (htimer : t.timer? = some timer) :
    timer ∈ (e.perform a).state.timers.cancelled := by
  rw [ha.stops.2.2]
  exact List.mem_append.2 (hr.enlisted t ht timer htimer)

end Flags

section Ticks

variable {e : Engine} {id : TaskId} {timer : Nat}

/-- A queued timer is a task at the gate. -/
lemma queuedTimer?_eq_some_iff : e.queuedTimer? id = some timer ↔
      ∃ body period due, e.tasks[id]? = some ⟨.timer timer body period due, .queued⟩ := by
  unfold queuedTimer?
  constructor
  · intro h
    split at h
    · rename_i timer' body period due ht
      cases h
      exact ⟨body, period, due, ht⟩
    · cases h
  · rintro ⟨body, period, due, ht⟩
    rw [ht]

/-- A timer that begins its body has the gate and is not cancelled. -/
lemma Ticks.inv (hf : e.Fitting) (h : e.Ticks id timer) :
    ∃ body period due, e.tasks[id]? = some ⟨.timer timer body period due, .queued⟩ ∧
    e.gate.holder = some id ∧ e.state.timers.isCancelled timer = false := by
  obtain ⟨hidle, body, period, due, thread, answerDue, hid⟩ := h
  rcases begun_inv hf hidle hid with ⟨_, _, _, _, hw, _, ht, hh, hc⟩ | ⟨_, hw, _⟩ | ⟨_, hw⟩
  · cases hw
    exact ⟨body, period, due, ht, hh, hc⟩
  · cases hw
  · cases hw

lemma step_strike {body : List Stmt} {period due : Nat} (hr : e.Reachable)
    (ht : e.tasks[id]? = some ⟨.timer timer body period due, .queued⟩)
    (hh : e.gate.holder = some id) (hl : timer ∈ e.state.timers.live) :
    e.step id = e.put id ⟨.timer timer body period due, .active ⟨.block body, []⟩ 0⟩ := by
  have hc : e.state.timers.isCancelled timer = false :=
    decide_eq_false (hr.orderly.registry.disjoint timer hl)
  have hrun : e.state.running = true := hr.orderly.running_of_live (List.ne_nil_of_mem hl)
  simp only [step, ht, passGate, isCancelled, hc, hh, hrun,
    Bool.false_eq_true, ne_eq, not_true_eq_false, if_false, if_true]

/-- The timers that begin their bodies are those that have the gate and are live. -/
lemma ticks_iff (hr : e.Reachable) : e.Ticks id timer ↔
      e.queuedTimer? id = some timer ∧ e.gate.holder = some id ∧ timer ∈ e.state.timers.live := by
  constructor
  · intro h
    obtain ⟨body, period, due, ht, hh, hc⟩ := h.inv hr.fitting
    refine ⟨queuedTimer?_eq_some_iff.2 ⟨body, period, due, ht⟩, hh, ?_⟩
    rcases hr.enlisted _ (List.mem_of_getElem? ht) timer rfl with hl | hm
    · exact hl
    · exact (of_decide_eq_false hc hm).elim
  · rintro ⟨hq, hh, hl⟩
    obtain ⟨body, period, due, ht⟩ := queuedTimer?_eq_some_iff.1 hq
    refine ⟨?_, body, period, due, ⟨.block body, []⟩, 0, ?_⟩
    · simp only [thread?, ht]
    · rw [step_strike hr ht hh hl]
      exact List.getElem?_set_self (List.getElem?_eq_some_iff.1 ht).1

end Ticks

/-- In every run, a request to halt cancels every timer that has not ended; a cancelled timer never
begins its body again; and a timer that has got the gate begins its body exactly if it is live, and
then a program runs that is not to halt. -/
theorem cancelled_timer_never_ticks {e : Engine} (hr : e.Reachable) (timer : Nat) :
    (∀ a t, e.RequestsHalt a → t ∈ e.tasks → t.timer? = some timer →
        (e.perform a).state.timers.isCancelled timer = true) ∧
      (e.state.timers.isCancelled timer = true → ∀ actions id, ¬ (e.run actions).Ticks id timer) ∧
      (∀ id, e.Ticks id timer ↔
        e.queuedTimer? id = some timer ∧ e.gate.holder = some id ∧ timer ∈ e.state.timers.live) ∧
      ∀ id, e.Ticks id timer →
        (e.step id).state = e.state ∧ e.state.running = true ∧ e.state.halted = false := by
  refine ⟨fun a t ha ht htimer => decide_eq_true (ha.cancels hr ht htimer),
    ?_, fun id => ticks_iff hr, ?_⟩
  · intro hc actions id hticks
    have hflag : timer ∈ (e.run actions).state.timers.cancelled :=
      run_cancelled hr (of_decide_eq_true hc) actions
    obtain ⟨_, _, _, _, _, hno⟩ := hticks.inv (hr.run actions).fitting
    exact of_decide_eq_false hno hflag
  · intro id hticks
    obtain ⟨hq, hh, hl⟩ := (ticks_iff hr).1 hticks
    obtain ⟨body, period, due, ht⟩ := queuedTimer?_eq_some_iff.1 hq
    have hrun : e.state.running = true := hr.orderly.running_of_live (List.ne_nil_of_mem hl)
    refine ⟨?_, hrun, hr.orderly.not_halted hrun⟩
    rw [step_strike hr ht hh hl]
    rfl

/-- An engine whose timer has fallen due and has got the gate. -/
def struck : Engine := ticking.run [.wait 1000, .step 1]

/-- The timer runs its body if it is let, and never after a stop. -/
theorem struck_ticks_unless_stopped :
    struck.Reachable ∧ struck.Ticks 1 1 ∧ struck.state.running = true ∧
      ∀ actions id, ¬ ((struck.perform .stop).run actions).Ticks id 1 := by
  have hr : struck.Reachable := ((Reachable.fresh defaultDepth {}).run _).run _
  obtain ⟨hcancels, _, hiff, hlifecycle⟩ := cancelled_timer_never_ticks hr 1
  have hticks : struck.Ticks 1 1 := (hiff 1).2 (by decide +kernel)
  obtain ⟨body, period, due, ht, _⟩ := hticks.inv hr.fitting
  have hc : (struck.perform .stop).state.timers.isCancelled 1 = true :=
    hcancels .stop _ .stop (List.mem_of_getElem? ht) rfl
  exact ⟨hr, hticks, (hlifecycle 1 hticks).2.1,
    (cancelled_timer_never_ticks (.act .stop hr) 1).2.1 hc⟩

end Engine

end Colloquy
