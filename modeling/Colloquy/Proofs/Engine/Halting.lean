import Colloquy.Proofs.Machine.Halting
import Colloquy.Proofs.Engine.Lifecycle
import Colloquy.Proofs.Engine.Queue

/-!
# Halting the sequence behind the gate

A stop, a program that ends itself, and the call of another program request the sequence behind the
gate to halt (`RequestsHalt`). The request stands until the sequence has given up the gate
(`perform_halted`), and meanwhile nothing is started.
-/

namespace Colloquy

open Option

namespace Engine

/-- An action requests a halt: a stop, a call that ends the program, or the call of another
program. -/
inductive RequestsHalt (e : Engine) : Action → Prop where
  | stop :
    RequestsHalt e .stop
  | terminate {id t args} :
    e.thread? id = some t →
    t.Calls e.state Builtin.terminate.name args →
    RequestsHalt e (.step id)
  | execute {id text p} :
    e.tasks[id]? = some ⟨.source text, .fresh⟩ →
    compile text = .ok p →
    RequestsHalt e (.step id)

/-- The next step of a task starts a statement or a round. -/
def Starts (e : Engine) (id : TaskId) : Prop := ∃ t, e.thread? id = some t ∧ t.Starts e.state

/-- The engines that follow as long as a task holds the gate. -/
inductive Holding (id : TaskId) (e : Engine) : Engine → Prop where
  | refl :
    Holding id e e
  | act {d : Engine} (a : Action) :
    Holding id e d →
    (d.perform a).gate.holder = some id →
    Holding id e (d.perform a)

/-- What a move does to the lifecycle. -/
inductive Turn (e : Engine) (id : TaskId) (d : Engine) : Prop where
  | same :
    d.state.running = e.state.running →
    d.state.halted = e.state.halted →
    d.state.timers = e.state.timers →
    Turn e id d
  | stopped :
    d.state.running = false →
    d.state.halted = true →
    d.state.timers = e.state.timers.cancelAll.2 →
    Turn e id d
  /-- A program has come to its end and leaves no timers behind. -/
  | ended :
    d.state.running = false →
    d.state.halted = e.state.halted →
    d.state.timers = e.state.timers →
    Turn e id d
  | launched {p} :
    e.tasks[id]? = some ⟨.program p, .queued⟩ →
    e.gate.holder = some id →
    d.state.timers.cancelled = e.state.timers.cancelled →
    Turn e id d
  | responded {body} :
    e.tasks[id]? = some ⟨.event body, .queued⟩ →
    e.gate.holder = some id →
    d.state.running = e.state.running →
    d.state.timers = e.state.timers →
    Turn e id d

/-- A move leaves the lifecycle alone, stops the program, or begins or ends a sequence. -/
lemma Move.turn {e d : Engine} {id : TaskId} (hf : e.Fitting) (ho : e.Orderly) (h : Move e id d) :
    Turn e id d := by
  cases h with
  | call _ _ => exact .stopped rfl rfl rfl
  | retire _ _ hc => exact .same rfl rfl (ho.complete_eq hc)
  | @launch p ht hh => exact .launched ht hh (declared_spec e p).cancelled
  | respond ht hh => exact .responded ht hh rfl rfl
  | @conclude w thread answerDue outcome _ hw _ =>
    have hrun : (reportOutcome e.state outcome).running = e.state.running := by
      cases outcome <;> rfl
    have hhalt : (reportOutcome e.state outcome).halted = e.state.halted := by cases outcome <;> rfl
    have htim : (reportOutcome e.state outcome).timers = e.state.timers := reportOutcome_timers
    cases hw with
    | program =>
      simp only [Engine.conclude]
      split
      · exact .ended rfl hhalt htim
      · exact .same hrun hhalt htim
    | event | timer => exact .same hrun hhalt htim
  | advance ht _ =>
    cases hf _ (List.mem_of_getElem? ht) with
    | active _ ty =>
      rcases (Thread.step_change (s := e.state) ty).lifecycle with
        ⟨hrun, hhalt, htim⟩ | ⟨hrun, hhalt, htim⟩
      · exact .same hrun hhalt htim
      · exact .stopped hrun hhalt htim
  | _ => exact .same rfl rfl rfl

section Requests

variable {e d : Engine} {id other : TaskId} {a : Action}

/-- A request stops the program and cancels all timers. -/
lemma RequestsHalt.stops (h : e.RequestsHalt a) :
    (e.perform a).state.running = false ∧ (e.perform a).state.halted = true ∧
      (e.perform a).state.timers = e.state.timers.cancelAll.2 := by
  cases h with
  | stop => exact ⟨rfl, rfl, rfl⟩
  | terminate ht hc =>
    obtain ⟨ho, ha⟩ := hc.awake
    have hs := (step_thread ht ho ha).2
    rw [perform, hs, hc.terminate]
    exact ⟨rfl, rfl, rfl⟩
  | execute ht hp =>
    simp only [perform, step, ht, begin, hp]
    exact ⟨rfl, rfl, rfl⟩

lemma Reachable.holder_of_thread? (hr : e.Reachable) (hid : (e.thread? id).isSome = true) :
    e.gate.holder = some id := by
  obtain ⟨thread, ht⟩ := isSome_iff_exists.1 hid
  obtain ⟨w, answerDue, ht⟩ := thread?_inv ht
  exact hr.exclusive id w thread answerDue ht

/-- The sequence is still under way after a request. -/
lemma RequestsHalt.thread? (hr : e.Reachable) (h : e.RequestsHalt a)
    (hid : (e.thread? id).isSome = true) :
    ((e.perform a).thread? id).isSome = true := by
  obtain ⟨thread, ht⟩ := isSome_iff_exists.1 hid
  cases h with
  | stop => exact hid
  | @terminate other t args ht' hc =>
    have hother : e.gate.holder = some other := hr.holder_of_thread? (isSome_iff_exists.2 ⟨t, ht'⟩)
    cases Option.some.inj ((hr.holder_of_thread? hid).symm.trans hother)
    obtain ⟨ho, ha⟩ := hc.awake
    rw [perform, (step_thread ht' ho ha).1]
    rfl
  | @execute other text p hfresh _ =>
    obtain ⟨w, answerDue, ht⟩ := thread?_inv ht
    have hne : id ≠ other := by
      rintro rfl
      cases Option.some.inj (ht.symm.trans hfresh)
    exact thread?_isSome ((step_move hr.fitting).others hr.exclusive ht hne).1

/-- The request stands after a move. -/
lemma Move.halted (hr : e.Reachable) (hid : (e.thread? id).isSome = true)
    (hh : e.state.halted = true) (h : Move e other d) : d.state.halted = true := by
  obtain ⟨thread, ht⟩ := isSome_iff_exists.1 hid
  obtain ⟨w, answerDue, ht⟩ := thread?_inv ht
  -- those who take the request back wait for the gate, and the task that holds it does not
  have waits {v : Work} (hq : e.tasks[other]? = some ⟨v, .queued⟩)
      (hg : e.gate.holder = some other) : False := by
    cases Option.some.inj ((hr.holder_of_thread? hid).symm.trans hg)
    cases Option.some.inj (ht.symm.trans hq)
  cases h.turn hr.fitting hr.orderly with
  | same _ hsame _ => exact hsame.trans hh
  | stopped _ hstop _ => exact hstop
  | ended _ hsame _ => exact hsame.trans hh
  | launched hq hg _ | responded hq hg _ _ => exact (waits hq hg).elim

lemma perform_halted (hr : e.Reachable) (hid : (e.thread? id).isSome = true)
    (hh : e.state.halted = true) (a : Action) :
    (e.perform a).state.halted = true := by
  cases a with
  | stop => rfl
  | step other => exact (step_move hr.fitting).halted hr hid hh
  | _ => exact hh

lemma not_starts (hh : e.state.halted = true) : ¬ e.Starts id := by
  rintro ⟨t, _, hs⟩
  have hgo := (Thread.starts_iff.1 hs).2
  rw [hh] at hgo
  cases hgo

lemma Holding.reachable (hr : e.Reachable) (h : Holding id e d) : d.Reachable := by
  induction h with
  | refl => exact hr
  | act a _ _ ih => exact .act a ih

lemma Holding.thread? (hr : e.Reachable) (hid : (e.thread? id).isSome = true) (h : Holding id e d) :
    (d.thread? id).isSome = true := by
  induction h with
  | refl => exact hid
  | act a h hh ih => exact perform_goes_on (h.reachable hr) ih hh

lemma Holding.halted (hr : e.Reachable) (hid : (e.thread? id).isSome = true)
    (hh : e.state.halted = true) (h : Holding id e d) : d.state.halted = true := by
  induction h with
  | refl => exact hh
  | act a h _ ih => exact perform_halted (h.reachable hr) (h.thread? hr hid) ih a

end Requests

/-- When a sequence behind the gate is requested to halt, then until it gives up the gate nobody
takes the request back, and no statement and no round of a loop is started, at any depth of
calls. -/
theorem halted_sequence_starts_nothing {e : Engine} {id : TaskId} {a : Action} (hr : e.Reachable)
    (hid : (e.thread? id).isSome = true) (ha : e.RequestsHalt a) :
    (e.perform a).gate.holder = some id ∧ ∀ d, Holding id (e.perform a) d →
      (d.thread? id).isSome = true ∧ d.state.halted = true ∧ (∀ other, ¬ d.Starts other) ∧
        ∀ b, (d.perform b).state.halted = true := by
  have hr' : (e.perform a).Reachable := .act a hr
  have hid' : ((e.perform a).thread? id).isSome = true := ha.thread? hr hid
  refine ⟨hr'.holder_of_thread? hid', fun d hd => ?_⟩
  have hdid : (d.thread? id).isSome = true := hd.thread? hr' hid'
  have hh : d.state.halted = true := hd.halted hr' hid' ha.stops.2.1
  exact ⟨hdid, hh, fun other => not_starts hh, fun b => perform_halted (hd.reachable hr') hdid hh b⟩

/-- Whether a task holds the gate after each of some actions. -/
def holdsOn (id : TaskId) : List Action → Engine → Bool
  | [], _ => true
  | a :: as, e => (e.perform a).gate.holder == some id && holdsOn id as (e.perform a)

lemma Holding.run {e d : Engine} {id : TaskId} {actions : List Action} (h : Holding id e d)
    (hg : holdsOn id actions d = true) : Holding id e (d.run actions) := by
  induction actions generalizing d with
  | nil => exact h
  | cons a as ih =>
    obtain ⟨ha, hg⟩ := Bool.and_eq_true_iff.1 hg
    exact ih (.act a h (eq_of_beq ha)) hg

/-- A timer amid its body, where a question is open and a message comes next. -/
def prompted : Engine :=
  (fresh defaultDepth { answers := ["7"] }).run
    ([.delay 20,
    .execute "every 1 seconds:\n    ask \"q\" and store result in global a\n    say a\n"] ++
      List.replicate 4 (.step 0) ++ .step 1 :: .wait 1000 :: List.replicate 7 (.step 1))

/-- The answer comes, and is stored. -/
def answering : List Action := .wait 20 :: List.replicate 3 (.step 1)

/-- After a stop the answer is stored, and the message is not begun. -/
theorem prompted_starts_nothing :
    prompted.Reachable ∧ ((prompted.perform .stop).run answering).state.store.globals.length = 1 ∧
      (((prompted.perform .stop).run answering).thread? 1).any (fun t => t.control.isReady) = true ∧
      ¬ ((prompted.perform .stop).run answering).Starts 1 := by
  have hr : prompted.Reachable := (Reachable.fresh defaultDepth { answers := ["7"] }).run _
  have hrun : (prompted.thread? 1).isSome = true ∧
    holdsOn 1 answering (prompted.perform .stop) = true ∧
      ((prompted.perform .stop).run answering).state.store.globals.length = 1 ∧
      (((prompted.perform .stop).run answering).thread? 1).any
        (fun t => t.control.isReady) = true := by
    decide +kernel
  obtain ⟨hid, hholds, hstored, hready⟩ := hrun
  exact ⟨hr, hstored, hready,
    ((halted_sequence_starts_nothing hr hid .stop).2 _ (Holding.refl.run hholds)).2.2.1 1⟩

end Engine

end Colloquy
