import Colloquy.Proofs.Machine.Noninterference
import Colloquy.Proofs.Engine.Scope

/-!
# Noninterference of the caller's variables

An engine with a call under way is one without it that is `hosting` the call for some caller, and
actions lead to the same engine and the same call for every caller (`exists_perform`). So nothing
that a caller's variables hold ever reaches the function.
-/

namespace Colloquy

open List

namespace Call

variable {g : State → State} {k : Call} {u₁ u₂ : Caller}

/-- A call after a change of the state. -/
def map (g : State → State) : Call → Call
  | inside t s depth detached => inside t (g s) depth detached
  | finished result s => finished result (g s)

/-- A change of the state that is the same for all callers. -/
structure Blind (g : State → State) : Prop where
  within : ∀ (s : State) (u : Caller), g (s.within u) = (g s).within u
  amid : ∀ (s : State) (u : Caller), g (s.amid u.events u.past) = (g s).amid u.events u.past

lemma map_amid (hg : Blind g) {u : Caller} : ((k.amid u).1, g (k.amid u).2) = (k.map g).amid u := by
  cases k with
  | inside t s depth detached => exact congrArg (Prod.mk _) (hg.amid s u)
  | finished result s => exact congrArg (Prod.mk _) (hg.within s u)

lemma Typed.map (hk : k.Typed) : (k.map g).Typed := by
  cases hk with
  | inside ty => exact .inside ty
  | finished => exact .finished

/-- The state of a call by itself. -/
def state : Call → State
  | inside _ s _ _ => s
  | finished _ s => s

section Fields

variable {k : Call} {u : Caller}

@[simp] lemma amid_events : (k.amid u).2.store.events = u.events := by cases k <;> rfl

@[simp] lemma amid_running : (k.amid u).2.running = k.state.running := by cases k <;> rfl

@[simp] lemma amid_timers : (k.amid u).2.timers = k.state.timers := by cases k <;> rfl

@[simp] lemma amid_heard : (k.amid u).2.host.heard = k.state.host.heard ++ u.past := by
  cases k <;> rfl

lemma amid_agrees {u₁ u₂ : Caller} : (k.amid u₁).2.Agrees (k.amid u₂).2 := by
  cases k <;> exact ⟨rfl, rfl, rfl, rfl, rfl, rfl, rfl, rfl, rfl⟩

end Fields

/-- A call runs alike for every caller. -/
lemma exists_runFor (hk : k.Typed) (n : Nat) :
    ∃ k' : Call, ∀ u : Caller, u.frames = [] → Thread.runFor n (k.amid u) = k'.amid u := by
  induction n generalizing k with
  | zero => exact ⟨k, fun _ _ => rfl⟩
  | succ n ih =>
    cases hk with
    | @inside t s depth detached ty =>
      obtain ⟨next, hnext, hstep⟩ := step_amid ty s depth detached
      obtain ⟨k', hk'⟩ := ih hnext
      refine ⟨k', fun u hu => ?_⟩
      rw [Thread.runFor, hstep u]
      exact hk' u hu
    | @finished result s =>
      obtain ⟨k', hk'⟩ := ih (k := finished result s) .finished
      refine ⟨k', fun u hu => ?_⟩
      -- a thread without frames that has its outcome stays as it is
      have hstay : ((finished result s).amid u).1.step ((finished result s).amid u).2 =
          (finished result s).amid u := by
        simp only [amid, hu]
        cases result <;> rfl
      rw [Thread.runFor, hstay]
      exact hk' u hu

/-- It is over for all callers at once. -/
lemma amid_finished_iff {result : Except Fault Value} :
    some (k.amid u₁).1 = some ⟨handOn result, u₁.frames⟩ ↔
    some (k.amid u₂).1 = some ⟨handOn result, u₂.frames⟩ := by
  cases k with
  | finished result' s => simp only [amid, Option.some.injEq, Thread.mk.injEq, and_true]
  | inside t s depth detached =>
    -- the frame of the call stands above those of the caller
    have under (u : Caller) :
        some ((inside t s depth detached).amid u).1 ≠ some ⟨handOn result, u.frames⟩ := by
      intro h
      have hlen := congrArg (fun t : Thread => t.frames.length) (Option.some.inj h)
      simp only [amid, Thread.onto, length_append, length_cons] at hlen
      omega
    exact ⟨fun h => (under u₁ h).elim, fun h => (under u₂ h).elim⟩

lemma outcome?_amid (h₁ : u₁.frames = []) (h₂ : u₂.frames = []) :
    (k.amid u₁).1.outcome? = (k.amid u₂).1.outcome? := by
  cases k with
  | inside t s depth detached =>
    obtain ⟨control, frames⟩ := t
    cases frames <;> rfl
  | finished result s => simp only [amid, h₁, h₂]

end Call

namespace Engine

/-- An engine in which a task runs some thread in some state. -/
def hosting (e : Engine) (id : TaskId) (w : Work) (answerDue : Nat) (r : Thread × State) : Engine :=
  { e.put id ⟨w, .active r.1 answerDue⟩ with state := r.2 }

/-- A task is behind the gate, and no other runs a thread. -/
structure Guarded (e : Engine) (id : TaskId) : Prop where
  lt : id < e.tasks.length
  holder : e.gate.holder = some id
  others : ∀ other t, other ≠ id → e.tasks[other]? = some t →
    t.Fits ∧ ∀ thread answerDue, t.phase ≠ .active thread answerDue

/-- What happens leads to the same engine and call for all callers that know of some events. -/
def Uniform (e : Engine) (id : TaskId) (w : Work) (answerDue : Nat) (k : Call)
    (events : Table EventDecl) (act : Engine → Engine) : Prop :=
  ∃ (e' : Engine) (answerDue' : Nat) (k' : Call), e'.Guarded id ∧
  k'.Typed ∧ ∀ u : Caller, u.events = events →
    act (e.hosting id w answerDue (k.amid u)) = e'.hosting id w answerDue' (k'.amid u)

section Hosting

variable {e : Engine} {id other : TaskId} {w : Work} {answerDue depth : Nat} {k : Call}
  {events : Table EventDecl} {t : Task} {u : Caller} {s : State} {detached : Bool}

/-- New tasks do not take the gate. -/
lemma Guarded.add (h : e.Guarded id) (ht : t.Fits) (hp : t.phase = .fresh) :
    (e.add t).Guarded id where
  lt := by
    simp only [Engine.add, length_append]
    exact Nat.lt_add_right _ h.lt
  holder := h.holder
  others := by
    intro other u hne hu
    rcases getElem?_append_inv hu with hu | hu
    · exact h.others other u hne hu
    · cases mem_singleton.1 hu
      rw [hp]
      exact ⟨ht, nofun⟩

/-- Nor do tasks that are put. -/
lemma Guarded.put {g : Gate} (h : e.Guarded id) (ht : t.Fits)
    (hp : ∀ thread answerDue, t.phase ≠ .active thread answerDue)
    (hg : g.holder = some id) : ({ e.put other t with gate := g } : Engine).Guarded id where
  lt := by
    simp only [Engine.put, length_set]
    exact h.lt
  holder := hg
  others := by
    intro j u hne hu
    rcases getElem?_set_inv hu with ⟨_, rfl⟩ | ⟨_, hu⟩
    · exact ⟨ht, hp⟩
    · exact h.others j u hne hu

@[simp] lemma hosting_events :
    (e.hosting id w answerDue (k.amid u)).state.store.events = u.events := Call.amid_events

@[simp] lemma hosting_running :
    (e.hosting id w answerDue (k.amid u)).state.running = k.state.running :=
  Call.amid_running

@[simp] lemma hosting_isCancelled {timer : Nat} {body : List Stmt} {period due : Nat} :
    (e.hosting id w answerDue (k.amid u)).isCancelled (.timer timer body period due) =
      k.state.timers.isCancelled timer :=
  congrArg (fun r : Registry => r.isCancelled timer) Call.amid_timers

@[simp] lemma hosting_gate : (e.hosting id w answerDue (k.amid u)).gate = e.gate := rfl

@[simp] lemma hosting_now : (e.hosting id w answerDue (k.amid u)).now = e.now := rfl

lemma Uniform.congr {act act' : Engine → Engine} (h : Uniform e id w answerDue k events act')
    (ha : ∀ u : Caller, u.events = events →
      act (e.hosting id w answerDue (k.amid u)) = act' (e.hosting id w answerDue (k.amid u))) :
    Uniform e id w answerDue k events act := by
  obtain ⟨e', answerDue', k', hg, hk, h⟩ := h
  exact ⟨e', answerDue', k', hg, hk, fun u hu => (ha u hu).trans (h u hu)⟩

lemma Uniform.stay (hg : e.Guarded id) (hk : k.Typed) :
    Uniform e id w answerDue k events fun d => d :=
  ⟨e, answerDue, k, hg, hk, fun _ _ => rfl⟩

lemma Uniform.change (hg : e.Guarded id) (hk : k.Typed) (g : State → State) (hb : Call.Blind g) :
    Uniform e id w answerDue k events fun d => { d with state := g d.state } := by
  refine ⟨e, answerDue, k.map g, hg, hk.map, fun u _ => ?_⟩
  rw [← Call.map_amid hb]
  rfl

lemma Uniform.add (hg : e.Guarded id) (hk : k.Typed) (ht : t.Fits) (hp : t.phase = .fresh) :
    Uniform e id w answerDue k events fun d => d.add t := by
  refine ⟨e.add t, answerDue, k, hg.add ht hp, hk, fun u _ => ?_⟩
  simp only [hosting, Engine.add, Engine.put, set_append_left _ _ hg.lt]

lemma queued_ne_active : ∀ thread answerDue, Phase.queued ≠ .active thread answerDue := by
  rintro _ _ ⟨⟩

lemma ended_ne_active {outcome : Option Outcome} :
    ∀ thread answerDue, Phase.ended outcome ≠ .active thread answerDue := by
  rintro _ _ ⟨⟩

section

variable (hg : e.Guarded id) (hk : k.Typed) (hne : other ≠ id)
include hg hk hne

/-- Tasks of others are put alike. -/
lemma Uniform.put (t : Task) (g : State → State) (gate : Gate) (hb : Call.Blind g) (ht : t.Fits)
    (hp : ∀ thread answerDue, t.phase ≠ .active thread answerDue) (hh : gate.holder = some id) :
    Uniform e id w answerDue k events fun d =>
    { d.put other t with state := g d.state, gate := gate } := by
  refine ⟨{ e.put other t with gate := gate }, answerDue,
    k.map g, hg.put ht hp hh, hk.map, fun u _ => ?_⟩
  rw [← Call.map_amid hb]
  simp only [hosting, Engine.put, set_comm _ _ hne]

lemma Uniform.queue (v : Work) (hv : v.Gated) :
    Uniform e id w answerDue k events fun d => d.queue other v :=
  .put hg hk hne ⟨v, .queued⟩ (fun s => s)
  (e.gate.request other) ⟨fun _ _ => rfl, fun _ _ => rfl⟩ (.queued hv)
    queued_ne_active (Gate.holder_request hg.holder)

lemma Uniform.retire (timer : Nat) (body : List Stmt) (period due : Nat) (phase : Phase) :
    Uniform e id w answerDue k events fun d =>
    d.retire other ⟨.timer timer body period due, phase⟩ :=
  .put hg hk hne ⟨.timer timer body period due, .ended none⟩
    (fun s => { s with timers := s.timers.complete timer })
    (e.gate.withdraw other) ⟨fun _ _ => rfl, fun _ _ => rfl⟩ .ended ended_ne_active
    (Gate.holder_withdraw hne.symm hg.holder)

/-- They begin alike. -/
lemma uniform_begin (hf : t.Fits) (hp : t.phase = .fresh) :
    Uniform e id w answerDue k events fun d => d.begin other t := by
  cases hf with
  | @source text =>
    cases hc : compile text with
    | ok p =>
      refine (Uniform.put hg hk hne ⟨.program p, .queued⟩ State.stop (e.gate.request other)
        ⟨fun _ _ => rfl, fun _ _ => rfl⟩ (.queued .program) queued_ne_active
        (Gate.holder_request hg.holder)).congr fun u _ => ?_
      simp only [begin, hc]
      rfl
    | error err =>
      refine (Uniform.put hg hk hne ⟨.source text, .ended none⟩
        (fun s => s.say .error ("Syntax Error: " ++ err.message)) e.gate
          ⟨fun _ _ => rfl, fun _ _ => rfl⟩ .ended
        ended_ne_active hg.holder).congr fun u _ => ?_
      simp only [begin, hc]
      rfl
  | @trigger name =>
    cases hn : events.get? name with
    | some event =>
      refine (Uniform.queue hg hk hne (.event event.body) .event).congr fun u hu => ?_
      simp only [begin, hosting_events, hu, hn]
    | none =>
      refine (Uniform.put hg hk hne ⟨.trigger name, .ended none⟩
        (fun s => s) e.gate ⟨fun _ _ => rfl, fun _ _ => rfl⟩
        .ended ended_ne_active hg.holder).congr fun u hu => ?_
      simp only [begin, hosting_events, hu, hn]
      rfl
  | @timer timer body period due =>
    exact (Uniform.put hg hk hne ⟨.timer timer body period (e.now + period), .resting⟩
      (fun s => s) e.gate
      ⟨fun _ _ => rfl, fun _ _ => rfl⟩ .resting (by rintro _ _ ⟨⟩) hg.holder).congr fun _ _ => rfl
  | _ => cases hp

/-- They fall due alike. -/
lemma uniform_wake (hf : t.Fits) (hp : t.phase = .resting) :
    Uniform e id w answerDue k events fun d => d.wake other t := by
  cases hf with
  | @resting timer body period due =>
    by_cases hc : k.state.timers.isCancelled timer = true
    · refine (Uniform.retire hg hk hne timer body period due .resting).congr fun u _ => ?_
      simp only [wake, hosting_isCancelled, hc, if_true]
    · by_cases hd : e.now < due
      · refine (Uniform.stay hg hk).congr fun u _ => ?_
        simp only [wake, hosting_isCancelled, hc, hosting_now,
          hd, if_true, if_false, Bool.false_eq_true]
      · by_cases hr : k.state.running = true
        · refine (Uniform.queue hg hk hne
            (.timer timer body period (nextDue e.now period due)) .timer).congr
            fun u _ => ?_
          simp only [wake, hosting_isCancelled, hc, hosting_now,
            hd, hosting_running, hr, if_true, if_false, Bool.false_eq_true]
        · refine (Uniform.retire hg hk hne timer body period due .resting).congr fun u _ => ?_
          simp only [wake, hosting_isCancelled, hc, hosting_now,
            hd, hosting_running, hr, if_false, Bool.false_eq_true]
  | _ => cases hp

/-- They go to the gate alike. -/
lemma uniform_passGate (hf : t.Fits) (hp : t.phase = .queued) :
    Uniform e id w answerDue k events fun d => d.passGate other t := by
  have hh : e.gate.holder ≠ some other := by
    rw [hg.holder]
    exact fun h => hne (Option.some.inj h).symm
  have waits (hc : ∀ u : Caller, (e.hosting id w answerDue (k.amid u)).isCancelled t.work = false) :
      Uniform e id w answerDue k events fun d => d.passGate other t := by
    refine (Uniform.stay hg hk).congr fun u _ => ?_
    simp only [passGate, hc, hosting_gate, Bool.false_eq_true, if_false]
    exact if_pos hh
  cases hf with
  | queued hw =>
    cases hw with
    | program | event => exact waits fun _ => rfl
    | @timer timer body period due =>
      by_cases hc : k.state.timers.isCancelled timer = true
      · refine (Uniform.retire hg hk hne timer body period due .queued).congr fun u _ => ?_
        simp only [passGate, hosting_isCancelled, hc, if_true]
      · exact waits fun u => hosting_isCancelled.trans (Bool.eq_false_iff.2 hc)
  | _ => cases hp

/-- A step of another task is the same for all callers. -/
lemma uniform_step_other : Uniform e id w answerDue k events fun d => d.step other := by
  have task (u : Caller) : (e.hosting id w answerDue (k.amid u)).tasks[other]? = e.tasks[other]? :=
    List.getElem?_set_ne hne.symm
  cases ht : e.tasks[other]? with
  | none =>
    refine (Uniform.stay hg hk).congr fun u _ => ?_
    simp only [step, task, ht]
  | some t =>
    obtain ⟨hf, hactive⟩ := hg.others other t hne ht
    cases hp : t.phase with
    | fresh =>
      refine (uniform_begin hg hk hne hf hp).congr fun u _ => ?_
      simp only [step, task, ht, hp]
    | resting =>
      refine (uniform_wake hg hk hne hf hp).congr fun u _ => ?_
      simp only [step, task, ht, hp]
    | queued =>
      refine (uniform_passGate hg hk hne hf hp).congr fun u _ => ?_
      simp only [step, task, ht, hp]
    | active thread due => exact (hactive thread due hp).elim
    | ended outcome =>
      refine (Uniform.stay hg hk).congr fun u _ => ?_
      simp only [step, task, ht, hp]

end

section

variable (hg : e.Guarded id)
include hg

/-- So is a step of the call. -/
lemma uniform_step_own {t : Thread} (ty : t.Typed .statements) :
    Uniform e id w answerDue (.inside t s depth detached) events fun d => d.step id := by
  obtain ⟨k', hk', hstep⟩ := Call.step_amid ty s depth detached
  have task (r : Thread × State) :
      (e.hosting id w answerDue r).tasks[id]? = some ⟨w, .active r.1 answerDue⟩ :=
    List.getElem?_set_self hg.lt
  have hout (u : Caller) : ((Call.inside t s depth detached).amid u).1.outcome? = none := by
    obtain ⟨control, frames⟩ := t
    cases frames <;> rfl
  by_cases hwait : (t.isAnswered && decide (e.now < answerDue)) = true
  · refine (Uniform.stay hg (.inside ty)).congr fun u _ => ?_
    simp only [step, task, advance, hout]
    exact if_pos hwait
  · refine ⟨e, if t.isAsking then e.now + e.answerDelay * nanosPerMilli else answerDue,
      k', hg, hk', fun u _ => ?_⟩
    simp only [step, task, advance, hout]
    refine (if_neg hwait).trans ?_
    have hs := hstep u
    simp only [hosting, put, set_set] at hs ⊢
    rw [hs]
    rfl

/-- So is every action. -/
lemma uniform_perform {t : Thread} (ty : t.Typed .statements) (a : Action) :
    Uniform e id w answerDue (.inside t s depth detached) events fun d => d.perform a := by
  have hk : (Call.inside t s depth detached).Typed := .inside ty
  cases a with
  | execute source => exact .add hg hk .source rfl
  | trigger name => exact .add hg hk .trigger rfl
  | stop => exact .change hg hk State.stop ⟨fun _ _ => rfl, fun _ _ => rfl⟩
  | step other =>
    by_cases hne : other = id
    · subst hne
      exact uniform_step_own hg ty
    · exact uniform_step_other hg hk hne
  | elapse nanos =>
    exact ⟨{ e with now := e.now + nanos }, answerDue,
      _, ⟨hg.lt, hg.holder, hg.others⟩, hk, fun _ _ => rfl⟩
  | supply answers =>
    exact .change hg hk (fun s =>
      { s with host := { s.host with answers := s.host.answers ++ answers } })
      ⟨fun _ _ => rfl, fun _ _ => rfl⟩
  | reseed seed =>
    exact .change hg hk (fun s => { s with host := { s.host with seed := seed } })
      ⟨fun _ _ => rfl, fun _ _ => rfl⟩
  | delay ms =>
    exact ⟨{ e with answerDelay := ms }, answerDue, _,
      ⟨hg.lt, hg.holder, hg.others⟩, hk, fun _ _ => rfl⟩

lemma hosting_thread? {r : Thread × State} : (e.hosting id w answerDue r).thread? id = some r.1 :=
  thread?_eq (List.getElem?_set_self hg.lt)

lemma settledDepth?_inside {t : Thread} :
    (e.hosting id w answerDue ((Call.inside t s depth detached).amid u)).settledDepth? id ≠
      some u.frames.length := by
  intro h
  obtain ⟨_, hlen⟩ := settledDepth?_inv (hosting_thread? hg) h
  simp only [Call.amid, Thread.onto, length_append, length_cons] at hlen
  omega

lemma settledDepth?_finished {result : Except Fault Value} :
    (e.hosting id w answerDue ((Call.finished result s).amid u)).settledDepth? id =
      some u.frames.length := by
  refine settledDepth?_eq (hosting_thread? hg) ?_
  cases result <;> rfl

/-- So is the whole course of a call, up to its outcome. -/
lemma uniform_run {u₁ : Caller} (hk : k.Typed) (actions : List Action) (hu : u₁.events = events)
    (hw : worksAbove id u₁.frames.length actions (e.hosting id w answerDue (k.amid u₁)) = true) :
    (Uniform e id w answerDue k events fun d => d.run actions) ∧ ∀ u : Caller, u.events = events →
      worksAbove id u.frames.length actions (e.hosting id w answerDue (k.amid u)) = true := by
  induction actions generalizing e answerDue k with
  | nil => exact ⟨.stay hg hk, fun _ _ => rfl⟩
  | cons a as ih =>
    obtain ⟨hn, hw⟩ := Bool.and_eq_true_iff.1 hw
    cases hk with
    | finished => exact (bne_iff_ne.1 hn (settledDepth?_finished hg)).elim
    | @inside t s depth detached ty =>
      have hact :
          Uniform e id w answerDue (.inside t s depth detached) events fun d => d.perform a :=
        uniform_perform hg ty a
      obtain ⟨e', answerDue', k', hg', hk', hstep⟩ := hact
      dsimp only at hstep
      rw [hstep u₁ hu] at hw
      obtain ⟨⟨e'', answerDue'', k'', hg'', hk'', hrun⟩, hworks⟩ := ih hg' hk' hw
      refine ⟨⟨e'', answerDue'', k'', hg'', hk'', fun u hu => ?_⟩, fun u hu => ?_⟩
      · rw [← hrun u hu, ← hstep u hu]
        rfl
      · refine Bool.and_eq_true_iff.2 ⟨bne_iff_ne.2 (settledDepth?_inside hg), ?_⟩
        rw [hstep u hu]
        exact hworks u hu

end

end Hosting

/-- An active task guards the gate. -/
lemma Reachable.guarded {e : Engine} {id : TaskId} {w : Work} {thread : Thread}
    {answerDue : Nat} (hr : e.Reachable) (ht : e.tasks[id]? = some ⟨w, .active thread answerDue⟩) :
    e.Guarded id where
  lt := (List.getElem?_eq_some_iff.1 ht).1
  holder := hr.exclusive id w thread answerDue ht
  others := by
    intro other t hne hother
    refine ⟨hr.fitting t (mem_of_getElem? hother), ?_⟩
    obtain ⟨w', phase⟩ := t
    rintro thread' answerDue' rfl
    have hh := hr.exclusive other w' thread' answerDue' hother
    rw [hr.exclusive id w thread answerDue ht] at hh
    exact hne (Option.some.inj hh).symm

/-- The engine in which a task has just called a function for some caller. -/
def calledFor (e : Engine) (id : TaskId) (name : String) (args : List Value) (line : Nat)
    (u : Caller) : Engine :=
  match e.tasks[id]? with
  | some ⟨w, .active _ answerDue⟩ =>
    e.hosting id w answerDue (Thread.invoke name args line u.frames (e.state.within u))
  | _ => e

/-- A declared function called with the same arguments for two callers comes to the same value or
fault, sends the same messages and prompts in the same order, and leaves the same globals and
lifecycle. This holds of a call by itself, in states that agree on all but local variables,
events and what was heard; and of a call behind the gate, until it is over, whatever others do
meanwhile. -/
theorem call_same_for_callers {name : String} (hn : Builtin.ofName? name = none)
    (args : List Value) (line : Nat) :
    (∀ (s₁ s₂ : State) (n : Nat), s₁.Agrees s₂ →
      let r₁ := Thread.runFor n (Thread.invoke name args line [] s₁)
      let r₂ := Thread.runFor n (Thread.invoke name args line [] s₂)
      r₁.1.outcome? = r₂.1.outcome? ∧ r₁.2.Agrees r₂.2 ∧
        ∃ new, r₁.2.host.heard = new ++ s₁.host.heard ∧ r₂.2.host.heard = new ++ s₂.host.heard) ∧
    (∀ (e : Engine) (id : TaskId) (u₁ u₂ : Caller) (actions : List Action),
        e.Reachable → (e.thread? id).isSome = true → u₁.events = u₂.events →
        worksAbove id u₁.frames.length actions (e.calledFor id name args line u₁) = true →
      let d₁ := (e.calledFor id name args line u₁).run actions
      let d₂ := (e.calledFor id name args line u₂).run actions
      worksAbove id u₂.frames.length actions (e.calledFor id name args line u₂) = true ∧
        (∀ result, d₁.thread? id = some ⟨Call.handOn result, u₁.frames⟩ ↔
          d₂.thread? id = some ⟨Call.handOn result, u₂.frames⟩) ∧
        d₁.state.Agrees d₂.state ∧
        ∃ new, d₁.state.host.heard = new ++ u₁.past ∧ d₂.state.host.heard = new ++ u₂.past) := by
  refine ⟨?_, ?_⟩
  · intro s₁ s₂ n h
    obtain ⟨s, h₁, h₂⟩ := h.exists_within []
    obtain ⟨k, hk, hinvoke⟩ := Call.exists_invoke hn args line s
    obtain ⟨k', hrun⟩ := Call.exists_runFor hk n
    generalize hu₁ : (⟨[], s₁.store.locals, s₁.store.events, s₁.host.heard⟩ : Caller) = u₁ at h₁
    generalize hu₂ : (⟨[], s₂.store.locals, s₂.store.events, s₂.host.heard⟩ : Caller) = u₂ at h₂
    have r₁ : Thread.runFor n (Thread.invoke name args line [] s₁) = k'.amid u₁ := by
      rw [← hrun u₁ (by rw [← hu₁]), ← hinvoke u₁, ← h₁, ← hu₁]
    have r₂ : Thread.runFor n (Thread.invoke name args line [] s₂) = k'.amid u₂ := by
      rw [← hrun u₂ (by rw [← hu₂]), ← hinvoke u₂, ← h₂, ← hu₂]
    dsimp only
    rw [r₁, r₂]
    refine ⟨Call.outcome?_amid (by rw [← hu₁]) (by rw [← hu₂]),
      Call.amid_agrees, k'.state.host.heard, ?_, ?_⟩
    · rw [Call.amid_heard, ← hu₁]
    · rw [Call.amid_heard, ← hu₂]
  · intro e id u₁ u₂ actions hr hthread hu hw
    obtain ⟨thread, hthread⟩ := Option.isSome_iff_exists.1 hthread
    obtain ⟨w, answerDue, ht⟩ := thread?_inv hthread
    obtain ⟨k, hk, hinvoke⟩ := Call.exists_invoke hn args line e.state
    have called (u : Caller) :
        e.calledFor id name args line u = e.hosting id w answerDue (k.amid u) := by
      rw [calledFor, ht]
      exact congrArg (e.hosting id w answerDue) (hinvoke u)
    simp only [called] at hw ⊢
    obtain ⟨⟨e', answerDue', k', hg', _, hrun⟩, hworks⟩ :=
      uniform_run (hr.guarded ht) hk actions hu hw
    dsimp only at hrun
    rw [hrun u₁ hu, hrun u₂ rfl]
    refine ⟨hworks u₂ rfl, fun result => ?_, Call.amid_agrees,
      k'.state.host.heard, Call.amid_heard, Call.amid_heard⟩
    rw [hosting_thread? hg', hosting_thread? hg']
    exact Call.amid_finished_iff

/-- An engine amid a program with a function that asks a question. -/
def asker : Engine :=
  (fresh defaultDepth { answers := ["7"] }).run
    (.execute
      ("to f using n:\n    ask \"q\" and store result in global a\n    say n\n    give back n + a\n" ++
      "set x to 1\nset y to f(x)\n") :: List.replicate 6 (.step 0))

/-- A caller with a variable of its own. -/
def plainCaller : Caller := { frames := [.discard], locals := [("x", .number 1)] }

/-- A caller with a variable named like the parameter. -/
def otherCaller : Caller :=
  { frames := [.giveBack, .rest []], locals := [("n", .text "other")], past := [.prompt "before"] }

/-- The call, with a stop while the question is open. -/
def stoppedCall : List Action := List.replicate 5 (.step 0) ++ .stop :: List.replicate 5 (.step 0)

/-- The question and the value are the same for the other caller. -/
theorem asker_call_same :
    (Thread.runFor 21 (Thread.invoke "f" [.number 2] 1 [] asker.state)).1.outcome?.isSome = true ∧
    (Thread.runFor 21 (Thread.invoke "f" [.number 2] 1 [] asker.state)).1.outcome? =
      (Thread.runFor 21 (Thread.invoke "f" [.number 2] 1 []
        (asker.state.within otherCaller))).1.outcome? ∧
    ((asker.calledFor 0 "f" [.number 2] 1 plainCaller).run stoppedCall).settledDepth? 0 = some 1 ∧
    ((asker.calledFor 0 "f" [.number 2] 1 plainCaller).run stoppedCall).state.Agrees
      ((asker.calledFor 0 "f" [.number 2] 1 otherCaller).run stoppedCall).state := by
  have hr : asker.Reachable := (Reachable.fresh defaultDepth { answers := ["7"] }).run _
  have hcall : (asker.thread? 0).isSome = true ∧
      worksAbove 0 1 stoppedCall (asker.calledFor 0 "f" [.number 2] 1 plainCaller) = true ∧
      ((asker.calledFor 0 "f" [.number 2] 1 plainCaller).run stoppedCall).settledDepth? 0 =
        some 1 := by
    decide +kernel
  obtain ⟨hthread, hworks, hover⟩ := hcall
  have hname : Builtin.ofName? "f" = none := by decide
  obtain ⟨halone, hamong⟩ := call_same_for_callers hname [.number 2] 1
  have hagrees : asker.state.Agrees (asker.state.within otherCaller) := State.agrees_within
  refine ⟨by decide +kernel, (halone _ _ 21 hagrees).1, hover, ?_⟩
  exact (hamong asker 0 plainCaller otherCaller stoppedCall hr hthread rfl hworks).2.2.1

end Engine

end Colloquy
