import Colloquy.Proofs.Machine.Backdrop
import Colloquy.Proofs.Machine.Inversion

/-!
# Calls do not see their caller

`Call` is a call by itself, and `Call.amid` the same made by some caller, with frames, variables,
events and a past of which the function knows nothing. A step takes a call to the same next one
whoever made it (`Call.step_amid`).
-/

namespace Colloquy

/-- Two states agree on all but local variables, events and what was heard. -/
structure State.Agrees (s1 s2 : State) : Prop where
  globals : s2.store.globals = s1.store.globals
  functions : s2.store.functions = s1.store.functions
  depth : s2.depth = s1.depth
  maxDepth : s2.maxDepth = s1.maxDepth
  running : s2.running = s1.running
  halted : s2.halted = s1.halted
  timers : s2.timers = s1.timers
  answers : s2.host.answers = s1.host.answers
  seed : s2.host.seed = s1.host.seed

/-- A state with other events and more that its host has heard. -/
def State.amid (s : State) (events : Table EventDecl) (past : List Utterance) : State :=
  { s with
    store := { s.store with events := events }
    host := { s.host with heard := s.host.heard ++ past } }

lemma Thread.step_amid {s : State} {events : Table EventDecl} {past : List Utterance} {t : Thread} :
    t.step (s.amid events past) = ((t.step s).1, (t.step s).2.amid events past) :=
  step_against (b := .amid events past)

/-- What a call finds around it: frames, local variables, events and what was heard. -/
structure Caller where
  frames : List Frame := []
  locals : Table Value := []
  events : Table EventDecl := []
  past : List Utterance := []

/-- A state as a caller has it. -/
def State.within (s : State) (u : Caller) : State :=
  { s with store := s.store.withLocals u.locals }.amid u.events u.past

lemma State.Agrees.exists_within {s1 s2 : State} (h : s1.Agrees s2) (frames : List Frame) :
    ∃ s : State, s1 = s.within ⟨frames, s1.store.locals, s1.store.events, s1.host.heard⟩ ∧
      s2 = s.within ⟨frames, s2.store.locals, s2.store.events, s2.host.heard⟩ := by
  obtain ⟨⟨locals, globals, functions, events⟩, depth,
    maxDepth, running, halted, timers, heard, answers, seed⟩ := s2
  obtain ⟨rfl, rfl, rfl, rfl, rfl, rfl, rfl, rfl, rfl⟩ := h
  exact ⟨{ s1 with host := { s1.host with heard := [] } }, rfl, rfl⟩

lemma State.agrees_within {s : State} {u : Caller} : s.Agrees (s.within u) :=
  ⟨rfl, rfl, rfl, rfl, rfl, rfl, rfl, rfl, rfl⟩

/-- A call of a function by itself. -/
inductive Call where
  /-- The body of the function is under way. -/
  | inside (t : Thread) (s : State) (depth : Nat) (detached : Bool)
  /-- The call has come to a value or to a fault. -/
  | finished (result : Except Fault Value) (s : State)

namespace Call

/-- The control that hands on what a call came to. -/
def handOn : Except Fault Value → Control
  | .ok v => .value v
  | .error f => .fault f

/-- The thread and the state of a call that a caller makes. -/
def amid (u : Caller) : Call → Thread × State
  | inside t s depth detached =>
    (t.onto (.scope u.locals depth detached :: u.frames), s.amid u.events u.past)
  | finished result s => (⟨handOn result, u.frames⟩, s.within u)

/-- The body of the function is a row of statements. -/
inductive Typed : Call → Prop where
  | inside {t s depth detached} :
    t.Typed .statements →
    Typed (inside t s depth detached)
  | finished {result s} :
    Typed (finished result s)

/-- A call begins alike for every caller. -/
lemma exists_invoke {name : String} (hn : Builtin.ofName? name = none) (args : List Value)
    (line : Nat) (s : State) :
    ∃ k : Call, k.Typed ∧
    ∀ u : Caller, Thread.invoke name args line u.frames (s.within u) = k.amid u := by
  have hc (u : Caller) :
    Thread.callee? name args.length (s.within u) = Thread.callee? name args.length s := rfl
  unfold Thread.invoke
  simp only [hn, hc]
  cases Thread.callee? name args.length s with
  | error e => exact ⟨finished (.error ⟨e, line⟩) s, .finished, fun _ => rfl⟩
  | ok f =>
    let entered : State := s.withScope (.ofList (f.params.zip args)) (s.depth + 1)
    cases hd : Thread.isDetached s.depth with
    | true =>
      refine ⟨inside ⟨.paused (.block f.body), []⟩ entered s.depth true,
        .inside (.of_phrase rfl .nil), fun u => ?_⟩
      have hd' : Thread.isDetached (s.within u).depth = true := hd
      simp only [Thread.enter, hd']
      rfl
    | false =>
      refine ⟨inside ⟨.block f.body, []⟩ entered s.depth false,
        .inside (.of_phrase rfl .nil), fun u => ?_⟩
      have hd' : Thread.isDetached (s.within u).depth = false := hd
      simp only [Thread.enter, hd']
      rfl

/-- It ends alike for every caller. -/
lemma exists_leave (outcome : Control) (result : Except Fault Value) (s : State)
    (depth : Nat) (detached : Bool) (ho : outcome.Reads .statements) :
    ∃ k : Call, k.Typed ∧ ∀ u : Caller,
      Thread.leave outcome (handOn result) u.locals depth detached u.frames
        (s.amid u.events u.past) = k.amid u := by
  cases detached with
  | true =>
    exact ⟨inside ⟨.paused outcome, []⟩ s depth false,
      .inside ⟨.statements, ho, .nil⟩, fun _ => rfl⟩
  | false => exact ⟨finished result { s with depth := depth }, .finished, fun _ => rfl⟩

/-- The steps of a call are the same for all callers. -/
lemma step_amid {t : Thread} (ty : t.Typed .statements) (s : State)
    (depth : Nat) (detached : Bool) :
    ∃ k : Call, k.Typed ∧ ∀ u : Caller,
      ((inside t s depth detached).amid u).1.step
        ((inside t s depth detached).amid u).2 = k.amid u := by
  cases ho : t.outcome? with
  | none =>
    refine ⟨inside (t.step s).1 (t.step s).2 depth detached,
      .inside (Thread.step_typed ty), fun u => ?_⟩
    simp only [amid, Thread.step_onto ho, Thread.step_amid]
  | some outcome =>
    -- the body has ended, and its outcome meets the frame of the call
    obtain ⟨control, frames⟩ := t
    cases frames with
    | cons frame frames => cases ho
    | nil =>
      cases control with
      | flow f =>
        exact exists_leave (.flow f) (.ok f.value) s depth detached fun p h =>
          (Option.some.inj h).symm
      | fault f => exact exists_leave (.fault f) (.error f) s depth detached nofun
      | value v => cases (ty.linked rfl).nil_inv
      | _ => cases ho

end Call

end Colloquy
