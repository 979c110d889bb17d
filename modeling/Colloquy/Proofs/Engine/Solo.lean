import Colloquy.Proofs.Machine.Deeds
import Colloquy.Proofs.Engine.Launch

/-!
# One sequence at a time

`Solo` is a machine for one sequence at a time: it has no gate, no tasks and no clock. Cues tell it
when a sequence begins or takes a step, and what comes from outside. What the host has heard makes
no difference to it (`State.Alike`).
-/

namespace Colloquy

open List Thread

/-- A sequence before it begins. -/
inductive Body where
  /-- The main line of a program. -/
  | main (p : Program)
  /-- The body of a timer or of an event. -/
  | block (stmts : List Stmt)

/-- The sequence that a piece of work brings to the gate. -/
def Work.body? : Work → Option Body
  | .program p => some (.main p)
  | .event body | .timer _ body _ _ => some (.block body)
  | _ => none

lemma Work.Gated.exists_body {w : Work} (hw : w.Gated) : ∃ body, w.body? = some body := by
  cases hw <;> exact ⟨_, rfl⟩

/-- The warning about a function that can never be called. -/
def Stmt.warning : Stmt → List Deed
  | .function name .. =>
    if (Builtin.ofName? name).isSome then [.utter (.message .warning (Engine.shadowWarning name))]
    else []
  | _ => []

/-- What reporting an outcome says. -/
def Outcome.deeds : Outcome → List Deed
  | .fault f => [.utter (.message .error ("Error: " ++ f.message))]
  | _ => []

namespace Body

/-- The state in which a sequence begins. -/
def opened (s : State) : Body → State
  | main p => (({ state := s } : Engine).declared p).state
  | block _ => { s with halted := false }

/-- The thread of a sequence that begins. -/
def thread (s : State) : Body → Thread
  | main p => Engine.mainThread p s
  | block stmts => ⟨.block stmts, []⟩

/-- What the beginning of a sequence does. -/
def deeds : Body → List Deed
  | main p => .clear :: p.body.flatMap Stmt.warning
  | block _ => []

/-- The state after the end of a sequence. -/
def closed (s : State) (outcome : Outcome) : Body → State
  | main _ =>
    let s := Engine.reportOutcome s outcome
    if s.timers.isEmpty then { s with running := false } else s
  | block _ => Engine.reportOutcome s outcome

/-- A body begins by clearing and warning only. -/
lemma mem_deeds {body : Body} {d : Deed} (h : d ∈ body.deeds) : d = .clear ∨ ∃ u, d = .utter u := by
  cases body with
  | block stmts => cases h
  | main p =>
    rcases mem_cons.1 h with rfl | h
    · exact .inl rfl
    · obtain ⟨stmt, _, hd⟩ := mem_flatMap.1 h
      unfold Stmt.warning at hd
      split at hd
      · split at hd
        · exact .inr ⟨_, mem_singleton.1 hd⟩
        · cases hd
      · cases hd

end Body

/-- What can happen to one sequence after the other. -/
inductive Cue where
  /-- The sequence of a task begins. -/
  | begin (task : TaskId) (body : Body)
  /-- The sequence goes on. -/
  | step
  /-- The program is stopped. -/
  | stop
  /-- The host gets more answers to give. -/
  | supply (answers : List String)
  /-- The host changes its chance. -/
  | reseed (seed : Nat)

/-- A sequence under way. -/
structure Sequence where
  task : TaskId
  body : Body
  thread : Thread

/-- The sequence that a task has under way. -/
def Task.sequence? (t : Task) (id : TaskId) : Option Sequence :=
  match t.phase with
  | .active thread _ => t.work.body?.map (⟨id, ·, thread⟩)
  | _ => none

/-- A machine for one sequence at a time. -/
structure Solo where
  state : State
  sequence : Option Sequence := none

namespace Solo

/-- What a cue makes the machine do. Sequences do not begin inside others. -/
def act (m : Solo) : Cue → Solo
  | .begin task body =>
    match m.sequence with
    | some _ => m
    | none =>
      let s := body.opened m.state
      ⟨s, some ⟨task, body, body.thread s⟩⟩
  | .step =>
    match m.sequence with
    | none => m
    | some q =>
      match q.thread.outcome? with
      | some outcome => ⟨q.body.closed m.state outcome, none⟩
      | none => ⟨(q.thread.step m.state).2, some { q with thread := (q.thread.step m.state).1 }⟩
  | .stop => { m with state := m.state.stop }
  | .supply answers =>
    { m with state :=
    { m.state with host := { m.state.host with answers := m.state.host.answers ++ answers } } }
  | .reseed seed => { m with state := { m.state with host := { m.state.host with seed := seed } } }

/-- The deeds of a cue, with the task whose sequence does them. -/
def deeds (m : Solo) : Cue → List (TaskId × Deed)
  | .begin task body =>
    match m.sequence with
    | some _ => []
    | none => body.deeds.map (task, ·)
  | .step =>
    match m.sequence with
    | none => []
    | some q =>
      match q.thread.outcome? with
      | some outcome => outcome.deeds.map (q.task, ·)
      | none => (q.thread.deeds m.state).map (q.task, ·)
  | _ => []

/-- The machine after a row of cues. -/
def run (m : Solo) (cues : List Cue) : Solo := cues.foldl act m

/-- The deeds of a row of cues. -/
def log (m : Solo) : List Cue → List (TaskId × Deed)
  | [] => []
  | c :: cues => m.deeds c ++ log (m.act c) cues

lemma log_append {m : Solo} {cues more : List Cue} :
    m.log (cues ++ more) = m.log cues ++ (m.run cues).log more := by
  induction cues generalizing m with
  | nil => rfl
  | cons c cues ih =>
    rw [cons_append, log, log, ih, append_assoc]
    rfl

end Solo

/-- Two states differ at most in what the host has heard. -/
def State.Alike (s s' : State) : Prop :=
  ∃ heard, s' = { s with host := { s.host with heard := heard } }

section Alike

variable {s s' : State} {e d : Engine}

lemma State.Alike.refl : s.Alike s := ⟨s.host.heard, rfl⟩

section

variable (h : s.Alike s')
include h

lemma State.Alike.exists_against : ∃ base : State, s = base.against (.heard s.host.heard) ∧
    s' = base.against (.heard s'.host.heard) := by
  obtain ⟨heard, rfl⟩ := h
  exact ⟨{ s with host := { s.host with heard := [] } }, rfl, rfl⟩

lemma State.Alike.step (t : Thread) :
    (t.step s').1 = (t.step s).1 ∧ (t.step s).2.Alike (t.step s').2 ∧ t.deeds s' = t.deeds s := by
  obtain ⟨base, hs, hs'⟩ := h.exists_against
  rw [hs, hs', step_against, step_against, deeds_against, deeds_against]
  exact ⟨rfl, ⟨_, rfl⟩, rfl⟩

lemma State.Alike.stop : s.stop.Alike s'.stop := by
  obtain ⟨heard, rfl⟩ := h
  exact ⟨heard, rfl⟩

lemma State.Alike.say {severity : Severity} {text : String} : (s.say severity text).Alike s' := by
  obtain ⟨heard, rfl⟩ := h
  exact ⟨heard, rfl⟩

lemma State.Alike.report (outcome : Outcome) :
    (Engine.reportOutcome s outcome).Alike (Engine.reportOutcome s' outcome) := by
  obtain ⟨heard, rfl⟩ := h
  cases outcome with
  | fault f => exact ⟨.message .error ("Error: " ++ f.message) :: heard, rfl⟩
  | _ => exact ⟨heard, rfl⟩

lemma State.Alike.closed (body : Body) (outcome : Outcome) :
    (body.closed s outcome).Alike (body.closed s' outcome) := by
  obtain ⟨heard, hh⟩ := h.report outcome
  cases body with
  | block stmts => exact ⟨heard, hh⟩
  | main p =>
    simp only [Body.closed, hh]
    split <;> exact ⟨heard, rfl⟩

end

/-- Declarations do the same in states that are alike. -/
lemma declare_alike {stmt : Stmt} (h : e.state.Alike d.state) :
    (e.declare stmt).state.Alike (d.declare stmt).state := by
  obtain ⟨heard, hh⟩ := h
  cases stmt with
  | function name params body line =>
    simp only [Engine.declare, hh]
    split
    · exact ⟨.message .warning (Engine.shadowWarning name) :: heard, rfl⟩
    · exact ⟨heard, rfl⟩
  | event name timer body line =>
    cases timer <;>
    · simp only [Engine.declare, hh]
      exact ⟨heard, rfl⟩
  | _ =>
    simp only [Engine.declare, hh]
    exact ⟨heard, rfl⟩

lemma foldl_declare_alike {stmts : List Stmt} (h : e.state.Alike d.state) :
    (stmts.foldl Engine.declare e).state.Alike (stmts.foldl Engine.declare d).state := by
  induction stmts generalizing e d with
  | nil => exact h
  | cons stmt stmts ih => exact ih (declare_alike h)

lemma State.Alike.opened (h : e.state.Alike s') (p : Program) :
    (e.declared p).state.Alike ((Body.main p).opened s') := by
  obtain ⟨heard, rfl⟩ := h
  exact foldl_declare_alike ⟨heard, rfl⟩

lemma State.Alike.mainThread (h : s.Alike s') (p : Program) :
    Engine.mainThread p s' = Engine.mainThread p s := by
  obtain ⟨heard, rfl⟩ := h
  rfl

end Alike

end Colloquy
