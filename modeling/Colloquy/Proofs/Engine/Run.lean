import Mathlib.Tactic.Lemma
import Colloquy.Engine.Session

/-!
# Runs of engines

`Reachable` are the engines that some run, a row of actions, leads to from a fresh one. A session
takes its turns by one fixed rule, so its engine is always reachable.
-/

namespace Colloquy

/-- What can happen to an engine. -/
inductive Action where
  /-- Someone calls for a source text to be run. -/
  | execute (source : String)
  /-- Someone calls for an event to be run. -/
  | trigger (name : String)
  /-- Someone stops the program. -/
  | stop
  /-- A task takes a step. -/
  | step (id : TaskId)
  /-- Time passes. -/
  | elapse (nanos : Nat)
  /-- The host gets more answers to give. -/
  | supply (answers : List String)
  /-- The host changes its chance. -/
  | reseed (seed : Nat)
  /-- Answers to later prompts take another time. -/
  | delay (ms : Nat)

/-- So many milliseconds pass. -/
def Action.wait (ms : Nat) : Action := .elapse (ms * nanosPerMilli)

namespace Engine

/-- The engine after an action. -/
def perform (e : Engine) : Action → Engine
  | .execute source => e.add ⟨.source source, .fresh⟩
  | .trigger name => e.add ⟨.trigger name, .fresh⟩
  | .stop => e.stop
  | .step id => e.step id
  | .elapse nanos => { e with now := e.now + nanos }
  | .supply answers =>
    { e with state :=
    { e.state with host := { e.state.host with answers := e.state.host.answers ++ answers } } }
  | .reseed seed => { e with state := { e.state with host := { e.state.host with seed := seed } } }
  | .delay ms => { e with answerDelay := ms }

/-- The engine after a row of actions. -/
def run (e : Engine) (actions : List Action) : Engine := actions.foldl perform e

/-- An engine before its first call. -/
def fresh (maxDepth : Nat) (host : Host) : Engine :=
  { state := { maxDepth := maxDepth, host := host } }

/-- The engines that runs lead to. -/
inductive Reachable : Engine → Prop where
  | fresh (maxDepth : Nat) (host : Host) :
    Reachable (fresh maxDepth host)
  | act {e : Engine} (a : Action) :
    Reachable e →
    Reachable (e.perform a)

lemma Reachable.run {e : Engine} (h : e.Reachable) (actions : List Action) :
    (e.run actions).Reachable := by
  induction actions generalizing e with
  | nil => exact h
  | cons a actions ih => exact ih (.act a h)

lemma Reachable.step {e : Engine} (h : e.Reachable) (id : TaskId) : (e.step id).Reachable :=
  .act (.step id) h

/-- The thread that a task runs. -/
def thread? (e : Engine) (id : TaskId) : Option Thread :=
  match e.tasks[id]? with
  | some ⟨_, .active thread _⟩ => some thread
  | _ => none

end Engine

namespace Session

variable {s : Session}

lemma catchUp_reachable {now : Nat} (h : s.engine.Reachable) :
    (s.catchUp now).engine.Reachable := by
  have hmax : max s.engine.now now = s.engine.now + (now - s.engine.now) := by omega
  have he : (s.catchUp now).engine = s.engine.perform (.elapse (now - s.engine.now)) := by
    simp only [catchUp, Engine.perform, hmax]
  rw [he]
  exact .act _ h

/-- Every turn is a run. -/
lemma turn?_reachable {goal : Goal} {next : Session} (h : s.engine.Reachable)
    (ht : s.turn? goal = some next) :
    next.engine.Reachable := by
  unfold turn? at ht
  split at ht
  · rename_i id _
    dsimp only at ht
    split at ht
    all_goals
      cases ht
      exact h.step id
  · split at ht
    all_goals
      cases ht
      exact h
  · split at ht
    · obtain ⟨now, _, rfl⟩ := Option.map_eq_some_iff.1 ht
      cases goal with
      | ended id | time _ => exact catchUp_reachable h
    · cases ht
      exact h

/-- So are all turns up to a goal. -/
lemma runUntil_reachable {goal : Goal} {turns : Nat} (h : s.engine.Reachable) :
    (runUntil goal turns s).engine.Reachable := by
  induction turns generalizing s with
  | zero => exact h
  | succ turns ih =>
    unfold runUntil
    split
    · exact h
    · split
      · rename_i ht
        exact ih (turn?_reachable h ht)
      · exact h

/-- So is a call for a program. -/
theorem execute_reachable (h : s.engine.Reachable) (source : String) :
    (s.execute source).engine.Reachable :=
  runUntil_reachable (.act (.execute source) h)

/-- So is a call for an event. -/
theorem trigger_reachable (h : s.engine.Reachable) (name : String) :
    (s.trigger name).engine.Reachable :=
  runUntil_reachable (.act (.trigger name) h)

/-- So is a stop. -/
theorem stop_reachable (h : s.engine.Reachable) : s.stop.engine.Reachable := .act .stop h

/-- So is waiting. -/
theorem sleep_reachable (h : s.engine.Reachable) (ms : Nat) : (s.sleep ms).engine.Reachable :=
  runUntil_reachable h

/-- So is a call that nobody waits for. -/
theorem spawn_reachable (h : s.engine.Reachable) (source : String) :
    (s.spawn ⟨.source source, .fresh⟩).engine.Reachable := .act (.execute source) h

end Session

end Colloquy
