import Colloquy.Proofs.Machine.Typing

/-!
# The setting of a thread

The events, the timers and what the host has heard are in the background of a thread: it looks at
none of this, nor below the frames that it works on. So above other frames and in front of another
background it comes to the same next one (`Thread.step_placed`).
-/

namespace Colloquy

open State

/-- Another background: its events and timers, and what its host has heard. -/
structure Backdrop where
  events : Table EventDecl → Table EventDecl := id
  timers : Registry → Registry := id
  past : List Utterance := []
  /-- All timers are cancelled in front of it as they are without it. -/
  cancelAll : ∀ r : Registry, (timers r).cancelAll.2 = timers r.cancelAll.2

/-- Another past of the host is another background. -/
def Backdrop.heard (past : List Utterance) : Backdrop := { past := past, cancelAll := fun _ => rfl }

/-- Other events and another past are another background. -/
def Backdrop.amid (events : Table EventDecl) (past : List Utterance) : Backdrop :=
  { Backdrop.heard past with events := fun _ => events }

/-- A state in front of another background. -/
def State.against (s : State) (b : Backdrop) : State :=
  { s with
    store := { s.store with events := b.events s.store.events }
    timers := b.timers s.timers
    host := { s.host with heard := s.host.heard ++ b.past } }

section Steps

variable {fs base : List Frame} {s : State} {b : Backdrop}

lemma State.against_heard_nil : s.against (.heard []) = s := by
  simp only [State.against, Backdrop.heard, id_eq, List.append_nil]

lemma State.assign_against {name scope v} :
    (s.against b).assign name scope v = (s.assign name scope v).against b := by
  cases scope <;> rfl

lemma State.remove_against {name scope} :
    (s.against b).remove name scope = (s.remove name scope).against b := by
  cases scope <;> rfl

lemma State.lookup_against {name scope} :
    (s.against b).store.lookup name scope = s.store.lookup name scope := by
  cases scope <;> rfl

lemma State.read_against {name scope} :
    (s.against b).store.read name scope = s.store.read name scope := by
  cases scope <;> rfl

lemma State.stop_against : (s.against b).stop = s.stop.against b := by
  simp only [State.stop, State.against, b.cancelAll]

namespace Thread

variable {t : Thread}

/-- A thread above other frames. -/
def onto (t : Thread) (base : List Frame) : Thread := ⟨t.control, t.frames ++ base⟩

/-- A thread above other frames, in front of another background. -/
def placed (base : List Frame) (b : Backdrop) (r : Thread × State) : Thread × State :=
  (r.1.onto base, r.2.against b)

lemma placed_heard_nil {r : Thread × State} : placed base (.heard []) r = (r.1.onto base, r.2) := by
  rw [placed, against_heard_nil]

lemma exists_roll :
    ∃ (number : Nat → Float) (next : Nat → Nat), ∀ h : Host, h.roll =
      (number h.seed, { h with seed := next h.seed }) :=
  ⟨fun seed => (Host.roll { seed := seed }).1, fun seed =>
  (Host.roll { seed := seed }).2.seed, fun _ => rfl⟩

lemma draw_against {args} :
    Builtin.draw args (s.against b) =
      ((Builtin.draw args s).1, (Builtin.draw args s).2.against b) := by
  obtain ⟨number, next, hroll⟩ := exists_roll
  unfold Builtin.draw
  cases args.mapM Value.number? with
  | none => rfl
  | some numbers =>
    simp only [hroll]
    rcases numbers with _ | ⟨upper, _ | ⟨high, _ | ⟨third, rest⟩⟩⟩ <;> rfl

/-- A draw changes nothing but the seed. -/
lemma draw_state (args : List Value) (s : State) :
    ∃ seed, (Builtin.draw args s).2 = { s with host := { s.host with seed := seed } } := by
  unfold Builtin.draw
  cases args.mapM Value.number? with
  | none => exact ⟨s.host.seed, rfl⟩
  | some numbers =>
    rcases numbers with _ | ⟨upper, _ | ⟨high, _ | ⟨third, rest⟩⟩⟩ <;> exact ⟨_, rfl⟩

/-- A built-in function is called at once. -/
lemma invoke_builtin {f : Builtin} {name args line} (h : Builtin.ofName? name = some f) :
    ∃ control, invoke name args line fs s = (⟨control, fs⟩, (f.call args s).2) := by
  simp only [invoke, h]
  rcases f.call args s with ⟨_ | _ | _, s'⟩ <;> exact ⟨_, rfl⟩

lemma call_against {f : Builtin} {args} :
    f.call args (s.against b) = ((f.call args s).1, (f.call args s).2.against b) := by
  cases f with
  | random => simp only [Builtin.call, draw_against]
  | terminate => exact congrArg (Prod.mk _) (stop_against (s := s.say .system Builtin.farewell))
  | _ => rfl

/-- A call looks at neither. -/
lemma invoke_placed {name args line} :
    invoke name args line (fs ++ base) (s.against b) =
      placed base b (invoke name args line fs s) := by
  unfold invoke
  cases Builtin.ofName? name with
  | some f =>
    simp only [call_against]
    generalize f.call args s = r
    obtain ⟨reply, s'⟩ := r
    cases reply with
    | error e => rfl
    | ok reply => cases reply <;> rfl
  | none =>
    have hc : callee? name args.length (s.against b) = callee? name args.length s := rfl
    simp only [hc]
    cases callee? name args.length s <;> rfl

lemma evalArguments_placed {function done rest line} :
    evalArguments function done rest line (fs ++ base) (s.against b) =
      placed base b (evalArguments function done rest line fs s) := by
  cases rest with
  | nil => exact invoke_placed
  | cons e rest => rfl

lemma evalElements_placed {done rest} :
    (evalElements done rest (fs ++ base), s.against b) =
      placed base b (evalElements done rest fs, s) := by
  cases rest <;> rfl

lemma evalFields_placed {done rest} :
    (evalFields done rest (fs ++ base), s.against b) =
      placed base b (evalFields done rest fs, s) := by
  cases rest <;> rfl

lemma eval_placed {e : Expr} : eval e (fs ++ base) (s.against b) = placed base b (eval e fs s) := by
  cases e with
  | identifier name scope line =>
    simp only [eval, lookup_against]
    cases s.store.lookup name scope <;> rfl
  | call function args line => exact evalArguments_placed
  | list elements line => exact evalElements_placed
  | record fields line => exact evalFields_placed
  | _ => rfl

/-- Nor does a statement. -/
lemma start_placed {stmt : Stmt} :
    start stmt (fs ++ base) (s.against b) = placed base b (start stmt fs s) := by
  cases stmt with
  | delete target scope line =>
    simp only [start, remove_against]
    rfl
  | call function args line =>
    change evalArguments function [] args line ((.discard :: fs) ++ base) (s.against b) = _
    exact evalArguments_placed
  | giveBack value line => cases value <;> rfl
  | _ => rfl

/-- Nor does a row of statements. -/
lemma block_placed {body} :
    block body (fs ++ base) (s.against b) = placed base b (block body fs s) := by
  cases body with
  | nil => rfl
  | cons stmt rest =>
    have hh : (s.against b).halted = s.halted := rfl
    simp only [block, hh]
    cases s.halted with
    | true => rfl
    | false =>
      change start stmt ((.rest rest :: fs) ++ base) (s.against b) = _
      exact start_placed

lemma items_placed {item left body} :
    items item left body (fs ++ base) (s.against b) =
      placed base b (items item left body fs s) := by
  cases left with
  | nil => rfl
  | cons v left =>
    have hh : (s.against b).halted = s.halted := rfl
    simp only [items, hh]
    cases s.halted <;> rfl

lemma adjust_placed {how target scope line amount} :
    adjust how target scope line amount (fs ++ base) (s.against b) =
      placed base b (adjust how target scope line amount fs s) := by
  unfold adjust
  rw [read_against]
  split
  · rw [assign_against]
    rfl
  · rfl

/-- Nor does a frame that is handed a value. -/
lemma give_placed {v frame} :
    give v frame (fs ++ base) (s.against b) = placed base b (give v frame fs s) := by
  cases frame with
  | leftOperand op right line =>
    simp only [give]
    split <;> rfl
  | argument function done rest line => exact evalArguments_placed
  | element done rest => exact evalElements_placed
  | field done key rest => exact evalFields_placed
  | assign target scope =>
    simp only [give, assign_against]
    rfl
  | adjust how target scope line => exact adjust_placed
  | test condition body | iterable item body line =>
    simp only [give]
    split <;> rfl
  | _ => rfl

lemma finish_placed {f frame} :
    finish f frame (fs ++ base) (s.against b) = placed base b (finish f frame fs s) := by
  cases frame with
  | scope saved depth detached => cases detached <;> cases f <;> rfl
  | _ => cases f <;> rfl

lemma unwind_placed {f frame} :
    unwind f frame (fs ++ base) (s.against b) = placed base b (unwind f frame fs s) := by
  cases frame with
  | scope saved depth detached => cases detached <;> rfl
  | _ => rfl

lemma step_of_outcome? {o : Outcome} (h : t.outcome? = some o) : t.step s = (t, s) := by
  obtain ⟨control, frames⟩ := t
  cases frames with
  | cons f fs => cases h
  | nil => cases control <;> first | rfl | cases h

/-- Steps look neither below the frames nor into the background. -/
lemma step_placed (ht : t.outcome? = none) :
    (t.onto base).step (s.against b) = placed base b (t.step s) := by
  obtain ⟨control, frames⟩ := t
  cases control with
  | eval e => exact eval_placed
  | block body => exact block_placed
  | loop condition body =>
    have hh : (s.against b).halted = s.halted := rfl
    simp only [onto, step, hh]
    cases s.halted <;> rfl
  | items item left body => exact items_placed
  | asking => rfl
  | answered text => rfl
  | paused next => rfl
  | value v =>
    cases frames with
    | nil => cases ht
    | cons frame frames => exact give_placed
  | flow f =>
    cases frames with
    | nil => cases ht
    | cons frame frames => exact finish_placed
  | fault f =>
    cases frames with
    | nil => cases ht
    | cons frame frames => exact unwind_placed

lemma step_onto (ht : t.outcome? = none) :
    (t.onto base).step s = ((t.step s).1.onto base, (t.step s).2) := by
  have h : (t.onto base).step (s.against (.heard [])) = placed base (.heard []) (t.step s) :=
    step_placed ht
  rwa [against_heard_nil, placed_heard_nil] at h

lemma step_against : t.step (s.against b) = ((t.step s).1, (t.step s).2.against b) := by
  cases ho : t.outcome? with
  | none =>
    have h : (t.onto []).step (s.against b) = placed [] b (t.step s) := step_placed ho
    simpa only [placed, onto, List.append_nil] using h
  | some o => rw [step_of_outcome? ho, step_of_outcome? ho]

end Thread

end Steps

end Colloquy
