import Colloquy.Proofs.Machine.Typing

/-!
# Starting statements and rounds

`inProgress` counts the frames of statements and rounds under way, so that a step starts one exactly
if the number grows. That happens only at the head of one and if the sequence is not to halt
(`starts_iff`). A thread that is to halt comes to its end (`step_remaining`).
-/

namespace Colloquy

/-- Whether a frame stands below a statement or a round. -/
def Frame.isPending : Frame → Bool
  | .rest _ | .test .. | .again .. | .nextItem .. => true
  | _ => false

/-- How many statements and rounds are under way above some frames. -/
def inProgress : List Frame → Nat
  | [] => 0
  | f :: fs => inProgress fs + f.isPending.toNat

/-- A bound on the steps that are left if nothing is started any more. -/
@[simp] noncomputable def Control.remaining : Control → Nat
  | .eval e => 8 * sizeOf e
  | .value _ | .flow _ | .fault _ => 1
  | .answered _ | .block _ | .loop .. | .items .. => 2
  | .asking => 3
  | .paused next => next.remaining + 1

/-- A bound on the steps that a frame adds. -/
@[simp] noncomputable def Frame.remaining : Frame → Nat
  | .leftOperand _ right _ => 8 * sizeOf right + 1
  | .object key _ => 8 * sizeOf key + 1
  | .argument _ _ more _ => 8 * sizeOf more + 6
  | .element _ more => 8 * sizeOf more + 1
  | .field _ _ more => 8 * sizeOf more + 1
  | .scope _ _ detached => if detached then 3 else 1
  | .test .. => 5
  | .again .. => 3
  | .branch .. | .iterable .. | .rest _ | .nextItem .. | .mainLine _ => 2
  | _ => 1

/-- A bound on the steps that frames add. -/
@[simp] noncomputable def remainingBelow : List Frame → Nat
  | [] => 0
  | f :: fs => f.remaining + remainingBelow fs

/-- Whether a control is at the head of a statement or a round. -/
def Control.isReady : Control → Bool
  | .block (_ :: _) | .loop .. | .items _ (_ :: _) _ => true
  | _ => false

namespace Thread

/-- The next step starts a statement or a round: one more is under way. -/
def Starts (t : Thread) (s : State) : Prop := inProgress t.frames < inProgress (t.step s).1.frames

instance (t : Thread) (s : State) : Decidable (t.Starts s) := inferInstanceAs (Decidable (_ < _))

/-- A bound on the steps of a thread if nothing is started any more. -/
noncomputable def remaining (t : Thread) : Nat := t.control.remaining + remainingBelow t.frames

/-- The next step calls a function with some arguments. -/
inductive Calls (s : State) (name : String) : List Value → Thread → Prop where
  | expression {line fs} :
    Calls s name [] ⟨.eval (.call name [] line), fs⟩
  | argument {v done line fs} :
    Calls s name (v :: done).reverse ⟨.value v, .argument name done [] line :: fs⟩
  | statement {line rest fs} :
    s.halted = false →
    Calls s name [] ⟨.block (.call name [] line :: rest), fs⟩

section Counting

variable {fs : List Frame} {s : State} {t : Thread}

lemma invoke_inProgress {name args line} :
    inProgress (invoke name args line fs s).1.frames = inProgress fs := by
  unfold invoke
  split
  · split <;> rfl
  · split <;> rfl

lemma evalArguments_inProgress {function done rest line} :
    inProgress (evalArguments function done rest line fs s).1.frames = inProgress fs := by
  cases rest with
  | nil => exact invoke_inProgress
  | cons e rest => rfl

lemma evalElements_inProgress {done rest} :
    inProgress (evalElements done rest fs).frames = inProgress fs := by
  cases rest <;> rfl

lemma evalFields_inProgress {done rest} :
    inProgress (evalFields done rest fs).frames = inProgress fs := by
  cases rest <;> rfl

lemma eval_inProgress {e : Expr} : inProgress (eval e fs s).1.frames = inProgress fs := by
  cases e with
  | identifier name scope line =>
    simp only [eval]
    split <;> rfl
  | call function args line => exact evalArguments_inProgress
  | list elements line => exact evalElements_inProgress
  | record fields line => exact evalFields_inProgress
  | _ => rfl

lemma start_inProgress {stmt : Stmt} : inProgress (start stmt fs s).1.frames = inProgress fs := by
  cases stmt with
  | call function args line => exact evalArguments_inProgress
  | giveBack value line => cases value <;> rfl
  | _ => rfl

lemma adjust_inProgress {how target scope line amount} :
    inProgress (adjust how target scope line amount fs s).1.frames = inProgress fs := by
  unfold adjust
  split <;> rfl

/-- A value starts nothing. -/
lemma give_inProgress {v frame} :
    inProgress (give v frame fs s).1.frames ≤ inProgress (frame :: fs) := by
  cases frame with
  | leftOperand op right line =>
    simp only [give]
    split <;> exact Nat.le_refl _
  | argument function done rest line => exact Nat.le_of_eq evalArguments_inProgress
  | element done rest => exact Nat.le_of_eq evalElements_inProgress
  | field done key rest => exact Nat.le_of_eq evalFields_inProgress
  | adjust how target scope line => exact Nat.le_of_eq adjust_inProgress
  | test condition body =>
    simp only [give]
    split
    · exact Nat.le_refl _
    · exact Nat.le_succ _
  | iterable item body line =>
    simp only [give]
    split <;> exact Nat.le_refl _
  | _ => exact Nat.le_add_right _ _

lemma leave_inProgress {outcome onward : Control} {saved depth detached} :
    inProgress (leave outcome onward saved depth detached fs s).1.frames = inProgress fs := by
  cases detached <;> rfl

lemma finish_inProgress {f frame} :
    inProgress (finish f frame fs s).1.frames ≤ inProgress (frame :: fs) := by
  cases frame with
  | scope saved depth detached => cases f <;> exact Nat.le_of_eq leave_inProgress
  | _ => cases f <;> exact Nat.le_add_right _ _

lemma unwind_inProgress {f frame} :
    inProgress (unwind f frame fs s).1.frames ≤ inProgress (frame :: fs) := by
  cases frame with
  | scope saved depth detached => exact Nat.le_of_eq leave_inProgress
  | _ => exact Nat.le_add_right _ _

/-- A thread starts something exactly at its head, if the sequence is not to halt. -/
lemma starts_iff : t.Starts s ↔ t.control.isReady = true ∧ s.halted = false := by
  have never {c : Control} {fs : List Frame} (hc : c.isReady = false)
      (h : inProgress (step ⟨c, fs⟩ s).1.frames ≤ inProgress fs) :
      Starts ⟨c, fs⟩ s ↔ c.isReady = true ∧ s.halted = false := by
    refine ⟨fun hs => (Nat.not_lt.2 h hs).elim, fun hs => ?_⟩
    rw [hc] at hs
    cases hs.1
  have always {c : Control} {fs : List Frame} (hc : c.isReady = true)
      (hh : s.halted = true → inProgress (step ⟨c, fs⟩ s).1.frames = inProgress fs)
      (h : s.halted = false → inProgress (step ⟨c, fs⟩ s).1.frames = inProgress fs + 1) :
      Starts ⟨c, fs⟩ s ↔ c.isReady = true ∧ s.halted = false := by
    cases hhalt : s.halted with
    | true => exact ⟨fun hs => (Nat.ne_of_gt hs (hh hhalt)).elim, fun hs => Bool.noConfusion hs.2⟩
    | false =>
      refine ⟨fun _ => ⟨hc, rfl⟩, fun _ => ?_⟩
      rw [Starts, h hhalt]
      exact Nat.lt_succ_self _
  obtain ⟨control, frames⟩ := t
  cases control with
  | eval e => exact never rfl (Nat.le_of_eq eval_inProgress)
  | block body =>
    cases body with
    | nil => exact never rfl (Nat.le_refl _)
    | cons stmt rest =>
      refine always rfl (fun hh => ?_) (fun hh => ?_)
      · simp only [step, block, hh, if_true]
      · simp only [step, block, hh, Bool.false_eq_true, if_false]
        exact start_inProgress
  | loop condition body =>
    refine always rfl (fun hh => ?_) (fun hh => ?_)
    · simp only [step, hh, if_true]
    · simp only [step, hh, Bool.false_eq_true, if_false]
      rfl
  | items item left body =>
    cases left with
    | nil => exact never rfl (Nat.le_refl _)
    | cons v left =>
      refine always rfl (fun hh => ?_) (fun hh => ?_)
      · simp only [step, items, hh, if_true]
      · simp only [step, items, hh, Bool.false_eq_true, if_false]
        rfl
  | asking | answered text | paused next => exact never rfl (Nat.le_refl _)
  | value v =>
    cases frames with
    | nil => exact never rfl (Nat.le_refl _)
    | cons frame frames => exact never rfl give_inProgress
  | flow f =>
    cases frames with
    | nil => exact never rfl (Nat.le_refl _)
    | cons frame frames => exact never rfl finish_inProgress
  | fault f =>
    cases frames with
    | nil => exact never rfl (Nat.le_refl _)
    | cons frame frames => exact never rfl unwind_inProgress

lemma Calls.step_eq {name : String} {args : List Value} (h : t.Calls s name args) :
    ∃ line fs, t.step s = invoke name args line fs s := by
  cases h with
  | @expression line fs | @argument v done line fs => exact ⟨line, fs, rfl⟩
  | @statement line rest fs hh =>
    refine ⟨line, .discard :: .rest rest :: fs, ?_⟩
    simp only [step, block, hh, Bool.false_eq_true, if_false]
    rfl

lemma Calls.awake {name : String} {args : List Value} (h : t.Calls s name args) :
    t.outcome? = none ∧ t.isAnswered = false := by
  cases h with
  | @expression line fs => cases fs <;> exact ⟨rfl, rfl⟩
  | argument => exact ⟨rfl, rfl⟩
  | @statement line rest fs _ => cases fs <;> exact ⟨rfl, rfl⟩

lemma Calls.terminate {args : List Value} (h : t.Calls s Builtin.terminate.name args) :
    (t.step s).2 = (s.say .system Builtin.farewell).stop := by
  obtain ⟨line, fs, hstep⟩ := h.step_eq
  rw [hstep]
  rfl

end Counting

section Exhaustion

variable {fs : List Frame} {s : State}

lemma invoke_remaining {name args line} :
    (invoke name args line fs s).1.remaining ≤ 6 + remainingBelow fs := by
  unfold invoke
  split
  · split <;> simp [remaining, Control.remaining]
  · split
    · -- a body that has nothing to start any more costs no more than its call
      simp only [enter, remaining, remainingBelow]
      split <;> simp_all [Control.remaining, Frame.remaining] <;> omega
    · simp [remaining, Control.remaining]

/-- Arguments that are left bound the steps. -/
lemma evalArguments_remaining {function done rest line} :
    (evalArguments function done rest line fs s).1.remaining ≤
      8 * sizeOf rest + 6 + remainingBelow fs := by
  cases rest with
  | nil =>
    have h : (evalArguments function done [] line fs s).1.remaining ≤ 6 + remainingBelow fs :=
      invoke_remaining
    omega
  | cons e rest =>
    simp only [evalArguments, remaining, remainingBelow,
      Control.remaining, Frame.remaining, List.cons.sizeOf_spec]
    omega

lemma evalElements_remaining {done rest} :
    (evalElements done rest fs).remaining ≤ 8 * sizeOf rest + 1 + remainingBelow fs := by
  cases rest with
  | nil =>
    simp only [evalElements, remaining, Control.remaining]
    omega
  | cons e rest =>
    simp only [evalElements, remaining, remainingBelow,
      Control.remaining, Frame.remaining, List.cons.sizeOf_spec]
    omega

lemma evalFields_remaining {done rest} :
    (evalFields done rest fs).remaining ≤ 8 * sizeOf rest + 1 + remainingBelow fs := by
  cases rest with
  | nil =>
    simp only [evalFields, remaining, Control.remaining]
    omega
  | cons field rest =>
    obtain ⟨key, e⟩ := field
    simp only [evalFields, remaining, remainingBelow, Control.remaining,
      Frame.remaining, List.cons.sizeOf_spec, Prod.mk.sizeOf_spec]
    omega

/-- An expression is larger than its parts. -/
lemma eval_remaining {e : Expr} : (eval e fs s).1.remaining < 8 * sizeOf e + remainingBelow fs := by
  cases e with
  | literal v line =>
    simp only [eval, remaining, Control.remaining, Expr.literal.sizeOf_spec]
    omega
  | identifier name scope line =>
    simp only [eval]
    split <;> simp only [remaining, Control.remaining, Expr.identifier.sizeOf_spec] <;> omega
  | binary op left right line =>
    simp only [eval, remaining, remainingBelow, Control.remaining,
      Frame.remaining, Expr.binary.sizeOf_spec]
    omega
  | unary op operand line =>
    simp only [eval, remaining, remainingBelow, Control.remaining,
      Frame.remaining, Expr.unary.sizeOf_spec]
    omega
  | call function args line =>
    have h : (eval (.call function args line) fs s).1.remaining ≤
        8 * sizeOf args + 6 + remainingBelow fs :=
      evalArguments_remaining
    simp only [Expr.call.sizeOf_spec]
    omega
  | member object key line =>
    simp only [eval, remaining, remainingBelow, Control.remaining,
      Frame.remaining, Expr.member.sizeOf_spec]
    omega
  | list elements line =>
    have h : (eval (.list elements line) fs s).1.remaining ≤
        8 * sizeOf elements + 1 + remainingBelow fs :=
      evalElements_remaining
    simp only [Expr.list.sizeOf_spec]
    omega
  | record fields line =>
    have h :
        (eval (.record fields line) fs s).1.remaining ≤ 8 * sizeOf fields + 1 + remainingBelow fs :=
      evalFields_remaining
    simp only [Expr.record.sizeOf_spec]
    omega

lemma settle_remaining {result : Except RunError Value} {line} :
    (settle result line).remaining = 1 := by
  cases result <;> rfl

/-- A value that is handed to a frame leaves fewer steps. -/
lemma give_remaining {v frame} :
    (give v frame fs s).1.remaining < 1 + remainingBelow (frame :: fs) := by
  cases frame with
  | leftOperand op right line =>
    simp only [give]
    split <;> simp only [remaining, remainingBelow, Control.remaining, Frame.remaining] <;> omega
  | rightOperand op left line | operand op line | property object line =>
    simp only [give, remaining, remainingBelow, settle_remaining, Frame.remaining]
    omega
  | argument function done rest line =>
    have h : (give v (.argument function done rest line) fs s).1.remaining ≤
        8 * sizeOf rest + 6 + remainingBelow fs :=
      evalArguments_remaining
    simp only [remainingBelow, Frame.remaining]
    omega
  | element done rest =>
    have h :
        (give v (.element done rest) fs s).1.remaining ≤ 8 * sizeOf rest + 1 + remainingBelow fs :=
      evalElements_remaining
    simp only [remainingBelow, Frame.remaining]
    omega
  | field done key rest =>
    have h : (give v (.field done key rest) fs s).1.remaining ≤
        8 * sizeOf rest + 1 + remainingBelow fs :=
      evalFields_remaining
    simp only [remainingBelow, Frame.remaining]
    omega
  | adjust how target scope line =>
    simp only [give, Thread.adjust]
    split <;> simp only [remaining, remainingBelow, Control.remaining, Frame.remaining] <;> omega
  | test condition body | iterable item body line =>
    simp only [give]
    split <;> simp only [remaining, remainingBelow, Control.remaining, Frame.remaining] <;> omega
  | scope saved depth detached =>
    cases detached <;> simp [give, remaining, remainingBelow, Control.remaining, Frame.remaining]
  | _ =>
    simp only [give, remaining, remainingBelow, Control.remaining, Frame.remaining]
    omega

lemma leave_remaining {outcome onward : Control} {saved depth detached} (ho : outcome.remaining = 1)
    (hn : onward.remaining = 1) :
    (leave outcome onward saved depth detached fs s).1.remaining <
      1 + remainingBelow (.scope saved depth detached :: fs) := by
  cases detached <;> simp [leave, remaining, remainingBelow,
    Control.remaining, Frame.remaining, ho, hn]
  omega

lemma finish_remaining {f frame} :
    (finish f frame fs s).1.remaining < 1 + remainingBelow (frame :: fs) := by
  cases frame with
  | scope saved depth detached => cases f <;> exact leave_remaining rfl rfl
  | _ =>
    cases f <;> simp only [finish, remaining, remainingBelow,
      Control.remaining, Frame.remaining] <;> omega

lemma unwind_remaining {f frame} :
    (unwind f frame fs s).1.remaining < 1 + remainingBelow (frame :: fs) := by
  cases frame with
  | scope saved depth detached => exact leave_remaining rfl rfl
  | _ =>
    simp only [unwind, remaining, remainingBelow, Control.remaining, Frame.remaining]
    omega

/-- A thread that is to halt comes closer to its end. -/
lemma step_remaining {t : Thread} (hh : s.halted = true) (ho : t.outcome? = none) :
    (t.step s).1.remaining < t.remaining := by
  obtain ⟨control, frames⟩ := t
  cases control with
  | eval e => exact eval_remaining
  | block body =>
    cases body with
    | nil => simp [step, block, remaining, Control.remaining]
    | cons stmt rest => simp [step, block, hh, remaining, Control.remaining]
  | loop condition body => simp [step, hh, remaining, Control.remaining]
  | items item left body =>
    cases left with
    | nil => simp [step, items, remaining, Control.remaining]
    | cons v left => simp [step, items, hh, remaining, Control.remaining]
  | asking | answered text | paused next => simp [step, remaining, Control.remaining]
  | value v =>
    cases frames with
    | nil => cases ho
    | cons frame frames => exact give_remaining
  | flow f =>
    cases frames with
    | nil => cases ho
    | cons frame frames => exact finish_remaining
  | fault f =>
    cases frames with
    | nil => cases ho
    | cons frame frames => exact unwind_remaining

end Exhaustion

end Thread

end Colloquy
