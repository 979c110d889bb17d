import Colloquy.Proofs.Machine.Deeds
import Colloquy.Proofs.Machine.Halting
import Colloquy.Proofs.Machine.Scope

/-!
# Calls under way

The frame of a call keeps the footing of its caller (`Thread.callers`). A step calls, leaves a body,
or works in the body under way without touching callers, depth or lifecycle (`step_passage`). So
each body is one deeper than its caller, and the first stands at depth zero (`Stacked`).
-/

namespace Colloquy

open Thread Bool List

/-- The footing of the caller that a frame keeps. -/
def Frame.caller? : Frame → Option Footing
  | .scope saved depth _ => some (saved, depth)
  | _ => none

/-- The callers that some frames keep, the last one first. -/
def callersOf (fs : List Frame) : List Footing := fs.filterMap Frame.caller?

/-- Changes that leave depth and lifecycle alone: none, talk with the host, or a write. -/
inductive State.Mild (s : State) : State → Prop where
  | same :
    Mild s s
  | talk (h : Host) :
    Mild s { s with host := h }
  | assign {name scope v} :
    Mild s (s.assign name scope v)
  | remove {name scope} :
    Mild s (s.remove name scope)

lemma State.Mild.depth {s s' : State} (h : s.Mild s') : s'.depth = s.depth := by
  cases h <;> rfl

lemma State.Mild.maxDepth {s s' : State} (h : s.Mild s') : s'.maxDepth = s.maxDepth := by
  cases h <;> rfl

lemma State.Calm.maxDepth {s s' : State} (h : s.Calm s') : s'.maxDepth = s.maxDepth := by
  cases h <;> rfl

namespace Deed

/-- Whether a deed puts other local variables in their place. -/
def isSwap : Deed → Bool
  | .swap .. => true
  | _ => false

/-- The local variables after a deed done where they are. -/
def retrace (locals : Table Value) : Deed → Table Value
  | .write name .plain v => locals.insert name v
  | .erase name .plain => locals.erase name
  | .clear => []
  | _ => locals

/-- Deeds that swap nothing are retraced. -/
lemma foldl_replay_locals {ds : List Deed} {st : Store} (h : ds.any isSwap = false) :
    (ds.foldl replay st).locals = ds.foldl retrace st.locals := by
  induction ds generalizing st with
  | nil => rfl
  | cons d ds ih =>
    rw [any_cons, or_eq_false_iff] at h
    have hd : (d.replay st).locals = d.retrace st.locals := by
      cases d with
      | write name scope v | erase name scope => cases scope <;> rfl
      | swap found left => cases h.1
      | _ => rfl
    rw [foldl_cons, foldl_cons, ih h.2, hd]

end Deed

namespace Thread

variable {t : Thread} {s : State}

/-- The callers that wait for their bodies, the last one first. -/
def callers (t : Thread) : List Footing := callersOf t.frames

/-- How many bodies of functions are under way. -/
def activeCalls (t : Thread) : Nat := t.frames.countP Frame.isScope

lemma length_callers : t.callers.length = t.activeCalls := by
  rw [callers, callersOf, activeCalls, length_filterMap_eq_countP]
  refine countP_congr fun f _ => ?_
  cases f <;> exact Iff.rfl

/-- The function that the next step calls, and the arguments. -/
def call? (t : Thread) (s : State) : Option (String × List Value) :=
  match t.control, t.frames with
  | .eval (.call name [] _), _ => some (name, [])
  | .value v, .argument name done [] _ :: _ => some (name, (v :: done).reverse)
  | .block (.call name [] _ :: _), _ => if s.halted then none else some (name, [])
  | _, _ => none

/-- A thread calls what it is about to call. -/
lemma call?_eq_some_iff {name : String} {args : List Value} :
    t.call? s = some (name, args) ↔ t.Calls s name args := by
  constructor
  · intro h
    obtain ⟨control, frames⟩ := t
    dsimp only [call?] at h
    split at h
    · cases h
      exact .expression
    · cases h
      exact .argument
    · split at h
      · cases h
      · cases h
        exact .statement (eq_false_iff.2 ‹_›)
    · cases h
  · intro h
    cases h with
    | expression => rfl
    | argument => rfl
    | statement hh => simp only [call?, hh, false_eq_true, if_false]

/-- No value is handed to the frame of a call. -/
def Straight (t : Thread) : Prop := ∀ v f fs, t = ⟨.value v, f :: fs⟩ → f.isScope = false

lemma Typed.straight {q : Phrase} (ty : t.Typed q) : t.Straight := by
  rintro v f fs rfl
  have ht := (ty.linked rfl).cons_inv.1
  cases f with
  | scope saved depth detached => cases ht
  | _ => rfl

/-- The outcomes of a step with regard to the calls under way. -/
inductive Passage (s : State) (t : Thread) : Thread × State → Prop where
  /-- It works in the body under way. -/
  | work {r} :
    t.call? s = none →
    s.Mild r.2 →
    r.1.callers = t.callers →
    (t.deeds s).any Deed.isSwap = false →
    Passage s t r
  /-- It calls a function. -/
  | call {name args line fs} :
    t.Calls s name args →
    callersOf fs = t.callers →
    t.deeds s = invokeDeeds name args s →
    Passage s t (invoke name args line fs s)
  /-- It leaves the body of a function. -/
  | leave {c saved depth fs} :
    t.call? s = none →
    t.callers = (saved, depth) :: callersOf fs →
    Passage s t (⟨c, fs⟩, s.withScope saved depth)

section Passages

variable {fs : List Frame} {s : State}

lemma Passage.turn {t : Thread} {c : Control} (hc : t.call? s = none)
    (hfs : callersOf fs = t.callers) (hd : t.deeds s = []) : Passage s t (⟨c, fs⟩, s) := by
  refine .work hc .same hfs ?_
  rw [hd]
  rfl

lemma evalElements_callers {done rest} : (evalElements done rest fs).callers = callersOf fs := by
  cases rest <;> rfl

lemma evalFields_callers {done rest} : (evalFields done rest fs).callers = callersOf fs := by
  cases rest <;> rfl

/-- An expression works in the body. -/
lemma eval_passage {e : Expr} : Passage s ⟨.eval e, fs⟩ (eval e fs s) := by
  cases e with
  | identifier name scope line =>
    simp only [eval]
    split <;> exact .work rfl .same rfl rfl
  | call function args line =>
    cases args with
    | nil => exact .call .expression rfl rfl
    | cons arg args => exact .turn rfl rfl rfl
  | list elements line => exact .work rfl .same evalElements_callers rfl
  | record fields line => exact .work rfl .same evalFields_callers rfl
  | _ => exact .turn rfl rfl rfl

/-- A row of statements works in the body. -/
lemma block_passage {body} : Passage s ⟨.block body, fs⟩ (block body fs s) := by
  cases body with
  | nil => exact .turn rfl rfl rfl
  | cons stmt rest =>
    simp only [block]
    split
    · rename_i hh
      refine .turn ?_ rfl ?_
      · cases stmt with
        | call function args line => cases args <;> simp [call?, hh]
        | _ => rfl
      · simp only [deeds, blockDeeds, hh, if_true]
    · rename_i hh
      have hd : deeds ⟨.block (stmt :: rest), fs⟩ s = startDeeds stmt s := by
        simp only [deeds, blockDeeds, hh, false_eq_true, if_false]
      cases stmt with
      | delete target scope line => exact .work rfl .remove rfl (hd ▸ rfl)
      | call function args line =>
        cases args with
        | nil =>
          have hcallers : callersOf (.discard :: .rest rest :: fs) = callersOf fs := rfl
          exact .call (.statement (eq_false_iff.2 hh)) hcallers hd
        | cons arg args => exact .turn rfl rfl hd
      | giveBack value line => cases value <;> exact .turn rfl rfl hd
      | _ => exact .turn rfl rfl hd

/-- A round works in the body. -/
lemma items_passage {item left body} :
    Passage s ⟨.items item left body, fs⟩ (items item left body fs s) := by
  cases left with
  | nil => exact .work rfl .remove rfl rfl
  | cons v left =>
    simp only [items]
    split
    · rename_i hh
      refine .work rfl .remove rfl ?_
      simp only [deeds, itemsDeeds, hh, if_true]
      rfl
    · rename_i hh
      refine .work rfl .assign rfl ?_
      simp only [deeds, itemsDeeds, hh, false_eq_true, if_false]
      rfl

/-- So does a change. -/
lemma adjust_passage {how target scope line amount} :
    Passage s ⟨.value amount, .adjust how target scope line :: fs⟩
      (adjust how target scope line amount fs s) := by
  unfold adjust
  split
  · rename_i ha
    refine .work rfl .assign rfl ?_
    simp only [deeds, giveDeeds, adjustDeeds, ha]
    rfl
  · refine .work rfl .same rfl ?_
    simp only [deeds, giveDeeds, adjustDeeds]
    rfl

/-- A frame that is handed a value works in the body or calls. -/
lemma give_passage {v frame} (hf : frame.isScope = false) :
    Passage s ⟨.value v, frame :: fs⟩ (give v frame fs s) := by
  cases frame with
  | leftOperand op right line =>
    simp only [give]
    split <;> exact .turn rfl rfl rfl
  | argument function done rest line =>
    cases rest with
    | nil => exact .call .argument rfl rfl
    | cons e rest => exact .turn rfl rfl rfl
  | element done rest => exact .work rfl .same evalElements_callers rfl
  | field done key rest => exact .work rfl .same evalFields_callers rfl
  | assign target scope => exact .work rfl .assign rfl rfl
  | adjust how target scope line => exact adjust_passage
  | test condition body | iterable item body line =>
    simp only [give]
    split <;> exact .turn rfl rfl rfl
  | print endsLine => exact .work rfl (.talk _) rfl rfl
  | scope saved depth detached => cases hf
  | _ => exact .turn rfl rfl rfl

lemma leave_passage {c outcome onward : Control} {saved depth detached}
    (hc : call? ⟨c, .scope saved depth detached :: fs⟩ s = none)
    (hd : deeds ⟨c, .scope saved depth detached :: fs⟩ s = leaveDeeds saved detached s) :
    Passage s ⟨c, .scope saved depth detached :: fs⟩
      (leave outcome onward saved depth detached fs s) := by
  cases detached with
  | false => exact .leave hc rfl
  | true => exact .turn hc rfl hd

lemma finish_passage {f frame} : Passage s ⟨.flow f, frame :: fs⟩ (finish f frame fs s) := by
  cases frame with
  | scope saved depth detached => cases f <;> exact leave_passage rfl rfl
  | nextItem item left body =>
    cases f with
    | done => exact .turn rfl rfl rfl
    | gaveBack v => exact .work rfl .remove rfl rfl
  | _ => cases f <;> exact .turn rfl rfl rfl

lemma unwind_passage {f frame} : Passage s ⟨.fault f, frame :: fs⟩ (unwind f frame fs s) := by
  cases frame with
  | scope saved depth detached => exact leave_passage rfl rfl
  | _ => exact .turn rfl rfl rfl

/-- A step works in the body under way, calls, or leaves a body. -/
lemma step_passage {t : Thread} (h : t.Straight) : Passage s t (t.step s) := by
  obtain ⟨control, frames⟩ := t
  cases control with
  | eval e => exact eval_passage
  | block body => exact block_passage
  | loop condition body =>
    simp only [step]
    split <;> exact .turn rfl rfl rfl
  | items item left body => exact items_passage
  | asking => exact .work rfl (.talk _) rfl rfl
  | answered text | paused next => exact .turn rfl rfl rfl
  | value v =>
    cases frames with
    | nil => exact .turn rfl rfl rfl
    | cons frame frames => exact give_passage (h v frame frames rfl)
  | flow f =>
    cases frames with
    | nil => exact .turn rfl rfl rfl
    | cons frame frames => exact finish_passage
  | fault f =>
    cases frames with
    | nil => exact .turn rfl rfl rfl
    | cons frame frames => exact unwind_passage

end Passages

/-- A call comes to something at once, or enters a body. -/
inductive Invoked (s : State) (fs : List Frame) : List Deed → Thread × State → Prop where
  | direct {c s' ds} :
    s.Calm s' →
    ds.any Deed.isSwap = false →
    Invoked s fs ds (⟨c, fs⟩, s')
  | entered {f args} :
    s.depth < s.maxDepth →
    Invoked s fs [.swap s.store.locals (.ofList (f.params.zip args))] (enter f args fs s)

/-- Calls do one of the two. -/
lemma invoke_invoked {name : String} {args : List Value} {line : Nat} {fs : List Frame} :
    Invoked s fs (invokeDeeds name args s) (invoke name args line fs s) := by
  unfold invokeDeeds
  cases hb : Builtin.ofName? name with
  | some b =>
    obtain ⟨control, heq⟩ := invoke_builtin hb
    rw [heq]
    exact .direct call_calm (by cases b <;> rfl)
  | none =>
    simp only [invoke, hb]
    cases hc : callee? name args.length s with
    | error e => exact .direct .same rfl
    | ok f => exact .entered (callee?_depth hc)

/-- A declared function is entered below the limit. -/
lemma invoke_declared {name : String} {args : List Value} {line : Nat}
    {fs : List Frame} {f : FunctionDecl} (hb : Builtin.ofName? name = none)
    (hf : s.store.functions.get? name = some f) (hn : args.length = f.params.length) :
    invoke name args line fs s =
      if s.maxDepth ≤ s.depth then (⟨.fault ⟨.callDepth s.maxDepth, line⟩, fs⟩, s)
      else enter f args fs s := by
  have hc : callee? name args.length s = if s.maxDepth ≤ s.depth then .error (.callDepth s.maxDepth)
  else .ok f := by
    simp only [callee?, hf, hn, ne_eq, not_true_eq_false, if_false]
  simp only [invoke, hb, hc]
  by_cases hd : s.maxDepth ≤ s.depth
  · simp only [hd, if_true]
  · simp only [hd, if_false]

end Thread

/-- The footings of a body and of its callers, the last one first: depth grows by one with every
call, from zero with the variables outside of all calls. -/
inductive Stacked (top : Table Value) : Footing → List Footing → Prop where
  | top :
    Stacked top (top, 0) []
  | call {locals caller callers} :
    Stacked top caller callers →
    Stacked top (locals, caller.2 + 1) (caller :: callers)

section Stacks

variable {top : Table Value} {footing : Footing} {callers : List Footing} {t : Thread}
  {s : State} {q : Phrase}

lemma Stacked.depth_eq (h : Stacked top footing callers) : footing.2 = callers.length := by
  induction h with
  | top => rfl
  | call _ ih => exact congrArg (· + 1) ih

lemma Stacked.nil_inv (h : Stacked top footing []) : footing = (top, 0) := by
  cases h
  rfl

lemma Stacked.cons_inv {caller : Footing} (h : Stacked top footing (caller :: callers)) :
    footing.2 = caller.2 + 1 ∧ Stacked top caller callers := by
  cases h with
  | call h => exact ⟨rfl, h⟩

lemma Stacked.inside {caller : Footing} {locals : Table Value}
    (h : Stacked top footing (caller :: callers)) :
    Stacked top (locals, footing.2) (caller :: callers) := by
  rw [h.cons_inv.1]
  exact .call h.cons_inv.2

/-- A step keeps the depths in order, and writes outside of all calls are known there. -/
lemma Stacked.step (ty : t.Typed q) (h : Stacked top s.footing t.callers) :
    Stacked (if t.callers.isEmpty then (t.deeds s).foldl Deed.retrace top else top)
    (t.step s).2.footing (t.step s).1.callers := by
  have hacc : Accounts s (t.deeds s) (t.step s).2 := step_accounts
  have hp : Passage s t (t.step s) := step_passage ty.straight
  generalize t.step s = r at hacc hp
  -- a step in the body under way, which may be the one outside of all calls
  have within (hd : r.2.depth = s.depth) (hfs : r.1.callers = t.callers)
    (hs : (t.deeds s).any Deed.isSwap = false) :
      Stacked (if t.callers.isEmpty then (t.deeds s).foldl Deed.retrace top else top)
        r.2.footing r.1.callers := by
    have hfoot : r.2.footing = ((t.deeds s).foldl Deed.retrace s.store.locals, s.depth) := by
      rw [State.footing, hacc.store, Deed.foldl_replay_locals hs, hd]
    rw [hfoot, hfs]
    cases hc : t.callers with
    | nil =>
      rw [hc] at h
      obtain ⟨hloc, hdep⟩ := Prod.mk.inj h.nil_inv
      rw [hloc, hdep]
      exact .top
    | cons caller callers =>
      rw [hc] at h
      exact h.inside
  cases hp with
  | work _ hm hfs hs => exact within hm.depth hfs hs
  | @call name args line fs _ hfs hd =>
    have hinvoked : Invoked s fs (t.deeds s) (Thread.invoke name args line fs s) :=
      hd ▸ invoke_invoked
    generalize Thread.invoke name args line fs s = r at hinvoked within
    generalize t.deeds s = ds at hinvoked within
    cases hinvoked with
    | direct hcalm hs => exact within hcalm.depth hfs hs
    | @entered f args _ =>
      have hcallers : (Thread.enter f args fs s).1.callers = s.footing :: t.callers :=
        congrArg (s.footing :: ·) hfs
      have hstack :
        Stacked top (.ofList (f.params.zip args), s.depth + 1) (s.footing :: t.callers) := .call h
      rw [hcallers]
      split <;> exact hstack
  | leave _ hfs =>
    rw [hfs] at h
    rw [hfs]
    exact h.cons_inv.2

/-- No call goes beyond the greatest depth. -/
lemma Stacked.step_depth (ty : t.Typed q) (h : Stacked top s.footing t.callers)
    (hle : s.depth ≤ s.maxDepth) : (t.step s).2.depth ≤ s.maxDepth ∧
    (t.step s).2.maxDepth = s.maxDepth := by
  have hp : Passage s t (t.step s) := step_passage ty.straight
  generalize t.step s = r at hp
  cases hp with
  | work _ hm _ _ =>
    rw [hm.depth, hm.maxDepth]
    exact ⟨hle, rfl⟩
  | @call name args line fs _ _ _ =>
    have hinvoked :
        Invoked s fs (Thread.invokeDeeds name args s) (Thread.invoke name args line fs s) :=
      invoke_invoked
    generalize Thread.invoke name args line fs s = r at hinvoked
    generalize Thread.invokeDeeds name args s = ds at hinvoked
    cases hinvoked with
    | direct hcalm _ =>
      rw [hcalm.depth, hcalm.maxDepth]
      exact ⟨hle, rfl⟩
    | entered hlt => exact ⟨hlt, rfl⟩
  | @leave c saved depth fs _ hfs =>
    rw [hfs] at h
    have hd : s.depth = depth + 1 := h.cons_inv.1
    rw [hd] at hle
    exact ⟨Nat.le_of_succ_le hle, rfl⟩

end Stacks

end Colloquy
