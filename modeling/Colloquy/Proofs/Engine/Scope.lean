import Colloquy.Proofs.Machine.Run
import Colloquy.Proofs.Engine.Exclusion

/-!
# Evaluation in the caller's scope

`Within` are the engines until a phrase above some frames has come to its outcome, while others
call, stop and wait. However an evaluation ends, it leaves local variables, depth and declarations
as they were.
-/

namespace Colloquy

open Thread

namespace Stmt

/-- Whether a statement is made of one expression, or of none. -/
def isSimple : Stmt → Bool
  | .assign .. | .increase .. | .decrease .. | .call .. | .print
    .. | .giveBack .. | .expression .. => true
  | _ => false

/-- The local variable that a statement of an expression may write. -/
def localTarget? : Stmt → Option String
  | .assign target .plain _ _ | .increase target .plain _ _ | .decrease target .plain _ _ =>
    some target
  | _ => none

end Stmt

namespace Engine

variable {e : Engine} {id : TaskId} {depth : Nat}

/-- How many frames are below the outcome of a task's thread. -/
def settledDepth? (e : Engine) (id : TaskId) : Option Nat :=
  match e.thread? id with
  | some ⟨c, fs⟩ => if c.isSettled then some fs.length else none
  | none => none

/-- The engines until the thread of a task has an outcome above so many frames. -/
inductive Within (id : TaskId) (depth : Nat) (e : Engine) : Engine → Prop where
  | refl :
    Within id depth e e
  | act {d : Engine} (a : Action) :
    Within id depth e d →
    d.settledDepth? id ≠ some depth →
    Within id depth e (d.perform a)

section Evaluation

variable {e d : Engine} {id : TaskId} {depth : Nat} {fs base : List Frame}
  {thread t : Thread} {footing : Footing}

lemma Within.reachable (hr : e.Reachable) (h : Within id depth e d) : d.Reachable := by
  induction h with
  | refl => exact hr
  | act a _ _ ih => exact .act a ih

lemma thread?_inv (h : e.thread? id = some thread) :
    ∃ w answerDue, e.tasks[id]? = some ⟨w, .active thread answerDue⟩ := by
  unfold thread? at h
  split at h
  · rename_i w thread' answerDue ht
    cases h
    exact ⟨w, answerDue, ht⟩
  · cases h

lemma thread?_eq {w : Work} {answerDue : Nat}
    (h : e.tasks[id]? = some ⟨w, .active thread answerDue⟩) :
    e.thread? id = some thread := by
  rw [thread?, h]

lemma settledDepth?_eq {c : Control} (ht : e.thread? id = some ⟨c, fs⟩) (hc : c.isSettled = true) :
    e.settledDepth? id = some fs.length := by
  rw [settledDepth?, ht]
  exact if_pos hc

lemma settledDepth?_inv (ht : e.thread? id = some thread) (h : e.settledDepth? id = some depth) :
    thread.control.isSettled = true ∧ thread.frames.length = depth := by
  rw [settledDepth?, ht] at h
  simp only [Option.ite_none_right_eq_some, Option.some.injEq] at h
  exact h

lemma perform_thread (hr : e.Reachable) (ht : e.thread? id = some thread)
    (ho : thread.outcome? = none) (a : Action) :
    ((e.perform a).thread? id = some thread ∧ SameTables e.state (e.perform a).state) ∨
      ((e.perform a).thread? id = some (thread.step e.state).1 ∧
        (e.perform a).state = (thread.step e.state).2) := by
  obtain ⟨w, answerDue, htask⟩ := thread?_inv ht
  rcases perform_active hr htask ho a with ⟨⟨_, h⟩, hs⟩ | ⟨⟨_, h⟩, hs⟩
  · exact .inl ⟨thread?_eq h, hs⟩
  · exact .inr ⟨thread?_eq h, hs⟩

/-- An action is a step above the frames, or none of the thread. -/
lemma perform_onto (hr : e.Reachable) (ht : e.thread? id = some (t.onto base))
    (hn : e.settledDepth? id ≠ some base.length) (a : Action) :
    t.outcome? = none ∧
      ((e.perform a).thread? id = some (t.onto base) ∧ SameTables e.state (e.perform a).state ∨
        (e.perform a).thread? id = some ((t.step e.state).1.onto base) ∧
          (e.perform a).state = (t.step e.state).2) := by
  cases ho : t.outcome? with
  | some outcome =>
    obtain ⟨hfs, hc⟩ := settled_of_outcome? ho
    rw [Thread.onto, hfs] at ht
    exact (hn (settledDepth?_eq ht hc)).elim
  | none =>
    have h := perform_thread hr ht (Thread.outcome?_onto ho) a
    rw [step_onto ho] at h
    exact ⟨rfl, h⟩

/-- A thread evaluates an expression above some frames, and a footing comes back. -/
structure Evaluates (e : Engine) (id : TaskId) (base : List Frame) (footing : Footing)
    (t : Thread) : Prop where
  thread : e.thread? id = some (t.onto base)
  typed : t.Typed .expression
  footing : restored t.frames e.state.footing = footing

/-- An evaluation goes on with every action. -/
lemma Evaluates.perform (hr : e.Reachable) (h : e.Evaluates id base footing t)
    (ho : t.outcome? = none) (a : Action) :
    (∃ t', (e.perform a).Evaluates id base footing t') ∧
      (e.perform a).state.store.functions = e.state.store.functions ∧
      (e.perform a).state.store.events = e.state.store.events := by
  rcases perform_thread hr h.thread (Thread.outcome?_onto ho) a with ⟨ht, hs⟩ | ⟨ht, hs⟩
  · refine ⟨⟨t, ht, h.typed, ?_⟩, ?_, ?_⟩
    · rw [State.footing, hs.store, hs.depth]
      exact h.footing
    · rw [hs.store]
    · rw [hs.store]
  · rw [step_onto ho] at ht hs
    obtain ⟨hfun, hev⟩ := (step_change (s := e.state) h.typed).declarations
    refine ⟨⟨(t.step e.state).1, ht, step_typed h.typed, ?_⟩, ?_, ?_⟩
    · rw [hs, step_restored h.typed]
      exact h.footing
    · rw [hs]
      exact hfun
    · rw [hs]
      exact hev

lemma Evaluates.settled {outcome : Outcome} (h : e.Evaluates id base footing t)
    (ho : t.outcome? = some outcome) :
    e.settledDepth? id = some base.length := by
  obtain ⟨hfs, hc⟩ := settled_of_outcome? ho
  have ht := h.thread
  rw [Thread.onto, hfs] at ht
  exact settledDepth?_eq ht hc

/-- Until its outcome, an expression is evaluated. -/
lemma Within.evaluates {x : Expr} (hr : e.Reachable) (ht : e.thread? id = some ⟨.eval x, fs⟩)
    (h : Within id fs.length e d) :
    (∃ t, d.Evaluates id fs e.state.footing t) ∧ d.state.store.functions = e.state.store.functions ∧
      d.state.store.events = e.state.store.events := by
  induction h with
  | refl => exact ⟨⟨⟨.eval x, []⟩, ht, .of_phrase rfl .nil, rfl⟩, rfl, rfl⟩
  | @act d a hw hn ih =>
    obtain ⟨⟨t, h⟩, hfun, hev⟩ := ih
    cases ho : t.outcome? with
    | some outcome => exact (hn (h.settled ho)).elim
    | none =>
      obtain ⟨h', hfun', hev'⟩ := h.perform (hw.reachable hr) ho a
      exact ⟨h', hfun'.trans hfun, hev'.trans hev⟩

end Evaluation

section Statements

/-- The frame that ends a statement made of an expression. -/
inductive Closes : Stmt → Frame → Prop where
  | assign {target scope value line} :
    Closes (.assign target scope value line) (.assign target scope)
  | increase {target scope amount line} :
    Closes (.increase target scope amount line) (.adjust .increase target scope line)
  | decrease {target scope amount line} :
    Closes (.decrease target scope amount line) (.adjust .decrease target scope line)
  | call {function args line} :
    Closes (.call function args line) .discard
  | print {value endsLine line} :
    Closes (.print value endsLine line) (.print endsLine)
  | giveBack {value line} :
    Closes (.giveBack (some value) line) .giveBack
  | expression {value line} :
    Closes (.expression value line) .discard

/-- What a statement of an expression may have done to the variables. -/
structure Spares (stmt : Stmt) (before after : Table Value) (c : Control) : Prop where
  fault : ∀ f, c = .fault f → after = before
  target : after = before ∨ ∃ name v, stmt.localTarget? = some name ∧ after = before.insert name v

lemma Spares.same {stmt : Stmt} {before : Table Value} {c : Control} :
    Spares stmt before before c :=
  ⟨fun _ _ => rfl, .inl rfl⟩

lemma Spares.write {stmt : Stmt} {target : String} {scope : Scope} {s : State} {v : Value}
    (h : scope = .plain → stmt.localTarget? = some target) :
    Spares stmt s.store.locals (s.assign target scope v).store.locals (.flow .done) := by
  cases scope with
  | plain => exact ⟨nofun, .inr ⟨target, v, h rfl, rfl⟩⟩
  | global => exact .same

lemma Spares.adjust {stmt : Stmt} {how : Adjustment} {target : String} {scope : Scope}
    {line : Nat} {amount : Value} {fs : List Frame} {s : State}
    (h : scope = .plain → stmt.localTarget? = some target) :
    ∃ c, (Thread.adjust how target scope line amount fs s).1 = ⟨c, fs⟩ ∧ c.isSettled = true ∧
      Spares stmt s.store.locals
        (Thread.adjust how target scope line amount fs s).2.store.locals c := by
  unfold Thread.adjust
  split
  · exact ⟨_, rfl, rfl, .write h⟩
  · exact ⟨_, rfl, rfl, .same⟩

/-- A frame that ends a statement writes its target at most. -/
lemma Closes.give {stmt : Stmt} {frame : Frame} (h : Closes stmt frame) (v : Value)
    (fs : List Frame) (s : State) :
    ∃ c, (Thread.give v frame fs s).1 = ⟨c, fs⟩ ∧ c.isSettled = true ∧
      Spares stmt s.store.locals (Thread.give v frame fs s).2.store.locals c := by
  cases h with
  | assign =>
    refine ⟨_, rfl, rfl, .write ?_⟩
    rintro rfl
    rfl
  | increase | decrease =>
    refine Spares.adjust ?_
    rintro rfl
    rfl
  | call | print | giveBack | expression => exact ⟨_, rfl, rfl, .same⟩

lemma Closes.not_scope {stmt : Stmt} {frame : Frame} (h : Closes stmt frame) (f : Fault)
    (fs : List Frame) (s : State) :
    Thread.unwind f frame fs s = (⟨.fault f, fs⟩, s) := by
  cases h <;> rfl

/-- How far a statement has come: it evaluates, or has its outcome. -/
inductive Progress (stmt : Stmt) (id : TaskId) (fs : List Frame) (footing : Footing)
    (d : Engine) : Prop where
  | evaluating {frame : Frame} {t : Thread} :
    Closes stmt frame →
    d.Evaluates id (frame :: fs) footing t →
    Progress stmt id fs footing d
  | done {c : Control} :
    d.thread? id = some ⟨c, fs⟩ →
    c.isSettled = true →
    Spares stmt footing.1 d.state.store.locals c →
    Progress stmt id fs footing d

variable {e d : Engine} {id : TaskId} {stmt : Stmt} {fs base : List Frame}
  {footing : Footing} {rest : List Stmt}

/-- The step after the evaluation ends the statement. -/
lemma Progress.close {frame : Frame} {t : Thread} {outcome : Outcome} (hr : e.Reachable)
    (hcl : Closes stmt frame) (h : e.Evaluates id (frame :: fs) footing t)
    (ho : t.outcome? = some outcome) (a : Action) :
    Progress stmt id fs footing (e.perform a) := by
  obtain ⟨hfs, _⟩ := settled_of_outcome? ho
  obtain ⟨control, frames⟩ := t
  cases hfs
  have hcur : e.state.footing = footing := h.footing
  have hloc : e.state.store.locals = footing.1 := congrArg Prod.fst hcur
  rcases perform_thread hr h.thread (by cases control <;> rfl) a with ⟨ht, hs⟩ | ⟨ht, hs⟩
  · refine .evaluating hcl ⟨ht, h.typed, ?_⟩
    rw [State.footing, hs.store, hs.depth]
    exact h.footing
  · cases control with
    | value v =>
      obtain ⟨c, hthread, hc, hsp⟩ := hcl.give v fs e.state
      refine .done (c := c) ?_ hc ?_
      · rw [ht]
        exact congrArg some hthread
      · rw [hs, ← hloc]
        exact hsp
    | fault f =>
      have hu := hcl.not_scope f fs e.state
      refine .done (c := .fault f) ?_ rfl ?_
      · rw [ht]
        exact congrArg (fun r => some r.1) hu
      · rw [hs, ← hloc]
        change Spares stmt e.state.store.locals
          (Thread.unwind f frame fs e.state).2.store.locals (.fault f)
        rw [hu]
        exact .same
    | flow f =>
      -- an expression never comes to a flow
      have hscope : ([] : List Frame).any Frame.isScope = true := (h.typed.linked rfl).any_isScope
      cases hscope
    | _ => cases ho

/-- It goes on with every action. -/
lemma Progress.perform (hr : e.Reachable) (h : Progress stmt id fs footing e)
    (hn : e.settledDepth? id ≠ some fs.length) (a : Action) :
    Progress stmt id fs footing (e.perform a) := by
  cases h with
  | done ht hc _ => exact (hn (settledDepth?_eq ht hc)).elim
  | @evaluating frame t hcl h =>
    cases ho : t.outcome? with
    | some outcome => exact .close hr hcl h ho a
    | none =>
      obtain ⟨⟨t', h'⟩, _⟩ := h.perform hr ho a
      exact .evaluating hcl h'

/-- A step of a thread with no question open is taken. -/
lemma step_thread {thread : Thread} (ht : e.thread? id = some thread) (ho : thread.outcome? = none)
    (ha : thread.isAnswered = false) :
    (e.step id).thread? id = some (thread.step e.state).1 ∧
    (e.step id).state = (thread.step e.state).2 := by
  obtain ⟨w, answerDue, htask⟩ := thread?_inv ht
  have hlt : id < e.tasks.length := (List.getElem?_eq_some_iff.1 htask).1
  have hs : e.step id = e.advance id ⟨w, .active thread answerDue⟩ thread answerDue := by
    rw [step, htask]
  rw [hs, advance, ho]
  simp only [ha, Bool.false_and, Bool.false_eq_true, if_false, and_true]
  exact thread?_eq (List.getElem?_set_self hlt)

/-- A statement begins by evaluating its expression, if it has one. -/
lemma start_progress (hsimple : stmt.isSimple = true)
    (ht : e.thread? id = some ⟨.block (stmt :: rest), base⟩) (hh : e.state.halted = false) :
    Progress stmt id (.rest rest :: base) e.state.footing (e.step id) := by
  have hblock : Thread.step ⟨.block (stmt :: rest), base⟩ e.state =
      Thread.start stmt (.rest rest :: base) e.state := by
    simp [Thread.step, Thread.block, hh]
  obtain ⟨hthread, hstate⟩ := step_thread ht (by cases base <;> rfl) rfl
  rw [hblock] at hthread hstate
  have begin {frame : Frame} {value : Expr} (hcl : Closes stmt frame)
      (hst : Thread.start stmt (.rest rest :: base) e.state =
        (⟨.eval value, frame :: .rest rest :: base⟩, e.state)) :
      Progress stmt id (.rest rest :: base) e.state.footing (e.step id) := by
    rw [hst] at hthread hstate
    refine .evaluating hcl (t := ⟨.eval value, []⟩) ⟨hthread, .of_phrase rfl .nil, ?_⟩
    rw [hstate]
    rfl
  cases stmt with
  | assign target scope value line => exact begin .assign rfl
  | increase target scope amount line => exact begin .increase rfl
  | decrease target scope amount line => exact begin .decrease rfl
  | print value endsLine line => exact begin .print rfl
  | expression value line => exact begin .expression rfl
  | call function args line =>
    -- a call as a statement begins where the evaluation of a call is after its first step
    let t : Thread := ⟨.eval (.call function args line), []⟩
    have ty : t.Typed .expression := .of_phrase rfl .nil
    have hlift : Thread.start (.call function args line) (.rest rest :: base) e.state =
        ((t.step e.state).1.onto (.discard :: .rest rest :: base), (t.step e.state).2) := by
      have h : Thread.evalArguments function [] args line ([] ++ .discard :: .rest rest :: base)
          (e.state.against (.heard [])) = Thread.placed (.discard :: .rest rest :: base)
          (.heard []) (t.step e.state) :=
        evalArguments_placed
      rwa [List.nil_append, State.against_heard_nil, placed_heard_nil] at h
    rw [hlift] at hthread hstate
    refine .evaluating .call ⟨hthread, step_typed ty, ?_⟩
    rw [hstate, step_restored ty]
    rfl
  | giveBack value line =>
    cases value with
    | some value => exact begin .giveBack rfl
    | none =>
      refine .done hthread rfl ?_
      rw [hstate]
      exact .same
  | _ => cases hsimple

lemma Within.progress (hr : e.Reachable) (hsimple : stmt.isSimple = true)
    (ht : e.thread? id = some ⟨.block (stmt :: rest), base⟩) (hh : e.state.halted = false)
    (h : Within id (base.length + 1) (e.step id) d) :
    Progress stmt id (.rest rest :: base) e.state.footing d := by
  induction h with
  | refl => exact start_progress hsimple ht hh
  | act a hw hn ih => exact ih.perform (hw.reachable (hr.step id)) hn a

end Statements

/-- However the evaluation of an expression ends, and whatever others do meanwhile, it leaves local
variables, depth and declarations as they were. So a statement made of an expression leaves the
local variables as they were if it faults, and otherwise changes at most its target. -/
theorem evaluation_keeps_scope {e : Engine} (hr : e.Reachable) (id : TaskId) :
    (∀ (x : Expr) (fs : List Frame) (d : Engine), e.thread? id = some ⟨.eval x, fs⟩ →
      Within id fs.length e d → d.settledDepth? id = some fs.length →
        d.state.store.locals = e.state.store.locals ∧ d.state.depth = e.state.depth ∧
        d.state.store.functions = e.state.store.functions ∧
        d.state.store.events = e.state.store.events) ∧
    (∀ (stmt : Stmt) (rest : List Stmt) (fs : List Frame) (d : Engine), stmt.isSimple = true →
      e.thread? id = some ⟨.block (stmt :: rest), fs⟩ → e.state.halted = false →
      Within id (fs.length + 1) (e.step id) d → d.settledDepth? id = some (fs.length + 1) →
        ∃ c, d.thread? id = some ⟨c, .rest rest :: fs⟩ ∧
          ((∃ f, c = .fault f) → d.state.store.locals = e.state.store.locals) ∧
          (d.state.store.locals = e.state.store.locals ∨ ∃ name v, stmt.localTarget? = some name ∧
            d.state.store.locals = e.state.store.locals.insert name v)) := by
  refine ⟨?_, ?_⟩
  · intro x fs d ht hw hend
    obtain ⟨⟨t, h⟩, hfun, hev⟩ := hw.evaluates hr ht
    have hlen : (t.frames ++ fs).length = fs.length := (settledDepth?_inv h.thread hend).2
    have hnil : t.frames = [] := by simpa using hlen
    have hfoot : d.state.footing = e.state.footing := by
      have hf := h.footing
      rwa [hnil] at hf
    exact ⟨congrArg Prod.fst hfoot, congrArg Prod.snd hfoot, hfun, hev⟩
  · intro stmt rest fs d hsimple ht hh hw hend
    cases hw.progress hr hsimple ht hh with
    | @evaluating frame t _ h =>
      -- as long as its own frame is there, the statement has not come to an outcome
      have hlen : (t.frames ++ frame :: .rest rest :: fs).length = fs.length + 1 :=
        (settledDepth?_inv h.thread hend).2
      simp only [List.length_append, List.length_cons] at hlen
      omega
    | @done c hthread _ hsp =>
      refine ⟨c, hthread, ?_, hsp.target⟩
      rintro ⟨f, rfl⟩
      exact hsp.fault f rfl

/-- Whether a task's thread is above so many frames, or on its way, before each action. -/
def worksAbove (id : TaskId) (depth : Nat) : List Action → Engine → Bool
  | [], _ => true
  | a :: as, e => e.settledDepth? id != some depth && worksAbove id depth as (e.perform a)

lemma Within.run {d : Engine} {actions : List Action} (h : Within id depth e d)
    (hw : worksAbove id depth actions d = true) : Within id depth e (d.run actions) := by
  induction actions generalizing d with
  | nil => exact h
  | cons a as ih =>
    obtain ⟨hn, hw⟩ := Bool.and_eq_true_iff.1 hw
    exact ih (.act a h (bne_iff_ne.1 hn)) hw

/-- How many frames are below the expression that comes next. -/
def evalDepth? (e : Engine) (id : TaskId) : Option Nat :=
  match e.thread? id with
  | some ⟨.eval _, fs⟩ => some fs.length
  | _ => none

lemma evalDepth?_inv (h : e.evalDepth? id = some depth) :
    ∃ x fs, e.thread? id = some ⟨.eval x, fs⟩ ∧ fs.length = depth := by
  unfold evalDepth? at h
  split at h
  · rename_i x fs ht
    exact ⟨x, fs, ht, Option.some.inj h⟩
  · cases h

/-- How many frames are below the statement of an expression that comes next. -/
def simpleDepth? (e : Engine) (id : TaskId) : Option Nat :=
  match e.thread? id with
  | some ⟨.block (stmt :: _), fs⟩ => if stmt.isSimple then some fs.length else none
  | _ => none

lemma simpleDepth?_inv (h : e.simpleDepth? id = some depth) :
    ∃ stmt rest fs, e.thread? id = some ⟨.block (stmt :: rest), fs⟩ ∧
    stmt.isSimple = true ∧ fs.length = depth := by
  unfold simpleDepth? at h
  split at h
  · rename_i stmt rest fs ht
    obtain ⟨hs, hd⟩ := Option.ite_none_right_eq_some.1 h
    exact ⟨stmt, rest, fs, ht, hs, Option.some.inj hd⟩
  · cases h

/-- The last statement of a program comes next; it calls a function that sets a variable of its
caller's name. -/
def beforeCall : Engine :=
  (fresh defaultDepth {}).run
    (.execute "to f using n:\n    set t to 2\n    give back n\nset t to 1\nset t to f(t)\n"
      :: List.replicate 6 (.step 0))

/-- The engine that has begun it. -/
def calling : Engine := beforeCall.step 0

/-- The call, with a stop in the middle of the body. -/
def interruptedCall : List Action :=
  List.replicate 6 (.step 0) ++ .stop :: List.replicate 3 (.step 0)

/-- The stopped call leaves its caller's locals, and the statement sets its target at most. -/
theorem calling_keeps_scope :
    calling.Reachable ∧ (calling.run interruptedCall).state.halted = true ∧
    (calling.run interruptedCall).state.store.locals = calling.state.store.locals ∧
    ∃ stmt rest fs, beforeCall.thread? 0 = some ⟨.block (stmt :: rest), fs⟩ ∧
      ((calling.run (interruptedCall ++ [.step 0])).state.store.locals =
        beforeCall.state.store.locals ∨ ∃ name v, stmt.localTarget? = some name ∧
          (calling.run (interruptedCall ++ [.step 0])).state.store.locals =
            beforeCall.state.store.locals.insert name v) := by
  have hr : beforeCall.Reachable := (Reachable.fresh defaultDepth {}).run _
  have hrc : calling.Reachable := hr.step 0
  have hcall : calling.evalDepth? 0 = some 2 ∧ worksAbove 0 2 interruptedCall calling = true ∧
      (calling.run interruptedCall).settledDepth? 0 = some 2 ∧
      (calling.run interruptedCall).state.halted = true := by
    decide +kernel
  have hstmt : beforeCall.simpleDepth? 0 = some 0 ∧ beforeCall.state.halted = false ∧
      worksAbove 0 1 (interruptedCall ++ [.step 0]) calling = true ∧
      (calling.run (interruptedCall ++ [.step 0])).settledDepth? 0 = some 1 := by
    decide +kernel
  obtain ⟨heval, hworks, hend, hhalted⟩ := hcall
  obtain ⟨x, fs, ht, hlen⟩ := evalDepth?_inv heval
  have hw : Within 0 fs.length calling (calling.run interruptedCall) := by
    rw [hlen]
    exact Within.refl.run hworks
  have hlocals := ((evaluation_keeps_scope hrc 0).1 x fs _ ht hw (by rw [hlen]; exact hend)).1
  obtain ⟨hsimple, hh, hworks, hend⟩ := hstmt
  obtain ⟨stmt, rest, fs, ht, hs, hlen⟩ := simpleDepth?_inv hsimple
  have hw : Within 0 (fs.length + 1) calling (calling.run (interruptedCall ++ [.step 0])) := by
    rw [hlen]
    exact Within.refl.run hworks
  obtain ⟨_, _, _, htarget⟩ :=
    (evaluation_keeps_scope hr 0).2 stmt rest fs _ hs ht hh hw (by rw [hlen]; exact hend)
  exact ⟨hrc, hhalted, hlocals, stmt, rest, fs, ht, htarget⟩

end Engine

end Colloquy
