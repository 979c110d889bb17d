import Colloquy.Proofs.Grammar.Attribution
import Colloquy.Proofs.Machine.Halting
import Colloquy.Proofs.Machine.Deeds

/-!
# Where faults come from

What a thread has on its hands comes from its own statements and the functions that it has called
(`Stems`). A fault has the line of the node at work (`step_raises`), and then the thread only leaves
its frames (`step_failing`).
-/

namespace Colloquy

open List Control

/-- The nodes that call a function with some arguments. -/
inductive Node.Calls (function : String) (args : List Expr) (line : Nat) : Node → Prop where
  | expr :
    Calls function args line (.expr (.call function args line))
  | stmt :
    Calls function args line (.stmt (.call function args line))

section Calls

variable {n : Node} {function : String} {args : List Expr} {line : Nat}

lemma Node.Calls.line_eq (h : Node.Calls function args line n) : n.line = line := by
  cases h <;> rfl

lemma Node.Calls.parts_eq (h : Node.Calls function args line n) : n.parts = args.map Node.expr := by
  cases h <;> rfl

end Calls

/-- A frame waits for an outcome in order to go on with a node. -/
inductive Frame.Serves : Frame → Node → Prop where
  | leftOperand {op left right line} :
    Serves (.leftOperand op right line) (.expr (.binary op left right line))
  | rightOperand {op v left right line} :
    Serves (.rightOperand op v line) (.expr (.binary op left right line))
  | operand {op x line} :
    Serves (.operand op line) (.expr (.unary op x line))
  | object {x property line} :
    Serves (.object property line) (.expr (.member x property line))
  | property {v x property line} :
    Serves (.property v line) (.expr (.member x property line))
  | argument {function done rest args line n} :
    rest <:+ args →
    Node.Calls function args line n →
    Serves (.argument function done rest line) n
  | element {done rest elements line} :
    rest <:+ elements →
    Serves (.element done rest) (.expr (.list elements line))
  | field {done key rest fields line} :
    rest <:+ fields →
    Serves (.field done key rest) (.expr (.record fields line))
  | assign {target scope value line} :
    Serves (.assign target scope) (.stmt (.assign target scope value line))
  | increase {target scope amount line} :
    Serves (.adjust .increase target scope line) (.stmt (.increase target scope amount line))
  | decrease {target scope amount line} :
    Serves (.adjust .decrease target scope line) (.stmt (.decrease target scope amount line))
  | discardCall {function args line} :
    Serves .discard (.stmt (.call function args line))
  | discard {value line} :
    Serves .discard (.stmt (.expression value line))
  | branch {condition thenBody elseBody line} :
    Serves (.branch thenBody elseBody) (.stmt (.ifElse condition thenBody elseBody line))
  | test {condition body line} :
    Serves (.test condition body) (.stmt (.whileLoop condition body line))
  | again {condition body line} :
    Serves (.again condition body) (.stmt (.whileLoop condition body line))
  | iterable {item iterable body line} :
    Serves (.iterable item body line) (.stmt (.forEach item iterable body line))
  | nextItem {item left iterable body line} :
    Serves (.nextItem item left body) (.stmt (.forEach item iterable body line))
  | print {value endsLine line} :
    Serves (.print endsLine) (.stmt (.print value endsLine line))
  | giveBack {value line} :
    Serves .giveBack (.stmt (.giveBack value line))

/-- All statements of a row occur among some statements. -/
def OccurAll (body row : List Stmt) : Prop := ∀ s ∈ row, Occurs body (.stmt s)

/-- What a thread is about to do occurs among some statements. -/
inductive Control.Within (body : List Stmt) : Control → Prop where
  | eval {e} :
    Occurs body (.expr e) →
    Within body (.eval e)
  | block {row} :
    OccurAll body row →
    Within body (.block row)
  | loop {condition round line} :
    Occurs body (.stmt (.whileLoop condition round line)) →
    Within body (.loop condition round)
  | items {item left iterable round line} :
    Occurs body (.stmt (.forEach item iterable round line)) →
    Within body (.items item left round)
  | value {v} :
    Within body (.value v)
  | flow {f} :
    Within body (.flow f)
  | fault {f} :
    Within body (.fault f)
  | asking :
    Within body .asking
  | answered {text} :
    Within body (.answered text)
  | paused {next} :
    Within body next →
    Within body (.paused next)

/-- What a frame will go on with occurs among some statements. -/
inductive Frame.Within (body : List Stmt) : Frame → Prop where
  | serves {frame n} :
    Occurs body n →
    frame.Serves n →
    Within body frame
  | rest {row} :
    OccurAll body row →
    Within body (.rest row)
  | mainLine {row} :
    OccurAll body row →
    Within body (.mainLine row)

/-- The frames of a thread with its own statements and those in hand: each call has led from the
statements of the caller to the body of a known function. -/
inductive Under (known : List Stmt → Prop) (own : List Stmt) : List Stmt → List Frame → Prop where
  | base :
    Under known own own []
  | frame {body fr fs} :
    fr.Within body →
    Under known own body fs →
    Under known own body (fr :: fs)
  | scope {body outer saved depth detached fs} :
    known body →
    Under known own outer fs →
    Under known own body (.scope saved depth detached :: fs)

lemma Under.origin {known : List Stmt → Prop} {own body : List Stmt} {fs : List Frame}
    (h : Under known own body fs) :
    body = own ∨ known body := by
  induction h with
  | base => exact .inl rfl
  | frame _ _ ih => exact ih
  | scope hk _ _ => exact .inr hk

/-- The fault that a thread is leaving its frames for. -/
def Control.failure? : Control → Option Fault
  | .fault f => some f
  | .paused next => next.failure?
  | _ => none

namespace Thread

/-- A thread stems from its own statements and known functions, and has some in hand. -/
structure Stems (known : List Stmt → Prop) (own body : List Stmt) (t : Thread) : Prop where
  control : t.control.Within body
  frames : Under known own body t.frames

/-- The node that the next step of a thread works on. -/
inductive AtWork : Thread → Node → Prop where
  | eval {e fs} :
    AtWork ⟨.eval e, fs⟩ (.expr e)
  | block {stmt rest fs} :
    AtWork ⟨.block (stmt :: rest), fs⟩ (.stmt stmt)
  | value {v frame fs n} :
    frame.Serves n →
    AtWork ⟨.value v, frame :: fs⟩ n

/-- The next step raises a fault in its work on a node. -/
structure Raises (t : Thread) (s : State) (n : Node) (f : Fault) : Prop where
  atWork : t.AtWork n
  before : t.control.failure? = none
  after : (t.step s).1.control.failure? = some f

/-- What can come of the work on a node. -/
structure Sprung (known : List Stmt → Prop) (own : List Stmt) (n : Node) (t : Thread) : Prop where
  stems : ∃ body, t.Stems known own body
  blame : ∀ f, t.control.failure? = some f → f.line = n.line

section Work

variable {known : List Stmt → Prop} {own body : List Stmt} {n : Node} {fs : List Frame} {s : State}

lemma Sprung.same {c : Control} {frames : List Frame} (hc : c.Within body)
    (hf : Under known own body frames) (hn : c.failure? = none) :
    Sprung known own n ⟨c, frames⟩ := by
  refine ⟨⟨body, hc, hf⟩, fun f h => ?_⟩
  rw [hn] at h
  cases h

lemma Sprung.fault {e : RunError} (hf : Under known own body fs) :
    Sprung known own n ⟨.fault ⟨e, n.line⟩, fs⟩ := by
  refine ⟨⟨body, .fault, hf⟩, fun f h => ?_⟩
  cases h
  rfl

lemma settle_sprung {result : Except RunError Value} (hf : Under known own body fs) :
    Sprung known own n ⟨settle result n.line, fs⟩ := by
  cases result with
  | ok v => exact .same .value hf rfl
  | error e => exact .fault hf

/-- The functions that a state declares are known. -/
def Knows (known : List Stmt → Prop) (s : State) : Prop :=
  ∀ name f, s.store.functions.get? name = some f → known f.body

/-- The functions that are called are known. -/
lemma callee?_known {name : String} {count : Nat} {f : FunctionDecl} (hk : Knows known s)
    (h : callee? name count s = .ok f) : known f.body := by
  unfold callee? at h
  split at h
  · cases h
  · rename_i f' hget
    split at h
    · cases h
    · split at h
      · cases h
      · cases h
        exact hk name f hget

lemma enter_sprung {f : FunctionDecl} {args : List Value} (hk : known f.body)
    (hf : Under known own body fs) :
    Sprung known own n (enter f args fs s).1 := by
  have hbody : OccurAll f.body f.body := fun _ hs => .top hs
  unfold enter
  dsimp only
  split
  · exact .same (.paused (.block hbody)) (.scope hk hf) rfl
  · exact .same (.block hbody) (.scope hk hf) rfl

/-- A call fails with its own line. -/
lemma invoke_sprung {name args} (hk : Knows known s) (hf : Under known own body fs) :
    Sprung known own n (invoke name args n.line fs s).1 := by
  unfold invoke
  split
  · split
    · exact .same .value hf rfl
    · exact .same .asking hf rfl
    · exact .fault hf
  · split
    · rename_i f hc
      exact enter_sprung (callee?_known hk hc) hf
    · exact .fault hf

/-- Arguments fail with their own lines. -/
lemma evalArguments_sprung {function done rest args line} (hk : Knows known s) (ho : Occurs body n)
    (hc : Node.Calls function args line n) (hr : rest <:+ args) (hf : Under known own body fs) :
    Sprung known own n (evalArguments function done rest line fs s).1 := by
  cases rest with
  | nil =>
    rw [← hc.line_eq]
    exact invoke_sprung hk hf
  | cons e rest =>
    have he : Occurs body (.expr e) := by
      refine .part ho ?_
      rw [hc.parts_eq]
      exact mem_map_of_mem (hr.subset mem_cons_self)
    have hrest : rest <:+ args := (suffix_cons e rest).trans hr
    exact .same (.eval he) (.frame (.serves ho (.argument hrest hc)) hf) rfl

lemma evalElements_sprung {done rest elements line} (ho : Occurs body (.expr (.list elements line)))
    (hr : rest <:+ elements) (hf : Under known own body fs) :
    Sprung known own n (evalElements done rest fs) := by
  cases rest with
  | nil => exact .same .value hf rfl
  | cons e rest =>
    have he : Occurs body (.expr e) := .part ho (mem_map_of_mem (hr.subset mem_cons_self))
    have hrest : rest <:+ elements := (suffix_cons e rest).trans hr
    exact .same (.eval he) (.frame (.serves ho (.element hrest)) hf) rfl

lemma evalFields_sprung {done rest fields line} (ho : Occurs body (.expr (.record fields line)))
    (hr : rest <:+ fields) (hf : Under known own body fs) :
    Sprung known own n (evalFields done rest fs) := by
  cases rest with
  | nil => exact .same .value hf rfl
  | cons field rest =>
    have he : Occurs body (.expr field.2) :=
      .part ho (mem_map_of_mem (f := fun field => Node.expr field.2) (hr.subset mem_cons_self))
    have hrest : rest <:+ fields := (suffix_cons field rest).trans hr
    exact .same (.eval he) (.frame (.serves ho (.field hrest)) hf) rfl

/-- So does an expression. -/
lemma eval_sprung {e : Expr} (hk : Knows known s) (ho : Occurs body (.expr e))
    (hf : Under known own body fs) :
    Sprung known own (.expr e) (eval e fs s).1 := by
  have hpart {x : Expr} (hx : Node.expr x ∈ (Node.expr e).parts) : Within body (.eval x) :=
    .eval (.part ho hx)
  cases e with
  | literal v line => exact .same .value hf rfl
  | identifier name scope line =>
    simp only [eval]
    split
    · exact .same .value hf rfl
    · exact .fault hf
  | binary op left right line =>
    exact .same (hpart mem_cons_self) (.frame (.serves ho .leftOperand) hf) rfl
  | unary op operand line => exact .same (hpart mem_cons_self) (.frame (.serves ho .operand) hf) rfl
  | call function args line => exact evalArguments_sprung hk ho .expr suffix_rfl hf
  | member object property line =>
    exact .same (hpart mem_cons_self) (.frame (.serves ho .object) hf) rfl
  | list elements line => exact evalElements_sprung ho suffix_rfl hf
  | record fields line => exact evalFields_sprung ho suffix_rfl hf

/-- So does a statement. -/
lemma start_sprung {stmt : Stmt} (hk : Knows known s) (ho : Occurs body (.stmt stmt))
    (hf : Under known own body fs) :
    Sprung known own (.stmt stmt) (start stmt fs s).1 := by
  have hpart {x : Expr} (hx : Node.expr x ∈ (Node.stmt stmt).parts) :
    Within body (.eval x) := .eval (.part ho hx)
  cases stmt with
  | event name timer body line | function name params body line => exact .same .flow hf rfl
  | assign target scope value line =>
    exact .same (hpart mem_cons_self) (.frame (.serves ho .assign) hf) rfl
  | increase target scope amount line =>
    exact .same (hpart mem_cons_self) (.frame (.serves ho .increase) hf) rfl
  | decrease target scope amount line =>
    exact .same (hpart mem_cons_self) (.frame (.serves ho .decrease) hf) rfl
  | delete target scope line => exact .same .flow hf rfl
  | call function args line =>
    exact evalArguments_sprung hk ho .stmt suffix_rfl (.frame (.serves ho .discardCall) hf)
  | ifElse condition thenBody elseBody line =>
    exact .same (hpart mem_cons_self) (.frame (.serves ho .branch) hf) rfl
  | whileLoop condition body line => exact .same (.loop ho) hf rfl
  | forEach item iterable body line =>
    exact .same (hpart mem_cons_self) (.frame (.serves ho .iterable) hf) rfl
  | print value endsLine line =>
    exact .same (hpart mem_cons_self) (.frame (.serves ho .print) hf) rfl
  | giveBack value line =>
    cases value with
    | none => exact .same .flow hf rfl
    | some value => exact .same (hpart mem_cons_self) (.frame (.serves ho .giveBack) hf) rfl
  | expression value line => exact .same (hpart mem_cons_self) (.frame (.serves ho .discard) hf) rfl

lemma adjust_sprung {how target scope amount} (hf : Under known own body fs) :
    Sprung known own n (adjust how target scope n.line amount fs s).1 := by
  unfold adjust
  split
  · exact .same .flow hf rfl
  · exact .fault hf

/-- So does a frame that is handed a value. -/
lemma give_sprung {v frame} (hk : Knows known s) (ho : Occurs body n) (hs : frame.Serves n)
    (hf : Under known own body fs) : Sprung known own n (give v frame fs s).1 := by
  have hpart {x : Expr} (hx : Node.expr x ∈ n.parts) : Within body (.eval x) := .eval (.part ho hx)
  have hrow {row : List Stmt} (hr : ∀ x ∈ row, Node.stmt x ∈ n.parts) : Within body (.block row) :=
    .block fun x hx => .part ho (hr x hx)
  cases hs with
  | @leftOperand op left right line =>
    simp only [give]
    split
    · exact .same .value hf rfl
    · exact .same (hpart (mem_cons_of_mem _ mem_cons_self))
        (.frame (.serves ho .rightOperand) hf) rfl
  | rightOperand | operand => exact settle_sprung hf
  | object =>
    exact .same (hpart (mem_cons_of_mem _ mem_cons_self)) (.frame (.serves ho .property) hf) rfl
  | property => exact settle_sprung hf
  | argument hr hc => exact evalArguments_sprung hk ho hc hr hf
  | element hr => exact evalElements_sprung ho hr hf
  | field hr => exact evalFields_sprung ho hr hf
  | assign => exact .same .flow hf rfl
  | increase | decrease => exact adjust_sprung hf
  | discardCall | discard => exact .same .flow hf rfl
  | @branch condition thenBody elseBody line =>
    refine .same (hrow fun x hx => ?_) hf rfl
    split at hx
    · exact mem_append_left _ (mem_cons_of_mem _ (mem_map_of_mem hx))
    · exact mem_append_right _ (mem_map_of_mem hx)
  | @test condition round line =>
    have hround : ∀ x ∈ round, Node.stmt x ∈ (Node.stmt (.whileLoop condition round line)).parts :=
      fun x hx => mem_cons_of_mem _ (mem_map_of_mem hx)
    simp only [give]
    split
    · exact .same (hrow hround) (.frame (.serves ho .again) hf) rfl
    · exact .same .flow hf rfl
  | again => exact .same .value hf rfl
  | iterable =>
    simp only [give]
    split
    · exact .same (.items ho) hf rfl
    · exact .fault hf
  | nextItem => exact .same .value hf rfl
  | print | giveBack => exact .same .flow hf rfl

end Work

section Steps

variable {known : List Stmt → Prop} {own body : List Stmt} {fs : List Frame}
  {s : State} {t : Thread}

/-- A call that is left leads back to its caller. -/
lemma leave_stems {outcome onward : Control} {saved depth detached} (ho : outcome.Within body)
    (hon : ∀ outer, onward.Within outer)
    (h : Under known own body (.scope saved depth detached :: fs)) :
    ∃ body, (leave outcome onward saved depth detached fs s).1.Stems known own body := by
  cases h with
  | frame hw _ => cases hw with | serves _ hs => cases hs
  | @scope _ outer _ _ _ _ hk hf =>
    cases detached with
    | true => exact ⟨body, .paused ho, .scope hk hf⟩
    | false => exact ⟨outer, hon outer, hf⟩

/-- So does every frame at the end of a row. -/
lemma finish_stems {f frame} (h : Under known own body (frame :: fs)) :
    ∃ body, (finish f frame fs s).1.Stems known own body := by
  cases h with
  | scope hk hf => cases f <;> exact leave_stems .flow (fun _ => .value) (.scope hk hf)
  | frame hw hf =>
    cases hw with
    | rest hr => cases f with
      | done => exact ⟨body, .block hr, hf⟩
      | gaveBack v => exact ⟨body, .flow, hf⟩
    | mainLine hr => cases f <;> exact ⟨body, .block hr, hf⟩
    | serves ho hs =>
      cases f with
      | gaveBack v => cases hs <;> exact ⟨body, .flow, hf⟩
      | done =>
        cases hs with
        | again => exact ⟨body, .paused (.loop ho), hf⟩
        | nextItem => exact ⟨body, .items ho, hf⟩
        | _ => exact ⟨body, .flow, hf⟩

lemma finish_failure? {f frame} : (finish f frame fs s).1.control.failure? = none := by
  cases frame with
  | scope saved depth detached => cases f <;> cases detached <;> rfl
  | _ => cases f <;> rfl

lemma unwind_stems {f frame} (h : Under known own body (frame :: fs)) :
    ∃ body, (unwind f frame fs s).1.Stems known own body := by
  cases h with
  | scope hk hf => exact leave_stems .fault (fun _ => .fault) (.scope hk hf)
  | frame hw hf =>
    cases hw with
    | serves _ hs => cases hs <;> exact ⟨body, .fault, hf⟩
    | rest _ | mainLine _ => exact ⟨body, .fault, hf⟩

lemma give_stems {v frame} (hk : Knows known s) (h : Under known own body (frame :: fs)) :
    (∃ n, Occurs body n ∧ frame.Serves n ∧ Sprung known own n (give v frame fs s).1) ∨
      (∃ body, (give v frame fs s).1.Stems known own body) ∧
      (give v frame fs s).1.control.failure? = none := by
  cases h with
  | scope _ hf => exact .inr ⟨⟨_, .value, hf⟩, rfl⟩
  | frame hw hf =>
    cases hw with
    | serves ho hs => exact .inl ⟨_, ho, hs, give_sprung hk ho hs hf⟩
    | rest _ | mainLine _ => exact .inr ⟨⟨body, .value, hf⟩, rfl⟩

section

variable (hk : Knows known s) (h : t.Stems known own body)
include hk h

/-- A step goes on to statements that are then in hand. It works on a node, whose line its fault
has, or raises none. -/
lemma step_stems :
    (∃ n, Occurs body n ∧ t.AtWork n ∧ Sprung known own n (t.step s).1) ∨
      (∃ body, (t.step s).1.Stems known own body) ∧
        (t.control.failure? = none → (t.step s).1.control.failure? = none) := by
  obtain ⟨control, frames⟩ := t
  obtain ⟨hc, hf⟩ := h
  cases hc with
  | eval ho => exact .inl ⟨_, ho, .eval, eval_sprung hk ho hf⟩
  | @block row hr =>
    cases row with
    | nil => exact .inr ⟨⟨body, .flow, hf⟩, fun _ => rfl⟩
    | cons stmt rest =>
      simp only [step, block]
      split
      · exact .inr ⟨⟨body, .flow, hf⟩, fun _ => rfl⟩
      · have ho : Occurs body (.stmt stmt) := hr stmt mem_cons_self
        have hrest : OccurAll body rest := fun x hx => hr x (mem_cons_of_mem _ hx)
        exact .inl ⟨_, ho, .block, start_sprung hk ho (.frame (.rest hrest) hf)⟩
  | loop ho =>
    simp only [step]
    split
    · exact .inr ⟨⟨body, .flow, hf⟩, fun _ => rfl⟩
    · exact .inr ⟨⟨body, .eval (.part ho mem_cons_self),
        .frame (.serves ho .test) hf⟩, fun _ => rfl⟩
  | @items item left iterable round line ho =>
    have hround : OccurAll body round :=
      fun x hx => .part ho (mem_cons_of_mem _ (mem_map_of_mem hx))
    cases left with
    | nil => exact .inr ⟨⟨body, .flow, hf⟩, fun _ => rfl⟩
    | cons v left =>
      simp only [step, items]
      split
      · exact .inr ⟨⟨body, .flow, hf⟩, fun _ => rfl⟩
      · exact .inr ⟨⟨body, .block hround, .frame (.serves ho .nextItem) hf⟩, fun _ => rfl⟩
  | value =>
    cases frames with
    | nil => exact .inr ⟨⟨body, .value, hf⟩, fun _ => rfl⟩
    | cons frame frames =>
      rcases give_stems hk hf with ⟨n, ho, hs, hg⟩ | ⟨hg, hn⟩
      · exact .inl ⟨n, ho, .value hs, hg⟩
      · exact .inr ⟨hg, fun _ => hn⟩
  | flow =>
    cases frames with
    | nil => exact .inr ⟨⟨body, .flow, hf⟩, fun _ => rfl⟩
    | cons frame frames => exact .inr ⟨finish_stems hf, fun _ => finish_failure?⟩
  | fault =>
    cases frames with
    | nil => exact .inr ⟨⟨body, .fault, hf⟩, fun h => by cases h⟩
    | cons frame frames => exact .inr ⟨unwind_stems hf, fun h => by cases h⟩
  | asking => exact .inr ⟨⟨body, .answered, hf⟩, fun _ => rfl⟩
  | answered => exact .inr ⟨⟨body, .value, hf⟩, fun _ => rfl⟩
  | paused hn => exact .inr ⟨⟨body, hn, hf⟩, fun h => h⟩

lemma exists_stems : ∃ body, (t.step s).1.Stems known own body := by
  rcases step_stems hk h with ⟨_, _, _, hs⟩ | ⟨hs, _⟩
  · exact hs.stems
  · exact hs

lemma step_raises {f : Fault} (hb : t.control.failure? = none)
    (ha : (t.step s).1.control.failure? = some f) :
    ∃ n, Occurs body n ∧ t.Raises s n f ∧ f.line = n.line := by
  rcases step_stems hk h with ⟨n, ho, hw, hs⟩ | ⟨_, hn⟩
  · exact ⟨n, ho, ⟨hw, hb, ha⟩, hs.blame f ha⟩
  · rw [hn hb] at ha
    cases ha

end

end Steps

section Failing

variable {s : State} {t : Thread} {f : Fault} {outcome : Outcome}

/-- A thread that fails goes on to do so, and says nothing. -/
lemma step_failing (h : t.control.failure? = some f) (ho : t.outcome? = none) :
    (t.step s).1.control.failure? = some f ∧ said (t.deeds s) = [] := by
  obtain ⟨control, frames⟩ := t
  cases control with
  | fault g =>
    cases frames with
    | nil => cases ho
    | cons frame frames =>
      cases frame with
      | scope saved depth detached => cases detached <;> exact ⟨h, rfl⟩
      | _ => exact ⟨h, rfl⟩
  | paused next => exact ⟨h, rfl⟩
  | _ => cases h

lemma not_starts_of_failing (h : t.control.failure? = some f) : ¬ t.Starts s := by
  intro hs
  have hready := (starts_iff.1 hs).1
  obtain ⟨control, frames⟩ := t
  cases control with
  | fault g | paused next => cases hready
  | _ => cases h

/-- It comes to its fault. -/
lemma outcome_of_failing (h : t.control.failure? = some f) (ho : t.outcome? = some outcome) :
    outcome = .fault f := by
  obtain ⟨control, frames⟩ := t
  cases frames with
  | cons frame frames => cases ho
  | nil =>
    cases control with
    | fault g =>
      cases h
      cases ho
      rfl
    | paused next => cases ho
    | _ => cases h

/-- No other thread comes to one. -/
lemma outcome_of_not_failing (h : t.control.failure? = none) (ho : t.outcome? = some outcome) :
    ∀ f, outcome ≠ .fault f := by
  rintro f rfl
  obtain ⟨control, frames⟩ := t
  cases frames with
  | cons frame frames => cases ho
  | nil =>
    cases control with
    | fault g => cases h
    | _ => cases ho

end Failing

/-- None of some utterances is the message of an error. -/
def NoErrors (us : List Utterance) : Prop := ∀ text, .message .error text ∉ us

section Messages

variable {s : State}

lemma invokeDeeds_noErrors {name args} : NoErrors (said (invokeDeeds name args s)) := by
  intro text
  unfold invokeDeeds
  split
  · rename_i b _
    cases b <;> simp [Builtin.deeds, said, Deed.utterance?]
  · split <;> simp [said, Deed.utterance?]

lemma argumentDeeds_noErrors {function done rest} :
    NoErrors (said (argumentDeeds function done rest s)) := by
  cases rest with
  | nil => exact invokeDeeds_noErrors
  | cons e rest => exact fun _ => not_mem_nil

lemma giveDeeds_noErrors {v frame} : NoErrors (said (giveDeeds v frame s)) := by
  intro text
  cases frame with
  | argument function done rest line => exact argumentDeeds_noErrors text
  | adjust how target scope line =>
    simp only [giveDeeds, adjustDeeds]
    split <;> simp [said, Deed.utterance?]
  | _ => simp [giveDeeds, said, Deed.utterance?]

/-- The steps of a thread report no errors. -/
lemma deeds_noErrors {t : Thread} : NoErrors (said (t.deeds s)) := by
  intro text
  obtain ⟨control, frames⟩ := t
  cases control with
  | eval e =>
    cases e with
    | call function args line => exact argumentDeeds_noErrors text
    | _ => simp [deeds, evalDeeds, said, Deed.utterance?]
  | block body =>
    cases body with
    | nil => exact not_mem_nil
    | cons stmt rest =>
      simp only [deeds, blockDeeds]
      split
      · exact not_mem_nil
      · cases stmt with
        | call function args line => exact argumentDeeds_noErrors text
        | _ => simp [startDeeds, said, Deed.utterance?]
  | items item left body =>
    cases left with
    | nil => simp [deeds, itemsDeeds, said, Deed.utterance?]
    | cons v left =>
      simp only [deeds, itemsDeeds]
      split <;> simp [said, Deed.utterance?]
  | value v =>
    cases frames with
    | nil => exact not_mem_nil
    | cons frame frames => exact giveDeeds_noErrors text
  | flow f =>
    cases frames with
    | nil => exact not_mem_nil
    | cons frame frames =>
      cases frame with
      | scope saved depth detached =>
        simp only [deeds, finishDeeds, leaveDeeds]
        split <;> simp [said, Deed.utterance?]
      | nextItem item left body => cases f <;> simp [deeds, finishDeeds, said, Deed.utterance?]
      | _ => exact not_mem_nil
  | fault f =>
    cases frames with
    | nil => exact not_mem_nil
    | cons frame frames =>
      cases frame with
      | scope saved depth detached =>
        simp only [deeds, unwindDeeds, leaveDeeds]
        split <;> simp [said, Deed.utterance?]
      | _ => exact not_mem_nil
  | _ => exact not_mem_nil

end Messages

end Thread

end Colloquy
