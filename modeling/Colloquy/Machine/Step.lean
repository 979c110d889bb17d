import Colloquy.Builtin
import Colloquy.Value.Operator
import Colloquy.Machine.Thread

/-!
# Steps

One step of a thread. Statements begin only while the sequence is not to halt, and so do the rounds
of loops; a phrase that has begun is carried through. A fault leaves frame after frame, and the
frames of calls bring their caller's variables and depth back on the way.
-/

namespace Colloquy

namespace Thread

/-- Hands on what an operation came to, the error becoming a fault of a line. -/
def settle (result : Except RunError Value) (line : Nat) : Control :=
  match result with
  | .ok v => .value v
  | .error e => .fault ⟨e, line⟩

/-- Bodies of calls whose depth is a multiple of this run detached: others go first before they
begin and after they end. -/
def segment : Nat := 8

/-- Whether the body of a call at some depth runs detached. -/
def isDetached (depth : Nat) : Bool := 0 < depth && depth % segment == 0

/-- The declared function that a call with so many arguments enters. -/
def callee? (name : String) (count : Nat) (s : State) : Except RunError FunctionDecl :=
  match s.store.functions.get? name with
  | none => .error (.undefinedFunction name)
  | some f =>
    if count ≠ f.params.length then .error (.argumentCount name f.params.length count)
    else if s.maxDepth ≤ s.depth then .error (.callDepth s.maxDepth)
    else .ok f

/-- Enters the body of a function, where only its parameters are known. -/
def enter (f : FunctionDecl) (args : List Value) (frames : List Frame) (s : State) :
    Thread × State :=
  let detached := isDetached s.depth
  let body := Control.block f.body
  (⟨if detached then .paused body else body, .scope s.store.locals s.depth detached :: frames⟩,
    s.withScope (.ofList (f.params.zip args)) (s.depth + 1))

/-- Calls a function with arguments that are known. -/
def invoke (name : String) (args : List Value) (line : Nat) (frames : List Frame) (s : State) :
    Thread × State :=
  match Builtin.ofName? name with
  | some b =>
    match b.call args s with
    | (.ok (.value v), s) => (⟨.value v, frames⟩, s)
    | (.ok .answer, s) => (⟨.asking, frames⟩, s)
    | (.error e, s) => (⟨.fault ⟨e, line⟩, frames⟩, s)
  | none =>
    match callee? name args.length s with
    | .ok f => enter f args frames s
    | .error e => (⟨.fault ⟨e, line⟩, frames⟩, s)

/-- Evaluates the arguments that are left, and then calls the function. -/
def evalArguments (function : String) (done : List Value) (rest : List Expr) (line : Nat)
    (frames : List Frame) (s : State) : Thread × State :=
  match rest with
  | [] => invoke function done.reverse line frames s
  | e :: rest => (⟨.eval e, .argument function done rest line :: frames⟩, s)

/-- Evaluates the elements that are left, and then makes the list. -/
def evalElements (done : List Value) (rest : List Expr) (frames : List Frame) : Thread :=
  match rest with
  | [] => ⟨.value (.list done.reverse), frames⟩
  | e :: rest => ⟨.eval e, .element done rest :: frames⟩

/-- Evaluates the fields that are left, and then makes the record. -/
def evalFields (done : Table Value) (rest : List (String × Expr)) (frames : List Frame) : Thread :=
  match rest with
  | [] => ⟨.value (.record done), frames⟩
  | (key, e) :: rest => ⟨.eval e, .field done key rest :: frames⟩

/-- Begins to evaluate an expression. -/
def eval (e : Expr) (frames : List Frame) (s : State) : Thread × State :=
  match e with
  | .literal v _ => (⟨.value (.ofLiteral v), frames⟩, s)
  | .identifier name scope line =>
    match s.store.lookup name scope with
    | some v => (⟨.value v, frames⟩, s)
    | none => (⟨.fault ⟨.undefinedVariable name, line⟩, frames⟩, s)
  | .binary op left right line => (⟨.eval left, .leftOperand op right line :: frames⟩, s)
  | .unary op operand line => (⟨.eval operand, .operand op line :: frames⟩, s)
  | .call function args line => evalArguments function [] args line frames s
  | .member object property line => (⟨.eval object, .object property line :: frames⟩, s)
  | .list elements _ => (evalElements [] elements frames, s)
  | .record fields _ => (evalFields [] fields frames, s)

/-- Begins a statement. Declarations were made before the program began. -/
def start (stmt : Stmt) (frames : List Frame) (s : State) : Thread × State :=
  match stmt with
  | .event .. | .function .. => (⟨.flow .done, frames⟩, s)
  | .assign target scope value _ => (⟨.eval value, .assign target scope :: frames⟩, s)
  | .increase target scope amount line =>
    (⟨.eval amount, .adjust .increase target scope line :: frames⟩, s)
  | .decrease target scope amount line =>
    (⟨.eval amount, .adjust .decrease target scope line :: frames⟩, s)
  | .delete target scope _ => (⟨.flow .done, frames⟩, s.remove target scope)
  | .call function args line => evalArguments function [] args line (.discard :: frames) s
  | .ifElse condition thenBody elseBody _ =>
    (⟨.eval condition, .branch thenBody elseBody :: frames⟩, s)
  | .whileLoop condition body _ => (⟨.loop condition body, frames⟩, s)
  | .forEach item iterable body line => (⟨.eval iterable, .iterable item body line :: frames⟩, s)
  | .print value endsLine _ => (⟨.eval value, .print endsLine :: frames⟩, s)
  | .giveBack (some value) _ => (⟨.eval value, .giveBack :: frames⟩, s)
  | .giveBack none _ => (⟨.flow (.gaveBack .absent), frames⟩, s)
  | .expression value _ => (⟨.eval value, .discard :: frames⟩, s)

/-- Runs statements, each only if the sequence is not to halt. -/
def block (body : List Stmt) (frames : List Frame) (s : State) : Thread × State :=
  match body with
  | [] => (⟨.flow .done, frames⟩, s)
  | stmt :: rest =>
    if s.halted then (⟨.flow .done, frames⟩, s) else start stmt (.rest rest :: frames) s

/-- Begins a round of a loop over items. The item is no longer known when the loop is over. -/
def items (item : String) (left : List Value) (body : List Stmt) (frames : List Frame) (s : State) :
    Thread × State :=
  match left with
  | [] => (⟨.flow .done, frames⟩, s.remove item .plain)
  | v :: left =>
    if s.halted then (⟨.flow .done, frames⟩, s.remove item .plain)
    else (⟨.block body, .nextItem item left body :: frames⟩, s.assign item .plain v)

/-- Changes the number in a variable; a variable without a value counts as zero. -/
def adjust (how : Adjustment) (target : String) (scope : Scope) (line : Nat) (amount : Value)
    (frames : List Frame) (s : State) : Thread × State :=
  match (s.store.read target scope).getD (.number 0), amount with
  | .number a, .number b => (⟨.flow .done, frames⟩, s.assign target scope (.number (how.apply a b)))
  | _, _ => (⟨.fault ⟨how.refusal, line⟩, frames⟩, s)

/-- Hands a value to a frame. -/
def give (v : Value) (frame : Frame) (frames : List Frame) (s : State) : Thread × State :=
  match frame with
  | .leftOperand op right line =>
    match Value.settles? op v with
    | some v => (⟨.value v, frames⟩, s)
    | none => (⟨.eval right, .rightOperand op v line :: frames⟩, s)
  | .rightOperand op left line => (⟨settle (Value.apply op left v) line, frames⟩, s)
  | .operand op line => (⟨settle (Value.applyUnary op v) line, frames⟩, s)
  | .object property line => (⟨.eval property, .property v line :: frames⟩, s)
  | .property object line => (⟨settle (object.member v) line, frames⟩, s)
  | .argument function done rest line => evalArguments function (v :: done) rest line frames s
  | .element done rest => (evalElements (v :: done) rest frames, s)
  | .field done key rest => (evalFields (done.insert key v) rest frames, s)
  | .assign target scope => (⟨.flow .done, frames⟩, s.assign target scope v)
  | .adjust how target scope line => adjust how target scope line v frames s
  | .discard => (⟨.flow .done, frames⟩, s)
  | .branch thenBody elseBody =>
    (⟨.block (if v.isTruthy then thenBody else elseBody.getD []), frames⟩, s)
  | .test condition body =>
    if v.isTruthy then (⟨.block body, .again condition body :: frames⟩, s)
    else (⟨.flow .done, frames⟩, s)
  | .iterable item body line =>
    match v with
    | .list left => (⟨.items item left body, frames⟩, s)
    | _ => (⟨.fault ⟨.typeMismatch "Cannot iterate over non-array value", line⟩, frames⟩, s)
  | .print endsLine =>
    (⟨.flow .done, frames⟩,
    s.say .info (if endsLine then v.display else v.display ++ Utterance.openLine))
  | .giveBack => (⟨.flow (.gaveBack v), frames⟩, s)
  | .scope .. | .rest _ | .again .. | .nextItem .. | .mainLine _ => (⟨.value v, frames⟩, s)

/-- Leaves the body of a function with its outcome, after a pause if the body ran detached. -/
def leave (outcome : Control) (onward : Control) (saved : Table Value)
    (depth : Nat) (detached : Bool) (frames : List Frame) (s : State) : Thread × State :=
  if detached then (⟨.paused outcome, .scope saved depth false :: frames⟩, s)
  else (⟨onward, frames⟩, s.withScope saved depth)

/-- Hands the end of a row of statements to a frame. A value given back ends everything up to the
call. -/
def finish (f : Flow) (frame : Frame) (frames : List Frame) (s : State) : Thread × State :=
  match frame, f with
  | .rest body, .done => (⟨.block body, frames⟩, s)
  | .again condition body, .done => (⟨.paused (.loop condition body), frames⟩, s)
  | .nextItem item left body, .done => (⟨.items item left body, frames⟩, s)
  | .nextItem item _ _, .gaveBack v => (⟨.flow (.gaveBack v), frames⟩, s.remove item .plain)
  | .mainLine body, _ => (⟨.block body, frames⟩, s)
  | .scope saved depth detached, f =>
    leave (.flow f) (.value f.value) saved depth detached frames s
  | _, f => (⟨.flow f, frames⟩, s)

/-- Leaves a frame because of a fault. -/
def unwind (f : Fault) (frame : Frame) (frames : List Frame) (s : State) : Thread × State :=
  match frame with
  | .scope saved depth detached => leave (.fault f) (.fault f) saved depth detached frames s
  | _ => (⟨.fault f, frames⟩, s)

/-- One step of a thread. A thread that has ended stays as it is. -/
def step (t : Thread) (s : State) : Thread × State :=
  match t.control, t.frames with
  | .eval e, frames => eval e frames s
  | .block body, frames => block body frames s
  | .loop condition body, frames =>
    if s.halted then (⟨.flow .done, frames⟩, s)
    else (⟨.eval condition, .test condition body :: frames⟩, s)
  | .items item left body, frames => items item left body frames s
  | .asking, frames =>
    let (text, host) := s.host.answer
    (⟨.answered text, frames⟩, { s with host := host })
  | .answered text, frames => (⟨.value (.ofInput text), frames⟩, s)
  | .paused next, frames => (⟨next, frames⟩, s)
  | .value v, frame :: frames => give v frame frames s
  | .flow f, frame :: frames => finish f frame frames s
  | .fault f, frame :: frames => unwind f frame frames s
  | .value _, [] | .flow _, [] | .fault _, [] => (t, s)

end Thread

end Colloquy
