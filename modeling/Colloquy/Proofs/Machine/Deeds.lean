import Colloquy.Proofs.Machine.Backdrop

/-!
# What a thread does to the variables and says to the host

`Thread.deeds` lists what the next step reads, writes and says. The list is the whole truth
(`step_accounts`): reads find what the tables hold, the tables change by the writes alone, and the
host has heard what was said.
-/

namespace Colloquy

/-- One thing that is done to the variables or said to the host. -/
inductive Deed where
  /-- A name in an expression is looked up. -/
  | lookUp (name : String) (scope : Scope) (found : Option Value)
  /-- A name is read in one table. -/
  | read (name : String) (scope : Scope) (found : Option Value)
  | write (name : String) (scope : Scope) (value : Value)
  | erase (name : String) (scope : Scope)
  /-- All local variables are taken away, and others are put in their place. -/
  | swap (found left : Table Value)
  /-- Both tables are emptied. -/
  | clear
  | utter (u : Utterance)

namespace Deed

/-- The tables after a deed. -/
def replay (st : Store) : Deed → Store
  | .lookUp .. | .read .. | .utter _ => st
  | .write name scope v => st.assign name scope v
  | .erase name scope => st.remove name scope
  | .swap _ left => st.withLocals left
  | .clear => { st with locals := [], globals := [] }

/-- What a deed finds in the tables is there. -/
def Finds (st : Store) : Deed → Prop
  | .lookUp name scope found => found = st.lookup name scope
  | .read name scope found => found = st.read name scope
  | .swap found _ => found = st.locals
  | _ => True

/-- What a deed says. -/
def utterance? : Deed → Option Utterance
  | .utter u => some u
  | _ => none

end Deed

/-- What some deeds say, in order. -/
def said (deeds : List Deed) : List Utterance := deeds.filterMap Deed.utterance?

/-- Every deed finds what the deeds before it have left. -/
def Coherent (st : Store) : List Deed → Prop
  | [] => True
  | d :: deeds => d.Finds st ∧ Coherent (d.replay st) deeds

/-- These deeds are all that happened to the tables and to the host. -/
structure Accounts (s : State) (deeds : List Deed) (s' : State) : Prop where
  found : Coherent s.store deeds
  store : s'.store = deeds.foldl Deed.replay s.store
  heard : s'.host.heard = (said deeds).reverse ++ s.host.heard

lemma Accounts.none {s s' : State} (hs : s'.store = s.store) (hh : s'.host.heard = s.host.heard) :
    Accounts s [] s' :=
  ⟨trivial, hs, hh⟩

lemma Accounts.one {s s' : State} {d : Deed} (hf : d.Finds s.store)
    (hs : s'.store = d.replay s.store) (hh : s'.host.heard = (said [d]).reverse ++ s.host.heard) :
    Accounts s [d] s' :=
  ⟨⟨hf, trivial⟩, hs, hh⟩

/-- What a built-in function says. -/
def Builtin.deeds (args : List Value) : Builtin → List Deed
  | .say | .print => [.utter (.message .info (joined args))]
  | .display => [.utter (.message .info (joined args ++ Utterance.openLine))]
  | .ask | .input => [.utter (.prompt ((args.head?.map Value.display).getD ""))]
  | .terminate => [.utter (.message .system farewell)]
  | .random | .length => []

namespace Thread

/-- The deeds of a call with arguments that are known. -/
def invokeDeeds (name : String) (args : List Value) (s : State) : List Deed :=
  match Builtin.ofName? name with
  | some b => b.deeds args
  | none =>
    match callee? name args.length s with
    | .ok f => [.swap s.store.locals (.ofList (f.params.zip args))]
    | .error _ => []

/-- The deeds of a call once one more argument is known. -/
def argumentDeeds (function : String) (done : List Value) (rest : List Expr)
    (s : State) : List Deed :=
  match rest with
  | [] => invokeDeeds function done.reverse s
  | _ :: _ => []

/-- The deeds of an expression that begins. -/
def evalDeeds (e : Expr) (s : State) : List Deed :=
  match e with
  | .identifier name scope _ => [.lookUp name scope (s.store.lookup name scope)]
  | .call function args _ => argumentDeeds function [] args s
  | _ => []

/-- The deeds of a statement that begins. -/
def startDeeds (stmt : Stmt) (s : State) : List Deed :=
  match stmt with
  | .delete target scope _ => [.erase target scope]
  | .call function args _ => argumentDeeds function [] args s
  | _ => []

/-- The deeds of a row of statements that goes on. -/
def blockDeeds (body : List Stmt) (s : State) : List Deed :=
  match body with
  | [] => []
  | stmt :: _ => if s.halted then [] else startDeeds stmt s

/-- The deeds of a loop over items that goes on. -/
def itemsDeeds (item : String) (left : List Value) (s : State) : List Deed :=
  match left with
  | [] => [.erase item .plain]
  | v :: _ => if s.halted then [.erase item .plain] else [.write item .plain v]

/-- The deeds of changing a number in a variable. -/
def adjustDeeds (how : Adjustment) (target : String) (scope : Scope) (amount : Value)
    (s : State) : List Deed :=
  .read target scope (s.store.read target scope) ::
    match (s.store.read target scope).getD (.number 0), amount with
    | .number a, .number b => [.write target scope (.number (how.apply a b))]
    | _, _ => []

/-- The deeds of a frame that is handed a value. -/
def giveDeeds (v : Value) (frame : Frame) (s : State) : List Deed :=
  match frame with
  | .argument function done rest _ => argumentDeeds function (v :: done) rest s
  | .assign target scope => [.write target scope v]
  | .adjust how target scope _ => adjustDeeds how target scope v s
  | .print endsLine =>
    [.utter (.message .info (if endsLine then v.display else v.display ++ Utterance.openLine))]
  | _ => []

/-- The deeds of leaving the body of a function. -/
def leaveDeeds (saved : Table Value) (detached : Bool) (s : State) : List Deed :=
  if detached then [] else [.swap s.store.locals saved]

/-- The deeds of a frame at the end of a row. -/
def finishDeeds (f : Flow) (frame : Frame) (s : State) : List Deed :=
  match frame, f with
  | .nextItem item _ _, .gaveBack _ => [.erase item .plain]
  | .scope saved _ detached, _ => leaveDeeds saved detached s
  | _, _ => []

/-- The deeds of a frame that is left because of a fault. -/
def unwindDeeds (frame : Frame) (s : State) : List Deed :=
  match frame with
  | .scope saved _ detached => leaveDeeds saved detached s
  | _ => []

/-- What the next step of a thread does. -/
def deeds (t : Thread) (s : State) : List Deed :=
  match t.control, t.frames with
  | .eval e, _ => evalDeeds e s
  | .block body, _ => blockDeeds body s
  | .items item left _, _ => itemsDeeds item left s
  | .value v, frame :: _ => giveDeeds v frame s
  | .flow f, frame :: _ => finishDeeds f frame s
  | .fault _, frame :: _ => unwindDeeds frame s
  | _, _ => []

section Effects

variable {fs : List Frame} {s : State}

lemma call_accounts {b : Builtin} {args} : Accounts s (b.deeds args) (b.call args s).2 := by
  cases b with
  | random =>
    obtain ⟨seed, hdraw⟩ := draw_state args s
    rw [Builtin.call, hdraw]
    exact .none rfl rfl
  | length => exact .none rfl rfl
  | _ => exact .one trivial rfl rfl

/-- A call does what it is said to do. -/
lemma invoke_accounts {name args line} :
    Accounts s (invokeDeeds name args s) (invoke name args line fs s).2 := by
  unfold invokeDeeds
  cases hb : Builtin.ofName? name with
  | some b =>
    obtain ⟨control, heq⟩ := invoke_builtin hb
    rw [heq]
    exact call_accounts
  | none =>
    simp only [invoke, hb]
    cases callee? name args.length s with
    | ok f => exact .one rfl rfl rfl
    | error e => exact .none rfl rfl

lemma evalArguments_accounts {function done rest line} :
    Accounts s (argumentDeeds function done rest s)
    (evalArguments function done rest line fs s).2 := by
  cases rest with
  | nil => exact invoke_accounts
  | cons e rest => exact .none rfl rfl

lemma eval_accounts {e : Expr} : Accounts s (evalDeeds e s) (eval e fs s).2 := by
  cases e with
  | identifier name scope line =>
    simp only [eval]
    split <;> exact .one rfl rfl rfl
  | call function args line => exact evalArguments_accounts
  | _ => exact .none rfl rfl

lemma start_accounts {stmt : Stmt} : Accounts s (startDeeds stmt s) (start stmt fs s).2 := by
  cases stmt with
  | delete target scope line => exact .one trivial rfl rfl
  | call function args line => exact evalArguments_accounts
  | giveBack value line => cases value <;> exact .none rfl rfl
  | _ => exact .none rfl rfl

lemma block_accounts {body} : Accounts s (blockDeeds body s) (block body fs s).2 := by
  cases body with
  | nil => exact .none rfl rfl
  | cons stmt rest =>
    simp only [block, blockDeeds]
    split
    · exact .none rfl rfl
    · exact start_accounts

lemma items_accounts {item left body} :
    Accounts s (itemsDeeds item left s) (items item left body fs s).2 := by
  cases left with
  | nil => exact .one trivial rfl rfl
  | cons v left =>
    simp only [items, itemsDeeds]
    split <;> exact .one trivial rfl rfl

/-- So does an adjustment. -/
lemma adjust_accounts {how target scope line amount} :
    Accounts s (adjustDeeds how target scope amount s)
    (adjust how target scope line amount fs s).2 := by
  unfold adjust adjustDeeds
  cases (s.store.read target scope).getD (.number 0) with
  | number a =>
    cases amount with
    | number b => exact ⟨⟨rfl, trivial, trivial⟩, rfl, rfl⟩
    | _ => exact .one rfl rfl rfl
  | _ => exact .one rfl rfl rfl

/-- So does a frame that is handed a value. -/
lemma give_accounts {v frame} : Accounts s (giveDeeds v frame s) (give v frame fs s).2 := by
  cases frame with
  | leftOperand op right line =>
    simp only [give]
    split <;> exact .none rfl rfl
  | argument function done rest line => exact evalArguments_accounts
  | assign target scope => exact .one trivial rfl rfl
  | adjust how target scope line => exact adjust_accounts
  | test condition body | iterable item body line =>
    simp only [give]
    split <;> exact .none rfl rfl
  | print endsLine => exact .one trivial rfl rfl
  | _ => exact .none rfl rfl

lemma leave_accounts {outcome onward : Control} {saved depth detached} :
    Accounts s (leaveDeeds saved detached s)
    (leave outcome onward saved depth detached fs s).2 := by
  cases detached with
  | true => exact .none rfl rfl
  | false => exact .one rfl rfl rfl

lemma finish_accounts {f frame} : Accounts s (finishDeeds f frame s) (finish f frame fs s).2 := by
  cases frame with
  | scope saved depth detached => cases f <;> exact leave_accounts
  | nextItem item left body =>
    cases f with
    | done => exact .none rfl rfl
    | gaveBack v => exact .one trivial rfl rfl
  | _ => cases f <;> exact .none rfl rfl

lemma unwind_accounts {f frame} : Accounts s (unwindDeeds frame s) (unwind f frame fs s).2 := by
  cases frame with
  | scope saved depth detached => exact leave_accounts
  | _ => exact .none rfl rfl

/-- Nothing changes but by the deeds of a step. -/
lemma step_accounts {t : Thread} : Accounts s (t.deeds s) (t.step s).2 := by
  obtain ⟨control, frames⟩ := t
  cases control with
  | eval e => exact eval_accounts
  | block body => exact block_accounts
  | loop condition body =>
    simp only [step]
    split <;> exact .none rfl rfl
  | items item left body => exact items_accounts
  | asking | answered text | paused next => exact .none rfl rfl
  | value v =>
    cases frames with
    | nil => exact .none rfl rfl
    | cons frame frames => exact give_accounts
  | flow f =>
    cases frames with
    | nil => exact .none rfl rfl
    | cons frame frames => exact finish_accounts
  | fault f =>
    cases frames with
    | nil => exact .none rfl rfl
    | cons frame frames => exact unwind_accounts

end Effects

section Background

variable {s : State} {b : Backdrop}

lemma argumentDeeds_against {function done rest} :
    argumentDeeds function done rest (s.against b) = argumentDeeds function done rest s := by
  cases rest <;> rfl

lemma giveDeeds_against {v frame} : giveDeeds v frame (s.against b) = giveDeeds v frame s := by
  cases frame with
  | argument function done rest line => exact argumentDeeds_against
  | adjust how target scope line => simp only [giveDeeds, adjustDeeds, State.read_against]
  | _ => rfl

/-- Deeds do not depend on the background. -/
lemma deeds_against {t : Thread} : t.deeds (s.against b) = t.deeds s := by
  obtain ⟨control, frames⟩ := t
  cases control with
  | eval e =>
    cases e with
    | identifier name scope line => simp only [deeds, evalDeeds, State.lookup_against]
    | call function args line => exact argumentDeeds_against
    | _ => rfl
  | block body =>
    cases body with
    | nil => rfl
    | cons stmt rest => cases stmt <;> rfl
  | items item left body => cases left <;> rfl
  | value v =>
    cases frames with
    | nil => rfl
    | cons frame frames => exact giveDeeds_against
  | flow f | fault f =>
    cases frames with
    | nil => rfl
    | cons frame frames => cases frame <;> rfl
  | _ => rfl

end Background

end Thread

end Colloquy
