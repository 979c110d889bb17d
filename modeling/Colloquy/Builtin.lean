import Colloquy.Decimal.Floor
import Colloquy.State

/-!
# Built-in functions

The functions that every program can call. They come before functions of the same name that a
program declares.
-/

namespace Colloquy

/-- The built-in functions. -/
inductive Builtin where
  | ask
  | display
  | input
  | length
  | print
  | random
  | say
  | terminate
deriving DecidableEq

/-- What a built-in function comes back with: a value, or the request for the host's next answer. -/
inductive Reply where
  | value (v : Value)
  | answer

namespace Builtin

/-- Every built-in function, in ascending order of the names. -/
def all : List Builtin := [.ask, .display, .input, .length, .print, .random, .say, .terminate]

/-- The name of a built-in function. -/
def name : Builtin → String
  | .ask => "ask"
  | .display => "display"
  | .input => "input"
  | .length => "length"
  | .print => "print"
  | .random => "random"
  | .say => "say"
  | .terminate => "terminate"

/-- The built-in function of a name. -/
def ofName? (word : String) : Option Builtin := all.find? fun b => b.name = word

/-- The texts of some values with a blank between them. -/
def joined (args : List Value) : String := " ".intercalate (args.map Value.display)

/-- A random integer: below the only bound, or between two bounds, both included. -/
def draw (args : List Value) (s : State) : Except RunError Value × State :=
  match args.mapM Value.number? with
  | none => (.error (.badArgument "random() expects numeric arguments"), s)
  | some numbers =>
    let (roll, host) := s.host.roll
    let rolled := { s with host := host }
    match numbers with
    | [upper] => (.ok (.number (Decimal.floor (roll * upper))), rolled)
    | [low, high] => (.ok (.number (Decimal.floor (roll * (high - low + 1)) + low)), rolled)
    | _ => (.error (.badArgument "random() expects 1 or 2 arguments"), rolled)

/-- The length of a list or of a text. -/
def lengthOf : List Value → Except RunError Value
  | [v] =>
    match v.size? with
    | some n => .ok (.ofNat n)
    | none => .error (.badArgument "length() can only be used on arrays or strings")
  | _ => .error (.badArgument "length() expects 1 argument")

/-- The message that announces the end of a program. -/
def farewell : String := "[SYSTEM] Execution completed."

/-- Calls a built-in function. -/
def call (b : Builtin) (args : List Value) (s : State) : Except RunError Reply × State :=
  match b with
  | .say | .print => (.ok (.value .absent), s.say .info (joined args))
  | .display => (.ok (.value .absent), s.say .info (joined args ++ Utterance.openLine))
  | .ask | .input => (.ok .answer, s.ask ((args.head?.map Value.display).getD ""))
  | .random => let (result, s) := draw args s; (result.map .value, s)
  | .length => ((lengthOf args).map .value, s)
  | .terminate => (.ok (.value .absent), (s.say .system farewell).stop)

end Builtin

/-- Calls the built-in function of a name. -/
def callBuiltin (name : String) (args : List Value) (s : State) : Except RunError Reply × State :=
  match Builtin.ofName? name with
  | some b => b.call args s
  | none => (.error (.undefinedFunction name), s)

/-- The value of a call of a built-in function, with the host's next answer if the function asks for
one. -/
def answerBuiltin (name : String) (args : List Value) (s : State) : Except RunError Value × State :=
  match callBuiltin name args s with
  | (.ok (.value v), s) => (.ok v, s)
  | (.ok .answer, s) =>
    let (text, host) := s.host.answer
    (.ok (.ofInput text), { s with host := host })
  | (.error e, s) => (.error e, s)

end Colloquy
