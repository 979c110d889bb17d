/-!
# Faults

What can go wrong while a program runs, and how it is reported. A fault is an error together with
the line of the phrase that raised it. Reports carry a code for the kind of error.
-/

namespace Colloquy

/-- What can go wrong while a program runs. -/
inductive RunError where
  | undefinedVariable (name : String)
  | undefinedFunction (name : String)
  | argumentCount (function : String) (expected found : Nat)
  | badArgument (message : String)
  | divisionByZero
  | typeMismatch (message : String)
  | nullAccess
  | callDepth (limit : Nat)
deriving DecidableEq

/-- The kinds of error that reports tell apart. -/
inductive ErrorCode where
  | malformed
  | typeMismatch
  | invalidOperation
  | exhausted
deriving DecidableEq

/-- How a code is written. -/
def ErrorCode.text : ErrorCode → String
  | .malformed => "E001"
  | .typeMismatch => "E003"
  | .invalidOperation => "E004"
  | .exhausted => "E005"

namespace RunError

/-- The words for an error. -/
def message : RunError → String
  | .undefinedVariable name => "Undefined variable: " ++ name
  | .undefinedFunction name => "Undefined function: " ++ name
  | .argumentCount function expected found =>
    "Function " ++ function ++ " expects " ++ toString expected ++
      " arguments, got " ++ toString found
  | .badArgument message => message
  | .divisionByZero => "Division by zero"
  | .typeMismatch message => message
  | .nullAccess => "Cannot access property of null or undefined"
  | .callDepth limit => "Maximum call depth of " ++ toString limit ++ " exceeded"

/-- The kind of an error. -/
def code : RunError → ErrorCode
  | .typeMismatch _ => .typeMismatch
  | .callDepth _ => .exhausted
  | _ => .invalidOperation

/-- Arithmetic wants numbers. -/
def arithmeticOperands : RunError := .typeMismatch "Cannot perform arithmetic on non-numeric values"

end RunError

/-- An error and the line that raised it. -/
structure Fault where
  error : RunError
  line : Nat
deriving DecidableEq

/-- The words for a fault. -/
def Fault.message (f : Fault) : String := f.error.message ++ " at line " ++ toString f.line

/-- A message with the code of its kind. -/
structure Report where
  code : ErrorCode
  message : String
deriving DecidableEq

namespace Report

/-- The text of a report. -/
def text (r : Report) : String := "[" ++ r.code.text ++ "] " ++ r.message

/-- The report of an error without a line. -/
def ofError (e : RunError) : Report := ⟨e.code, e.message⟩

/-- The report of a fault. -/
def ofFault (f : Fault) : Report := ⟨f.error.code, f.message⟩

end Report

end Colloquy
