import Colloquy.Decimal.Numeral

/-!
# Arguments

What the arguments of the command line ask for. Options may stand before and after the name that a
command wants, and take their value from the next argument or from what follows a sign of equality.
-/

namespace Colloquy

/-- How a program is to be run. -/
structure RunOptions where
  trace : Bool := false
  config : Option String := none
  events : List String := []
  maxDuration : Option Float := none
  dumpVars : Bool := false

/-- What can be asked for. -/
inductive Command where
  | run (file : String) (options : RunOptions)
  | samples
  | sample (name : String) (options : RunOptions)

namespace Command

/-- The options and the names found so far. -/
structure Found where
  options : RunOptions := {}
  names : List String := []

/-- Whether an argument can only be an option. -/
def isDashed (argument : String) : Bool := argument.startsWith "-" && argument ≠ "-"

/-- An argument up to the first sign of equality, and what follows it. -/
def splitValue (argument : String) : String × Option String :=
  match argument.toList.span (· ≠ '=') with
  | (name, []) => (String.ofList name, none)
  | (name, _ :: value) => (String.ofList name, some (String.ofList value))

/-- Sets an option that has no value. An option stands only once. -/
def setFlag? (o : RunOptions) : String → Option RunOptions
  | "--trace" => if o.trace then none else some { o with trace := true }
  | "--dump-vars" => if o.dumpVars then none else some { o with dumpVars := true }
  | _ => none

/-- Sets an option that has a value. Only events may be given more than once. -/
def setValue? (o : RunOptions) (name value : String) : Option RunOptions :=
  match name with
  | "--config" =>
    if o.config.isSome || value.isEmpty then none else some { o with config := some value }
  | "--event" => some { o with events := o.events ++ [value] }
  | "--max-duration" =>
    if o.maxDuration.isSome then none
    else (Decimal.read? value.toList).map fun n => { o with maxDuration := some n }
  | _ => none

/-- Whether an option has a value. -/
def wantsValue (name : String) : Bool := name ∈ ["--config", "--event", "--max-duration"]

/-- Reads the arguments of a command. After a lone double hyphen there are only names. -/
def gather? : List String → Found → Option Found
  | [], found => some found
  | argument :: rest, found =>
    if argument = "--" then some { found with names := found.names ++ rest }
    else if !isDashed argument then gather? rest { found with names := found.names ++ [argument] }
    else
      match splitValue argument with
      | (name, some value) =>
        do gather? rest { found with options := ← setValue? found.options name value }
      | (name, none) =>
        if wantsValue name then
          match rest with
          | value :: rest =>
            if isDashed value then none
            else do gather? rest { found with options := ← setValue? found.options name value }
          | [] => none
        else do gather? rest { found with options := ← setFlag? found.options name }

/-- The only name and the options among some arguments. -/
def single? (arguments : List String) : Option (String × RunOptions) := do
  let found ← gather? arguments {}
  match found.names with
  | [name] => some (name, found.options)
  | _ => none

/-- What the arguments ask for; there is nothing if they are wrong. -/
def parse? : List String → Option Command
  | "run" :: arguments => do
    let (file, options) ← single? arguments
    if file.isEmpty then none else some (.run file options)
  | ["samples"] => some .samples
  | "sample" :: arguments => (single? arguments).map fun (name, options) => .sample name options
  | _ => none

end Command

end Colloquy
