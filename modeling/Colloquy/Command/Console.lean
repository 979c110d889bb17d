import Colloquy.Settings

/-!
# The console

How what a program says appears on the two output streams of a command line.
-/

namespace Colloquy

/-- The output streams. -/
inductive Channel where
  | output
  | errors
deriving DecidableEq

/-- A text and the stream that it goes to. -/
structure Print where
  channel : Channel
  text : String
deriving DecidableEq

/-- What the console remembers: whether the last line of the output is still open, and how many
errors there were. -/
structure Console where
  settings : Settings := {}
  lineOpen : Bool := false
  errors : Nat := 0

namespace Console

/-- A text in a colour, if colours are wanted. -/
def paint (c : Console) (code text : String) : String :=
  if c.settings.color then "\x1b[" ++ code ++ "m" ++ text ++ "\x1b[0m" else text

/-- The text before the mark that leaves the line open. -/
def unfinished? (text : String) : Option String :=
  let mark := Utterance.openLine.toList
  if mark.isSuffixOf text.toList then
    some (String.ofList (text.toList.take (text.length - mark.length)))
  else none

/-- Ends an open line. -/
def endLine (c : Console) : Console × List Print :=
  ({ c with lineOpen := false }, if c.lineOpen then [⟨.output, "\n"⟩] else [])

/-- Prints a whole line in a colour, after ending an open one. -/
def line (c : Console) (channel : Channel) (code text : String) : Console × List Print :=
  let (c, prints) := c.endLine
  (c, prints ++ [⟨channel, c.paint code text ++ "\n"⟩])

/-- Prints what a program says. -/
def hear (c : Console) : Utterance → Console × List Print
  | .message .info text | .message .success text =>
    match unfinished? text with
    | some start => ({ c with lineOpen := true }, [⟨.output, start⟩])
    | none => ({ c with lineOpen := false }, [⟨.output, text ++ "\n"⟩])
  | .message .system text => if c.settings.showSystem then c.line .output "2" text else (c, [])
  | .message .warning text => c.line .errors "33" text
  | .message .error text => { c with errors := c.errors + 1 }.line .errors "31" text
  | .prompt text => ({ c with lineOpen := false }, [⟨.output, text ++ c.settings.promptSuffix⟩])

/-- Prints all of what a program says. -/
def hearAll (c : Console) (us : List Utterance) : Console × List Print :=
  us.foldl (fun (c, prints) u => let (c, more) := c.hear u; (c, prints ++ more)) (c, [])

end Console

end Colloquy
