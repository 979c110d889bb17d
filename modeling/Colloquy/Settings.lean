import Colloquy.State
import Colloquy.Settings.Reader

/-!
# Settings

What a user can settle about the command line and the engine. Settings are kept in a TOML document;
what it does not mention has its default, and what it mentions beyond the settings is passed over.
-/

namespace Colloquy

/-- What a user can settle. -/
structure Settings where
  color : Bool := true
  showSystem : Bool := true
  promptSuffix : String := " "
  maxCallDepth : Nat := defaultDepth
deriving DecidableEq

namespace Settings

/-- A truth value, or its default if there is no such key. -/
def boolean? (t : Table Toml.Item) (key : String) (default : Bool) : Option Bool :=
  match t.get? key with
  | none => some default
  | some (.boolean b) => some b
  | some _ => none

/-- A text, or its default if there is no such key. -/
def text? (t : Table Toml.Item) (key : String) (default : String) : Option String :=
  match t.get? key with
  | none => some default
  | some (.string s) => some s
  | some _ => none

/-- A natural number, or its default if there is no such key. -/
def natural? (t : Table Toml.Item) (key : String) (default : Nat) : Option Nat :=
  match t.get? key with
  | none => some default
  | some (.integer n) => if 0 ≤ n then some n.toNat else none
  | some _ => none

/-- A table, which is empty if there is no such key. -/
def table? (t : Table Toml.Item) (key : String) : Option (Table Toml.Item) :=
  match t.get? key with
  | none => some []
  | some (.table _ entries) => some entries
  | some _ => none

/-- The settings of a table. -/
def ofTable? (t : Table Toml.Item) : Option Settings := do
  let defaults : Settings := {}
  let engine ← table? t "engine"
  return {
    color := ← boolean? t "color" defaults.color
    showSystem := ← boolean? t "show_system" defaults.showSystem
    promptSuffix := ← text? t "prompt_suffix" defaults.promptSuffix
    maxCallDepth := ← natural? engine "max_call_depth" defaults.maxCallDepth }

/-- The settings of a document. -/
def read? (document : String) : Option Settings := (Toml.read? document).bind ofTable?

/-- A character between double quotes. -/
def quotedChar (c : Char) : List Char :=
  if c = '"' || c = '\\' then ['\\', c]
  else if Toml.isPrintable c then [c]
  else
    let digits := Nat.toDigits 16 c.toNat
    "\\u".toList ++ List.replicate (4 - digits.length) '0' ++ digits

/-- A text between double quotes. -/
def quoted (s : String) : String := "\"" ++ String.ofList (s.toList.flatMap quotedChar) ++ "\""

/-- The document of settings. -/
def write (s : Settings) : String :=
  "color = " ++ TokenKind.booleanWord s.color ++ "\nshow_system = " ++
    TokenKind.booleanWord s.showSystem ++
    "\nprompt_suffix = " ++ quoted s.promptSuffix ++ "\n\n[engine]\nmax_call_depth = " ++
    toString s.maxCallDepth ++ "\n"

/-- Where settings are found in the directory of a user's settings. -/
def pathIn (directory : String) : String := directory ++ "/plaintalk/config.toml"

end Settings

end Colloquy
