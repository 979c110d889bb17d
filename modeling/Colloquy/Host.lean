import Colloquy.Decimal.Double

/-!
# Hosts

A host is what a program talks to: it takes messages and prompts, answers prompts, and supplies the
chance that random numbers are made of.
-/

namespace Colloquy

/-- The categories of messages. -/
inductive Severity where
  | info
  | error
  | success
  | warning
  | system
deriving DecidableEq

namespace Severity

/-- Every severity. -/
def all : List Severity := [.info, .error, .success, .warning, .system]

/-- How a severity is written. -/
def label : Severity → String
  | .info => "info"
  | .error => "error"
  | .success => "success"
  | .warning => "warning"
  | .system => "system"

end Severity

/-- What a program sends to its host. -/
inductive Utterance where
  | message (severity : Severity) (text : String)
  | prompt (text : String)
deriving DecidableEq

namespace Utterance

/-- The ending of a message after which the line goes on. -/
def openLine : String := "\x00NO_NEWLINE"

/-- The category and the text of a message. -/
def message? : Utterance → Option (Severity × String)
  | .message severity text => some (severity, text)
  | .prompt _ => none

/-- The text of a prompt. -/
def prompt? : Utterance → Option String
  | .message .. => none
  | .prompt text => some text

end Utterance

/-- What a host has heard, newest first, what it will answer, and the state of its chance. -/
structure Host where
  heard : List Utterance := []
  answers : List String := []
  seed : Nat := 0
deriving DecidableEq

namespace Host

/-- Everything heard after the first so many utterances, in order. -/
def heardSince (h : Host) (count : Nat) : List Utterance :=
  (h.heard.take (h.heard.length - count)).reverse

/-- The host hears an utterance. -/
def hear (h : Host) (u : Utterance) : Host := { h with heard := u :: h.heard }

/-- The next answer; a host that has none left answers with nothing. -/
def answer (h : Host) : String × Host := (h.answers.headD "", { h with answers := h.answers.tail })

/-- A number drawn evenly from those at least zero and less than one. -/
def roll (h : Host) : Float × Host :=
  let seed := (h.seed * 6364136223846793005 + 1442695040888963407) % (2 * Decimal.signBit)
  (Decimal.nearest (seed / 2048) (2 * Decimal.hiddenBit), { h with seed := seed })

end Host

end Colloquy
