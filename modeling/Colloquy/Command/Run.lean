import Colloquy.Command.Arguments
import Colloquy.Command.Console
import Colloquy.Engine.Session
import Colloquy.Sample
import Colloquy.Value.Json

/-!
# Running commands

What a command does, given the files it can read and the lines that will be typed. A program is run,
then the events that were asked for, and then time passes as long as timers keep the program alive.
-/

namespace Colloquy

/-- What a command finds around it: the texts of files, where the settings of the user are kept, and
what will be typed. -/
structure Surroundings where
  read : String → Option String
  settingsDirectory : Option String
  input : String := ""

/-- Why a command could not be carried out: what it was doing, and the cause if there is one. -/
structure Failure where
  doing : String
  cause : Option String := none
deriving DecidableEq

/-- The report of a failure. -/
def Failure.text (f : Failure) : String :=
  "Error: " ++ f.doing ++ (f.cause.elim "" fun cause => "\n\nCaused by:\n    " ++ cause) ++ "\n"

/-- The exit status of a command and what it printed. -/
structure Result where
  status : Nat
  output : String := ""
  errors : String := ""
deriving DecidableEq

/-- A program with everything that its run needs. -/
structure Job where
  source : String
  settings : Settings
  events : List String
  limit : Option Nat
  dumpVars : Bool

namespace Command

/-- Every how many milliseconds it is checked whether a program still runs. -/
def pollInterval : Nat := 50

/-- The cause of not being able to read a file. -/
def noSuchFile : String := "No such file or directory (os error 2)"

/-- The settings of a file. -/
def settingsOf (path : String) (document : Option String) : Except Failure Settings :=
  match document with
  | none => .error ⟨"reading configuration from " ++ path, some noSuchFile⟩
  | some document =>
    match Settings.read? document with
    | some settings => .ok settings
    | none => .error ⟨"parsing configuration " ++ path, some "not a document of settings"⟩

/-- The settings for a run: those of the file that was named, else those of the user, else the
defaults. -/
def settingsFor (s : Surroundings) (named : Option String) : Except Failure Settings :=
  match named, s.settingsDirectory.map Settings.pathIn with
  | some path, _ => settingsOf path (s.read path)
  | none, some path =>
    match s.read path with
    | some document => settingsOf path (some document)
    | none => .ok {}
  | none, none => .ok {}

/-- A number of seconds in nanoseconds, if time can last that long. -/
def nanoseconds (seconds : Float) : Except Failure Nat :=
  let refusal (cause : String) : Failure :=
    ⟨"--max-duration must be a non-negative number of seconds",
      some ("cannot convert float seconds to Duration: " ++ cause)⟩
  if seconds < 0 then .error (refusal "value is negative")
  else
    match Decimal.magnitude? seconds with
    | some m =>
      let (num, den) := m.ratio
      if num < 2 * Decimal.signBit * den then .ok (Decimal.roundQuotient (num * 1000000000) den)
      else .error (refusal "value is either too big or NaN")
    | none => .error (refusal "value is either too big or NaN")

/-- The job that a source text and options make. -/
def jobOf (s : Surroundings) (source : String) (o : RunOptions) : Except Failure Job := do
  let settings ← settingsFor s o.config
  let limit ← o.maxDuration.mapM nanoseconds
  return ⟨source, settings, o.events, limit, o.dumpVars⟩

/-- The source text of a file. -/
def sourceOf (s : Surroundings) (path : String) : Except Failure String :=
  match s.read path with
  | some source => .ok source
  | none => .error ⟨"reading script " ++ path, some noSuchFile⟩

/-- The source text of a sample. -/
def sampleOf (name : String) : Except Failure String :=
  match Sample.find? name with
  | some found => .ok found.source
  | none => .error ⟨"unknown sample '" ++ name ++ "'; run `plaintalk samples` to list them", none⟩

/-- The lines of the input, without what ends them. -/
def answersOf (input : String) : List String :=
  (input.splitOn "\n").map fun line =>
  String.ofList (line.toList.reverse.dropWhile (· = '\r')).reverse

/-- The session in which a job begins. -/
def sessionOf (j : Job) (answers : List String) : Session :=
  { engine := { state := { maxDepth := j.settings.maxCallDepth, host := { answers := answers } } } }

/-- Whether the time for a job, which began to count at some time, is up. -/
def isOver (j : Job) (began now : Nat) : Bool := j.limit.any fun limit => began + limit ≤ now

/-- Lets time pass as long as a program runs and its time is not up, for at most so many
intervals. -/
def keepAlive (j : Job) (began : Nat) : Nat → Session → Session
  | 0, s => s
  | polls + 1, s =>
    if !s.engine.state.running then s
    else if isOver j began s.engine.now then s.stop
    else keepAlive j began polls (s.sleep pollInterval)

/-- Runs a program and the events that were asked for. -/
def begin (j : Job) (answers : List String) : Session :=
  j.events.foldl Session.trigger ((sessionOf j answers).execute j.source)

/-- Runs a job to its end. -/
def drive (j : Job) (answers : List String) : Session :=
  let s := begin j answers
  keepAlive j s.engine.now Session.patience s

/-- The variables at the end of a job, as they are printed. -/
def dump (s : Session) : String :=
  (Value.record s.engine.state.store.shownVariables).prettyJson 0 ++ "\n"

/-- Everything that went to one stream. -/
def textOn (channel : Channel) (prints : List Print) : String :=
  String.join ((prints.filter fun p => p.channel = channel).map Print.text)

/-- What a job prints, and its exit status. -/
def resultOf (j : Job) (s : Session) : Result :=
  let (console, prints) :=
    Console.hearAll { settings := j.settings } (s.engine.state.host.heardSince 0)
  let ending := console.endLine.2 ++ if j.dumpVars then [⟨.output, dump s⟩] else []
  ⟨if console.errors = 0 then 0 else 1, textOn .output (prints ++ ending),
  textOn .errors (prints ++ ending)⟩

/-- The list of samples: a column of short names, and the names. -/
def sampleList : String :=
  String.join (Sample.all.map fun s =>
    s.slug ++ String.ofList (List.replicate (22 - s.slug.length) ' ') ++ " " ++ s.name ++ "\n")

/-- The job that a command asks for. -/
def job (s : Surroundings) : Command → Except Failure (Option Job)
  | .run file options => do return some (← jobOf s (← sourceOf s file) options)
  | .sample name options => do return some (← jobOf s (← sampleOf name) options)
  | .samples => return none

/-- Carries out a command. -/
def perform (c : Command) (s : Surroundings) : Result :=
  match c.job s with
  | .error f => ⟨1, "", f.text⟩
  | .ok none => ⟨0, sampleList, ""⟩
  | .ok (some j) => resultOf j (drive j (answersOf s.input))

/-- The exit status for arguments that are wrong. -/
def usageStatus : Nat := 2

/-- Carries out what the arguments ask for. -/
def carryOut? (arguments : List String) (s : Surroundings) : Option Result :=
  (parse? arguments).map fun c => c.perform s

end Command

end Colloquy
