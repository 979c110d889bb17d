import Colloquy.Command.Run

/-!
# The command line

Carries commands out on the real console: programs speak as they run, prompts wait for a line to be
typed, and timers wait for the time of day.
-/

namespace Colloquy.Terminal

/-- A session whose utterances are printed as they come. -/
structure Live where
  session : Session
  console : Console
  heard : Nat := 0
  began : Nat

/-- Prints what goes to the two streams. -/
def emit (prints : List Print) : IO Unit := do
  for p in prints do
    let stream ← match p.channel with
      | .output => IO.getStdout
      | .errors => IO.getStderr
    stream.putStr p.text
    stream.flush

/-- Prints what the program has said since the last time. -/
def speak (l : Live) : IO Live := do
  let host := l.session.engine.state.host
  let (console, prints) := l.console.hearAll (host.heardSince l.heard)
  emit prints
  return { l with console := console, heard := host.heard.length }

/-- Waits for a line to be typed and hands it to the host. -/
def listen (l : Live) : IO Live := do
  let typed ← (← IO.getStdin).getLine
  let elapsed := (← IO.monoNanosNow) - l.began
  return { l with
    session := (l.session.supply [(Command.answersOf typed).headD ""]).catchUp elapsed }

/-- Waits until the clock of the session is right. -/
def idle (l : Live) : IO Unit := do
  let elapsed := (← IO.monoNanosNow) - l.began
  let ahead := l.session.engine.now - elapsed
  if 0 < ahead then IO.sleep (millisCovering ahead).toUInt32

/-- Takes turns until a goal is reached. -/
partial def runUntil (goal : Goal) (l : Live) : IO Live := do
  if l.session.reached goal then return l
  let l ← if l.session.needsAnswer then listen l else pure l
  match l.session.turn? goal with
  | none => return l
  | some next =>
    let l ← speak { l with session := next }
    idle l
    runUntil goal l

/-- Starts a task and waits for its end. -/
def await (l : Live) (t : Task) : IO Live :=
  let id := l.session.engine.tasks.length
  let s := { l.session with engine := l.session.engine.add t, current := some id }
  runUntil (.ended id) { l with session := s }

/-- Lets time pass as long as the program runs and its time is not up. -/
partial def keepAlive (j : Job) (since : Nat) (l : Live) : IO Live := do
  let engine := l.session.engine
  if !engine.state.running then return l
  else if Command.isOver j since engine.now then return { l with session := l.session.stop }
  else keepAlive j since (← runUntil (.time (engine.now + Command.pollInterval * nanosPerMilli)) l)

/-- Runs a job and gives its exit status. -/
def run (j : Job) : IO UInt32 := do
  let seed ← IO.rand 0 (2 * Decimal.signBit - 1)
  let session := (Command.sessionOf j []).reseed seed
  let mut l : Live :=
    { session := session, console := { settings := j.settings }, began := ← IO.monoNanosNow }
  l ← await l ⟨.source j.source, .fresh⟩
  for name in j.events do
    l ← await l ⟨.trigger name, .fresh⟩
  l ← keepAlive j l.session.engine.now l
  emit l.console.endLine.2
  if j.dumpVars then emit [⟨.output, Command.dump l.session⟩]
  return if l.console.errors = 0 then 0 else 1

/-- The text of a file, if it can be read. -/
def readFile? (path : String) : IO (Option String) := do
  try return some (← IO.FS.readFile path)
  catch _ => return none

/-- The directory of the user's settings. -/
def settingsDirectory : IO (Option String) := do
  match ← IO.getEnv "XDG_CONFIG_HOME", ← IO.getEnv "HOME" with
  | some directory, _ => return some directory
  | none, some home => return some (home ++ "/.config")
  | none, none => return none

/-- The files that a command may want to read. -/
def filesOf (directory : Option String) : Command → List String
  | .run file options => file :: options.config.toList ++ (directory.map Settings.pathIn).toList
  | .sample _ options => options.config.toList ++ (directory.map Settings.pathIn).toList
  | .samples => []

/-- What a command finds around it. -/
def surroundings (c : Command) : IO Surroundings := do
  let directory ← settingsDirectory
  let files ← (filesOf directory c).mapM fun path => do return (path, ← readFile? path)
  return { read := fun path => (files.lookup path).join, settingsDirectory := directory }

/-- Carries out a command and gives its exit status. -/
def perform (c : Command) : IO UInt32 := do
  match c.job (← surroundings c) with
  | .error f =>
    emit [⟨.errors, f.text⟩]
    return 1
  | .ok none =>
    emit [⟨.output, Command.sampleList⟩]
    return 0
  | .ok (some j) => run j

end Colloquy.Terminal

/-- Carries out what the arguments ask for. -/
def main (arguments : List String) : IO UInt32 := do
  match Colloquy.Command.parse? arguments with
  | some c => Colloquy.Terminal.perform c
  | none =>
    Colloquy.Terminal.emit
      [⟨.errors, "Usage: plaintalk <run FILE|samples|sample NAME> [OPTIONS]\n"⟩]
    return Colloquy.Command.usageStatus.toUInt32
