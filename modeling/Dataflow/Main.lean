import Dataflow.Cli.Program

/-!
# The command-line program

Reads the files a command names, plays its session with real waits, prints the lines to standard
output and the events to standard error, and exits with the code of the ending.
-/

namespace Dataflow.Cli

/-- The content of a file, if it can be read. -/
def readPath (path : String) : IO (Option String) := do
  try return some (← IO.FS.readFile path) catch _ => return none

/-- Reads files. -/
def readPaths (paths : List String) : IO Files := do
  let contents ← paths.mapM fun path => return (path, ← readPath path)
  return fun path => (contents.lookup path).join

/-- Prints lines and reports events. -/
def say (lines : List String) (events : List Event) : IO Unit := do
  events.forM fun event => IO.eprintln event.line
  lines.forM IO.println

/-- Waits; the clock of the system counts milliseconds. -/
def wait (span : Nat) : IO Unit :=
  IO.sleep (UInt32.ofNat (min ((span + 999999) / 1000000) 4294967295))

/-- Reports how the program ends. -/
def finish (ending : Ending) : IO UInt32 := do
  match ending with
  | .success => pure ()
  | .failed failure => IO.eprintln failure.report
  | .crashed .timeOverflow => IO.eprintln "overflow when adding durations"
  | .crashed _ => IO.eprintln "endless propagation"
  return ending.code

/-- Plays a session to its end. -/
partial def playAll (s : Session) : IO UInt32 := do
  let turn := s.turn
  say turn.lines turn.events
  match turn.next with
  | .ended ending => finish ending
  | .goesOn pause s =>
    if pause ≠ 0 then wait pause
    playAll s

/-- Runs the program with the given arguments. -/
def runProgram (arguments : List String) : IO UInt32 := do
  match Command.ofArguments? arguments with
  | none =>
    IO.eprintln ("error: cannot make sense of the arguments, see " ++ programName ++ " --help")
    return 2
  | some command =>
    match command.start (← readPaths command.paths) with
    | .ended lines events ending =>
      say lines events
      finish ending
    | .session events s =>
      say [] events
      playAll s

end Dataflow.Cli

/-- Runs the program. -/
def main (arguments : List String) : IO UInt32 := Dataflow.Cli.runProgram arguments
