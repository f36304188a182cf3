import Dataflow.Cli.Report
import Dataflow.Graph.Build
import Dataflow.Leaf.Catalogue
import Dataflow.Value.Json

/-!
# Sessions

A session runs a graph: what the constants started is driven to its end, then each input is pushed
and driven in turn. What has come out is printed before and after each drive, so whatever a failure
leaves in the logs is lost.

With virtual time a drive settles the graph. With wall-clock time it runs what is runnable, waits
for the next timer, lets that much time pass in the graph, and starts over until no timer is left. A
session is therefore played in turns, between which its player may have to wait.
-/

namespace Dataflow.Cli

/-- A graph of catalogue leaves. -/
abbrev CatalogueGraph := Graph CatalogueProcess CatalogueCondition

/-- How a program ends. -/
inductive Ending where
  | success
  | failed (f : Failure)
  /-- A point in time was not representable, or outputs went round in a circle. -/
  | crashed (stop : Stop)
  deriving Repr, BEq, Inhabited

/-- The exit code. -/
def Ending.code : Ending → UInt32
  | .success => 0
  | .failed _ => 1
  | .crashed _ => 101

/-- What a session does next. -/
inductive Stage where
  /-- Start driving. -/
  | drive
  /-- Run what is runnable. -/
  | round
  /-- The wait for a timer is over. -/
  | elapsed (span : Nat)
  /-- Take the next input. -/
  | input
  deriving Repr, DecidableEq

/-- A session between two turns. -/
structure Session where
  graph : CatalogueGraph
  realtime : Bool
  /-- The inputs not yet pushed. -/
  inputs : List String
  stage : Stage

/-- What follows a turn. -/
inductive Next where
  | ended (ending : Ending)
  /-- The session goes on after a pause. -/
  | goesOn (pause : Nat) (s : Session)

/-- A turn of a session: what it prints, what it reports, and what follows. -/
structure Turn where
  lines : List String
  events : List Event
  next : Next

/-- The line for a value of a log. -/
def logLine (log : String) (value : Value) : String :=
  (Json.Document.object [(log, value.toDocument)]).print

/-- Takes the lines for what has come out. -/
def takeLines : Act CatalogueProcess CatalogueCondition (List String) := do
  let outputs ← Engine.takeOutputs
  let rendered ← Engine.takeRendered
  return outputs.toList.map (logLine "output") ++ rendered.toList.map (logLine "render")

/-- An act of a turn. It keeps the lines that the turn prints, also when it stops early. -/
abbrev Playing := ExceptT Ending (StateM (CatalogueGraph × List String))

namespace Session

/-- Does an act with the graph. -/
def perform {α : Type} (act : Act CatalogueProcess CatalogueCondition α) : Playing α := do
  let (graph, lines) ← get
  let (result, graph) := graph.perform act
  set (graph, lines)
  match result with
  | .ok a => return a
  | .error (.failed e) => throw (.failed (.run e))
  | .error stop => throw (.crashed stop)

/-- Prints what has come out. -/
def printLogs : Playing Unit := do
  let lines ← perform takeLines
  modify fun (graph, printed) => (graph, printed ++ lines)

/-- The value that an input denotes. -/
def readInput (text : String) : Playing Value :=
  match Value.ofJson text with
  | .ok value => return value
  | .error _ => throw (.failed (.invalidInput text))

/-- Does what the stage asks for. Returns the pause before the next stage, the inputs left for it,
and the stage; or nothing at the end of the session. -/
def play (s : Session) : Playing (Option (Nat × List String × Stage)) := do
  match s.stage, s.inputs with
  | .drive, inputs =>
    printLogs
    if s.realtime then return some (0, inputs, .round)
    perform Engine.settle
    printLogs
    return some (0, inputs, .input)
  | .round, inputs =>
    discard (perform Engine.runUntilIdle)
    printLogs
    match (← get).1.timeToNextTimer? with
    | none => return some (0, inputs, .input)
    | some span => return some (span, inputs, .elapsed span)
  | .elapsed span, inputs =>
    perform (Engine.advanceBy span)
    return some (0, inputs, .round)
  | .input, [] =>
    discard (perform Engine.teardown)
    return none
  | .input, text :: rest =>
    let value ← readInput text
    perform ((← get).1.push value)
    return some (0, rest, .drive)

/-- Plays one turn. -/
def turn (s : Session) : Turn :=
  let (result, graph, lines) := s.play.run (s.graph, [])
  let events := graph.engine.log.toList
  let next := match result with
    | .error ending => Next.ended ending
    | .ok none => Next.ended .success
    | .ok (some (pause, inputs, stage)) =>
      let engine := { graph.engine with log := #[] }
      Next.goesOn pause { s with graph := { graph with engine }, inputs, stage }
  { lines, events, next }

end Session

end Dataflow.Cli
