import Dataflow.Cli.Help
import Dataflow.Cli.Session
import Dataflow.Spec.Json

/-!
# The program

The program checks a specification, runs it, or lists the leaves it knows. What the files hold is
given to it; an unreadable file is noticed when its turn comes: the configuration first, then the
specification.
-/

namespace Dataflow.Cli

/-- The contents of files by path; none if a file cannot be read. -/
abbrev Files := String → Option String

/-- What a program has come to before anything is driven. -/
inductive Start where
  /-- It has ended, with the given lines printed and events reported. -/
  | ended (lines : List String) (events : List Event) (ending : Ending)
  /-- It goes on as a session. -/
  | session (events : List Event) (s : Session)

/-- The content of a file. -/
def readFile (files : Files) (path : String) : Except Failure String :=
  match files path with
  | some text => .ok text
  | none => .error (.unreadable path)

/-- The configuration that the settings ask for: that of the file or the default, with single
options set over it. -/
def Settings.load (files : Files) (settings : Settings) : Except Failure Config := do
  let config : Config ← match settings.path? with
    | none => pure {}
    | some path =>
      match Config.ofJson (← readFile files path) with
      | .ok config => pure config
      | .error _ => throw (.invalidConfig path)
  return {
    trace := config.trace || settings.trace
    maxDepth := settings.maxDepth?.getD config.maxDepth
    maxTicks := settings.maxTicks?.getD config.maxTicks }

/-- The specification in a file. -/
def loadSpec (files : Files) (path : String) : Except Failure SpecNode := do
  match SpecNode.ofJson (← readFile files path) with
  | .ok spec => return spec
  | .error _ => throw (.invalidSpec path)

/-- Builds the graph of a file and goes on with it. -/
def withGraph (files : Files) (path : String) (settings : Settings)
    (go : CatalogueGraph → List Event → Start) : Start :=
  match (do return (← settings.load files, ← loadSpec files path)) with
  | .error failure => .ended [] [] (.failed failure)
  | .ok (config, spec) =>
    match Graph.build Registry.catalogue config spec with
    | .ok graph =>
      let engine := { graph.engine with log := #[] }
      go { graph with engine } graph.engine.log.toList
    | .error (.failed ⟨e, log⟩) => .ended [] log.toList (.failed (.build path e))
    | .error (.stopped stop) => .ended [] [] (.crashed stop)

/-- The lines that show a summary. -/
def summaryLines (asJson : Bool) (s : Summary) : List String :=
  (if asJson then s.toDocument.pretty else s.display).splitOn "\n"

/-- The lines that list the registered kinds with their shapes. -/
def kindLines {π κ : Type} (r : Registry π κ) : List String :=
  r.factories.map fun (kind, factory) => kind ++ "\t" ++ factory.shape.name

/-- Starts a command. -/
def Command.start (files : Files) : Command → Start
  | .run path settings inputs realtime =>
    withGraph files path settings fun graph events =>
      .session events { graph, realtime, inputs, stage := .drive }
  | .check path settings asJson =>
    withGraph files path settings fun graph events =>
      .ended (summaryLines asJson graph.summary) events .success
  | .kinds => .ended (kindLines Registry.catalogue) [] .success
  | .help topic => .ended topic.lines [] .success

/-- The paths of the files that a command reads. -/
def Command.paths : Command → List String
  | .run path settings _ _ | .check path settings _ => settings.path?.toList ++ [path]
  | .kinds | .help _ => []

end Dataflow.Cli
