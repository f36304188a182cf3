import Dataflow.Cli.Command

/-!
# Help

The help of a command says what it does, how it is called, and what its arguments and options are,
the descriptions in one column.
-/

namespace Dataflow.Cli

/-- The name the program is called by. -/
def programName : String := "treevm"

/-- What the program is for. -/
def programPurpose : String := "Run declarative dataflow tree specifications"

/-- What a verb does. -/
def Verb.purpose : Verb → String
  | .run => "Build a specification, push inputs into it and print what comes out"
  | .check => "Build a specification and print a summary of the graph"
  | .kinds => "List the registered leaf kinds"

/-- What the command that shows help does. -/
def helpPurpose : String := "Print this message or the help of the given subcommand(s)"

/-- What an option does. -/
def Switch.purpose : Switch → String
  | .input => "JSON value pushed into the root, in order; repeatable"
  | .config => "Graph configuration file (JSON)"
  | .trace => "Log every value hop on the `treevm::trace` target"
  | .maxDepth => "Maximum nesting of synchronous deliveries before a push fails"
  | .maxTicks => "Maximum ticks `settle` spends draining deferred work"
  | .realtime => "Wait for timers in wall-clock time instead of jumping virtual time"
  | .json => "Print the summary as JSON"
  | .help => "Print help"

/-- How an option is written, without its indent. -/
def Switch.form (switch : Switch) : String :=
  "--" ++ switch.name ++ (switch.valueName?.elim "" fun name => " <" ++ name ++ ">")

/-- The option with its short form, or with the room for one. -/
def Switch.entry (switch : Switch) : String × String :=
  ((if switch = .help then "-h, " else "    ") ++ switch.form, switch.purpose)

/-- A text filled with blanks up to a length. -/
def padded (text : String) (length : Nat) : String := text.pushn ' ' (length - text.length)

/-- A titled table of terms and their descriptions. -/
def table (title : String) (entries : List (String × String)) : List String :=
  let width := (entries.map fun entry => entry.1.length).foldl max 0
  (title ++ ":") :: entries.map fun (term, description) =>
    "  " ++ padded term width ++ "  " ++ description

/-- Sections with an empty line between them. -/
def sections (parts : List (List String)) : List String := [""].intercalate parts

/-- The file as an argument. -/
def fileEntry : String × String := ("<FILE>", "Path to the specification (JSON)")

/-- The sections on a verb. -/
def Verb.help (verb : Verb) : List (List String) :=
  let call := programName ++ " " ++ verb.name
  let usage := if verb.takesFile then call ++ " [OPTIONS] " ++ fileEntry.1 else call
  [[verb.purpose], ["Usage: " ++ usage]] ++
    (if verb.takesFile then [table "Arguments" [fileEntry]] else []) ++
    [table "Options" (verb.switches.map Switch.entry)]

/-- The lines of the help on a topic. -/
def Topic.lines : Topic → List String
  | .program =>
    sections
      [[programPurpose],
       ["Usage: " ++ programName ++ " <COMMAND>"],
       table "Commands" (Verb.all.map (fun v => (v.name, v.purpose)) ++
         [("help", helpPurpose)]),
       table "Options" [Switch.help.entry]]
  | .verb v => sections v.help
  | .help =>
    sections
      [[helpPurpose],
       ["Usage: " ++ programName ++ " help [COMMAND]..."],
       table "Arguments" [("[COMMAND]...", "Print help for the subcommand(s)")]]

end Dataflow.Cli
