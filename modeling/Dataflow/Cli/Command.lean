/-!
# The command line

A command line is the name of a command and then, in any order, its options and its file. A long
option takes its value behind an equals sign or as the next argument, which then must not look like
an option itself. After a lone `--` nothing is an option any more. An option is given at most once,
save the inputs, which are kept in order. Everything else is a misuse; asking for help counts as
soon as it is reached, and what stands behind it is not looked at.
-/

namespace Dataflow.Cli

/-! ## Vocabulary -/

/-- What the program can be told to do. -/
inductive Verb where
  | run
  | check
  | kinds
  deriving Repr, DecidableEq

/-- Every verb. -/
def Verb.all : List Verb := [.run, .check, .kinds]

/-- The verb's name on the command line. -/
def Verb.name : Verb → String
  | .run => "run"
  | .check => "check"
  | .kinds => "kinds"

/-- The verb of the given name. -/
def Verb.ofName? (name : String) : Option Verb := Verb.all.find? fun verb => verb.name = name

/-- The long options of all verbs. -/
inductive Switch where
  | input
  | config
  | trace
  | maxDepth
  | maxTicks
  | realtime
  | json
  | help
  deriving Repr, DecidableEq

/-- The option's name on the command line, without the dashes. -/
def Switch.name : Switch → String
  | .input => "input"
  | .config => "config"
  | .trace => "trace"
  | .maxDepth => "max-depth"
  | .maxTicks => "max-ticks"
  | .realtime => "realtime"
  | .json => "json"
  | .help => "help"

/-- What an option's value is called, if it takes one. -/
def Switch.valueName? : Switch → Option String
  | .input => some "JSON"
  | .config => some "CONFIG"
  | .maxDepth => some "MAX_DEPTH"
  | .maxTicks => some "MAX_TICKS"
  | .trace | .realtime | .json | .help => none

/-- The options of a verb. -/
def Verb.switches : Verb → List Switch
  | .run => [.input, .config, .trace, .maxDepth, .maxTicks, .realtime, .help]
  | .check => [.config, .trace, .maxDepth, .maxTicks, .json, .help]
  | .kinds => [.help]

/-- Whether a verb works on a file. -/
def Verb.takesFile : Verb → Bool
  | .run | .check => true
  | .kinds => false

/-- The option of a verb that has the given name. -/
def Verb.switch? (verb : Verb) (name : String) : Option Switch :=
  verb.switches.find? fun switch => switch.name = name

/-! ## Arguments -/

/-- What an argument looks like. -/
inductive Token where
  /-- The lone `--`. -/
  | separator
  | long (name : String) (attached? : Option String)
  | short (letters : List Char)
  | plain
  deriving Repr, DecidableEq

/-- The look of an argument. A lone dash is plain. -/
def Token.ofText (text : String) : Token :=
  match text.toList with
  | ['-', '-'] => .separator
  | '-' :: '-' :: rest =>
    match rest.dropWhile (· ≠ '=') with
    | [] => .long (String.ofList rest) none
    | _ :: attached =>
      .long (String.ofList (rest.takeWhile (· ≠ '='))) (some (String.ofList attached))
  | '-' :: letter :: letters => .short (letter :: letters)
  | _ => .plain

/-- Whether the argument asks for help by the short option. -/
def Token.isShortHelp : Token → Bool
  | .short ('h' :: _) => true
  | _ => false

/-- A count in decimal digits, with an optional plus sign, of at most 64 bits. -/
def count? (text : String) : Option Nat :=
  let digits := match text.toList with
    | '+' :: rest => rest
    | digits => digits
  if digits.isEmpty || digits.any (!·.isDigit) then none
  else
    let n := Nat.ofDigitChars 10 digits 0
    if n < Nat.pow 2 64 then some n else none

/-- Options on the configuration. -/
structure Settings where
  /-- The file the configuration is read from. -/
  path? : Option String := none
  trace : Bool := false
  maxDepth? : Option Nat := none
  maxTicks? : Option Nat := none
  deriving Repr, DecidableEq

/-- What the arguments of a verb give. -/
structure Given where
  file? : Option String := none
  settings : Settings := {}
  inputs : List String := []
  realtime : Bool := false
  json : Bool := false
  deriving Repr, DecidableEq

/-- Why arguments are not read to their end. -/
inductive Interruption where
  | misuse
  | help
  deriving Repr, DecidableEq

namespace Given

/-- Sets what must not be set before. -/
def once {α : Type} (old? : Option α) (new? : Option α) : Except Interruption (Option α) :=
  match old?, new? with
  | none, some a => .ok (some a)
  | _, _ => .error .misuse

/-- A path, which must not be empty. -/
def path? (text : String) : Option String := if text.isEmpty then none else some text

/-- Takes an option with a value. -/
def withValue (g : Given) (text : String) : Switch → Except Interruption Given
  | .input => .ok { g with inputs := g.inputs ++ [text] }
  | .config => do
    return { g with settings.path? := ← once g.settings.path? (path? text) }
  | .maxDepth => do
    return { g with settings.maxDepth? := ← once g.settings.maxDepth? (count? text) }
  | .maxTicks => do
    return { g with settings.maxTicks? := ← once g.settings.maxTicks? (count? text) }
  | .trace | .realtime | .json | .help => .error .misuse

/-- Takes an option that has no value. -/
def withFlag (g : Given) : Switch → Except Interruption Given
  | .trace => if g.settings.trace then .error .misuse else .ok { g with settings.trace := true }
  | .realtime => if g.realtime then .error .misuse else .ok { g with realtime := true }
  | .json => if g.json then .error .misuse else .ok { g with json := true }
  | .help => .error .help
  | .input | .config | .maxDepth | .maxTicks => .error .misuse

/-- Takes an argument that is no option. -/
def withPlain (verb : Verb) (g : Given) (text : String) : Except Interruption Given := do
  if verb.takesFile then return { g with file? := ← once g.file? (path? text) }
  else throw .misuse

/-- Takes the arguments of a verb in order. -/
def ofArguments (verb : Verb) (g : Given) : List String → Except Interruption Given
  | [] => .ok g
  | argument :: rest =>
    match Token.ofText argument with
    | .separator => rest.foldlM (withPlain verb) g
    | .plain => do ofArguments verb (← g.withPlain verb argument) rest
    | .short letters => .error (if (Token.short letters).isShortHelp then .help else .misuse)
    | .long name attached? =>
      match verb.switch? name with
      | none => .error .misuse
      | some switch =>
        match switch.valueName?, attached?, rest with
        | some _, some text, rest => do ofArguments verb (← g.withValue text switch) rest
        | some _, none, text :: rest =>
          if Token.ofText text = .plain then do ofArguments verb (← g.withValue text switch) rest
          else .error .misuse
        | some _, none, [] => .error .misuse
        | none, none, rest => do ofArguments verb (← g.withFlag switch) rest
        | none, some _, _ => .error .misuse

end Given

/-! ## Commands -/

/-- What help is asked on. -/
inductive Topic where
  | program
  | verb (verb : Verb)
  /-- The command that shows help. -/
  | help
  deriving Repr, DecidableEq

/-- A command with all it needs. -/
inductive Command where
  | run (file : String) (settings : Settings) (inputs : List String) (realtime : Bool)
  | check (file : String) (settings : Settings) (json : Bool)
  | kinds
  | help (topic : Topic)
  deriving Repr, DecidableEq

/-- The command of a verb, if nothing that it needs is missing. -/
def Given.command? (g : Given) : Verb → Option Command
  | .run => g.file?.map fun file => .run file g.settings g.inputs g.realtime
  | .check => g.file?.map fun file => .check file g.settings g.json
  | .kinds => some .kinds

/-- The topic that the arguments of the help command name. -/
def Topic.ofArguments? : List String → Option Topic
  | [] => some .program
  | [name] => if name = "help" then some .help else (Verb.ofName? name).map .verb
  | _ => none

/-- The command that arguments give; none if they are a misuse. -/
def Command.ofArguments? : List String → Option Command
  | [] => none
  | first :: rest =>
    match Verb.ofName? first with
    | some verb =>
      match Given.ofArguments verb {} rest with
      | .ok g => g.command? verb
      | .error .help => some (.help (.verb verb))
      | .error .misuse => none
    | none =>
      let token := Token.ofText first
      if first = "help" then (Topic.ofArguments? rest).map .help
      else if token = .long "help" none || token.isShortHelp then some (.help .program)
      else none

end Dataflow.Cli
