import Dataflow.Json.Printer
import Dataflow.Json.Reader

/-!
# Configuration

The options of one build: whether value hops are traced, and the two limits that stop a graph which
feeds itself. In JSON the options are the fields of an object, each optional, or the elements of an
array in their order; nothing else may stand there.
-/

namespace Dataflow

/-- Options for one graph. -/
structure Config where
  /-- Report every value hop. -/
  trace : Bool := false
  /-- How deep synchronous deliveries may nest. -/
  maxDepth : Nat := 256
  /-- How many ticks one drive may run. -/
  maxTicks : Nat := 100000
  deriving Repr, DecidableEq, Inhabited

namespace Config

open Json

/-- The fields in their order. -/
inductive Field where
  | trace
  | maxDepth
  | maxTicks
  deriving Repr, DecidableEq

/-- Every field, in order. -/
def Field.all : List Field := [.trace, .maxDepth, .maxTicks]

/-- The name of a field. -/
def Field.name : Field → String
  | .trace => "trace"
  | .maxDepth => "max_depth"
  | .maxTicks => "max_ticks"

/-- The field of the given name. -/
def Field.ofName? (name : String) : Option Field := Field.all.find? fun f => f.name = name

/-- The JSON text of a configuration. -/
def toJson (c : Config) : String :=
  Document.print <| .object
    [(Field.trace.name, .bool c.trace),
     (Field.maxDepth.name, .number (.natural (UInt64.ofNat c.maxDepth))),
     (Field.maxTicks.name, .number (.natural (UInt64.ofNat c.maxTicks)))]

/-- Reads a truth value. -/
def flag : Reader Bool := do
  let first ← Reader.token
  if first = 't' || first = 'f' then
    match ← Reader.scalar first with
    | .bool b => return b
    | _ => Reader.refuse .wrongType
  else Reader.wrongType

/-- Reads a count, which has to be written as a natural number. -/
def count : Reader Nat := do
  let first ← Reader.token
  if first = '-' || first.isDigit then
    match ← Reader.number with
    | .natural n => return n.toNat
    | .negative _ => Reader.refuse .wrongValue
    | .real _ => Reader.refuse .wrongType
  else Reader.wrongType

/-- Reads the value of a field into a configuration. -/
def readField (c : Config) : Field → Reader Config
  | .trace => return { c with trace := ← flag }
  | .maxDepth => return { c with maxDepth := ← count }
  | .maxTicks => return { c with maxTicks := ← count }

/-- Reads an entry: its name has to be that of a field not given before. -/
def readEntry (seen : Config × List Field) (name : String) : Reader (Config × List Field) := do
  match Field.ofName? name with
  | none => Reader.refuse (.unknownField name (Field.all.map Field.name))
  | some f =>
    if f ∈ seen.2 then Reader.refuse (.duplicateField name)
    Reader.colon
    return (← readField seen.1 f, f :: seen.2)

/-- Reads elements for the remaining fields, as far as the array goes. -/
def readElements (c : Config) (isFirst : Bool) : List Field → Reader Config
  | [] => return c
  | f :: fs => do
    if ← Reader.anotherItem isFirst then
      let c ← readField c f
      readElements c false fs
    else return c

/-- Reads a configuration. -/
def reader : Reader Config := do
  match ← Reader.token with
  | '[' =>
    Reader.skip
    let c ← readElements {} true Field.all
    Reader.close ']'
    return c
  | '{' =>
    Reader.skip
    let (c, _) ← Reader.entries readEntry (← Reader.bound) true ({}, [])
    Reader.close '}'
    return c
  | _ => Reader.wrongType

/-- The configuration a JSON text denotes. -/
def ofJson (s : String) : Except ReadError Config := reader.run s

end Config

end Dataflow
