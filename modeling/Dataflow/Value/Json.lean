import Dataflow.Json.Printer
import Dataflow.Json.Reader
import Dataflow.Value.Basic

/-!
# Values in JSON

Each value has the JSON scalar of its type, and every scalar denotes a value. Numbers that are not
finite have no JSON form and are written as null.
-/

namespace Dataflow.Value

open Json

/-- The document of a value. -/
def toDocument : Value → Document
  | .unit => .null
  | .bool b => .bool b
  | .number x => if x.isFinite then .number (.real x) else .null
  | .text s => .text s

/-- The value a scalar document denotes. -/
def ofDocument? : Document → Option Value
  | .null => some .unit
  | .bool b => some (.bool b)
  | .number n => some (.number n.toFloat)
  | .text s => some (.text s)
  | .list _ | .object _ => none

/-- The JSON text of a value. -/
def toJson (v : Value) : String := v.toDocument.print

/-- Reads a value; the whole document is read before it is judged. -/
def reader : Reader Value := do
  match ofDocument? (← Reader.document 0) with
  | some v => return v
  | none => Reader.refuse (.noAlternative "Value")

/-- The value a JSON text denotes. -/
def ofJson (s : String) : Except ReadError Value := reader.run s

end Dataflow.Value
