import Dataflow.Text.Quoted

/-!
# Why a JSON text is refused

A text is refused because it is malformed, because it ends too early, or because it denotes
something else than what was asked for. Only the last kind has a message of its own.
-/

namespace Dataflow.Json

open Text (ticked)

/-- A well-formed text that does not hold the wanted data. -/
inductive DataError where
  | missingField (name : String)
  | duplicateField (name : String)
  | unknownField (name : String) (known : List String)
  /-- None of the alternatives of the named type fits. -/
  | noAlternative (type : String)
  /-- Another type of data was wanted. -/
  | wrongType
  /-- The type fits and the value does not. -/
  | wrongValue
  deriving Repr, DecidableEq

/-- Why a text was refused. -/
inductive ReadError where
  | malformed
  | unexpectedEnd
  | data (e : DataError)
  deriving Repr, DecidableEq

/-- What the data lacks, in words. -/
def DataError.message : DataError → String
  | .missingField name => "missing field " ++ ticked name
  | .duplicateField name => "duplicate field " ++ ticked name
  | .unknownField name known =>
    "unknown field " ++ ticked name ++ ", expected one of " ++
      String.intercalate ", " (known.map ticked)
  | .noAlternative type => "data did not match any variant of untagged enum " ++ type
  | .wrongType => "invalid type"
  | .wrongValue => "invalid value"

end Dataflow.Json
