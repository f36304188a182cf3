/-!
# Inspection text

How structured data is shown for inspection: records with named fields, names applied to a part,
lists and optional parts.
-/

namespace Dataflow.Text.Inspect

/-- Parts separated by commas. -/
def separated (parts : List String) : String := String.intercalate ", " parts

/-- A record of named fields, of which there is at least one. -/
def record (name : String) (fields : List (String × String)) : String :=
  name ++ " \x7b " ++ separated (fields.map fun (field, part) => field ++ ": " ++ part) ++ " \x7d"

/-- A name applied to a part. -/
def applied (name part : String) : String := name ++ "(" ++ part ++ ")"

/-- A list of parts. -/
def sequence (parts : List String) : String := "[" ++ separated parts ++ "]"

/-- A part that may be absent. -/
def optional : Option String → String
  | some part => applied "Some" part
  | none => "None"

end Dataflow.Text.Inspect
