import Dataflow.Decimal.Layout
import Dataflow.Text.Quoted

/-!
# Values

A value is what travels between nodes: nothing, a truth value, a number or a text. Equality is that
of the parts, so a NaN differs from itself and the two zeros are equal.
-/

namespace Dataflow

/-- What every delivery carries. -/
inductive Value where
  | unit
  | bool (b : Bool)
  | number (x : Float)
  | text (s : String)
  deriving Repr, BEq, Inhabited

namespace Value

/-- The number, if the value is one. -/
def asNumber? : Value → Option Float
  | .number x => some x
  | _ => none

/-- The truth value, if the value is one. -/
def asBool? : Value → Option Bool
  | .bool b => some b
  | _ => none

/-- The text, if the value is one. -/
def asText? : Value → Option String
  | .text s => some s
  | _ => none

/-- The name of the type, as error messages give it. -/
def typeName : Value → String
  | .unit => "unit"
  | .bool _ => "bool"
  | .number _ => "number"
  | .text _ => "text"

/-- Numbers as people read them: never an exponent, and no point on whole numbers. -/
def plainLayout : Decimal.Layout :=
  { least? := none, greatest? := none, marksWhole := false, plusSign := false, tie := .up }

/-- Numbers as inspection shows them: marked as reals, with an exponent below `1e-4` and from
`1e16` on. -/
def inspectedLayout : Decimal.Layout :=
  { least? := some (-4), greatest? := some 15, marksWhole := true, plusSign := false, tie := .up }

/-- The value as rendered for a reader: nothing for the unit, and texts as they are. -/
def rendered : Value → String
  | .unit => ""
  | .bool b => if b then "true" else "false"
  | .number x => plainLayout.text x
  | .text s => s

/-- The value as messages show it: the unit in brackets, and texts quoted. -/
def display : Value → String
  | .unit => "()"
  | .text s => Text.quoted s
  | v => v.rendered

end Value

end Dataflow
