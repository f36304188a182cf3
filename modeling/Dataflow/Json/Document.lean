/-!
# JSON documents

A document is the tree that a JSON text denotes. Numbers keep the form they were written in, because
a reader of settings tells a natural number from a negative one and both from a real one. Objects
keep their entries in the order of the text, repeated names included.
-/

namespace Dataflow.Json

/-- A number by its written form: an integer of 64 bits, or anything else as a double. -/
inductive Number where
  | natural (n : UInt64)
  /-- The integer `-n`, at least `-2 ^ 63` and below zero. -/
  | negative (n : UInt64)
  | real (x : Float)
  deriving Repr, DecidableEq

/-- The nearest double. -/
def Number.toFloat : Number → Float
  | .natural n => n.toFloat
  | .negative n => -n.toFloat
  | .real x => x

/-- The tree a JSON text denotes. -/
inductive Document where
  | null
  | bool (b : Bool)
  | number (n : Number)
  | text (s : String)
  | list (items : List Document)
  | object (entries : List (String × Document))
  deriving Repr, Inhabited

end Dataflow.Json
