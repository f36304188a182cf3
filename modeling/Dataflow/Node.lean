import Dataflow.Leaf.Basic
import Dataflow.Listener
import Dataflow.Text.Inspect

/-!
# Nodes

A node has a kind with its wiring, the last input it was given, a state cell that is empty until
something is delivered to it, and the listeners of its output in the order they were added.
-/

namespace Dataflow

/-- What a node does, and the nodes it does it with. -/
inductive NodeKind (π κ : Type) where
  /-- Not wired yet. -/
  | placeholder
  /-- Passes its input to every producer. -/
  | composite (producers : List SlotId)
  /-- Passes its input to one branch: a gate without a negative branch, a switch with one. -/
  | conditional (conditions : List SlotId) (positive : SlotId) (negative? : Option SlotId)
  /-- Is sent out once, when the graph is activated. -/
  | constant (value : Value)
  | process (kind : String) (leaf : π)
  | condition (kind : String) (leaf : κ)

/-- The kind that a conditional is specified by. -/
def conditionalKind (negative? : Option SlotId) : Structure :=
  if negative?.isSome then .switch else .gate

/-- The kind's name in specifications and messages. -/
def NodeKind.name {π κ : Type} : NodeKind π κ → String
  | .placeholder => "placeholder"
  | .composite _ => Structure.component.name
  | .conditional _ _ negative? => (conditionalKind negative?).name
  | .constant _ => Structure.value.name
  | .process kind _ | .condition kind _ => kind

/-- A node of a graph. -/
structure Node (π κ : Type) where
  kind : NodeKind π κ
  /-- The last input. -/
  input? : Option Value
  /-- The state cell. -/
  state? : Option Value
  /-- The listeners of the output. -/
  outputs : List Listener

/-- A node that has seen nothing yet. -/
def Node.fresh {π κ : Type} (kind : NodeKind π κ) (outputs : List Listener) : Node π κ :=
  ⟨kind, none, none, outputs⟩

/-! ## Inspection -/

open Text.Inspect

/-- The identifier in full. -/
def SlotId.inspect (slot : SlotId) : String :=
  record "SlotId" [("index", toString slot.index), ("generation", toString slot.generation)]

/-- The listener in full. -/
def Listener.inspect : Listener → String
  | .input slot => applied "Input" slot.inspect
  | .output slot => applied "Output" slot.inspect
  | .state slot => applied "State" slot.inspect
  | .broadcast channel => applied "Broadcast" (applied "ChannelId" (toString channel.index))
  | .sink => "Sink"

/-- The value in full, with its type. -/
def Value.inspect : Value → String
  | .unit => "Unit"
  | .bool b => applied "Bool" (Value.bool b).rendered
  | .number x => applied "Number" (inspectedLayout.text x)
  | .text s => applied "Text" (Text.quoted s)

/-- The kind and its wiring in full. -/
def NodeKind.inspect {π κ : Type} : NodeKind π κ → String
  | .placeholder => "Placeholder"
  | .composite producers =>
    record "Composite" [("producers", sequence (producers.map SlotId.inspect))]
  | .conditional conditions positive negative? =>
    record "Conditional"
      [("conditions", sequence (conditions.map SlotId.inspect)),
       ("positive", positive.inspect),
       ("negative", optional (negative?.map SlotId.inspect))]
  | .constant value => record "Constant" [("value", value.inspect)]
  | .process kind _ => record "Process" [("kind", Text.quoted kind)]
  | .condition kind _ => record "Condition" [("kind", Text.quoted kind)]

/-- The node in full. -/
def Node.inspect {π κ : Type} (n : Node π κ) : String :=
  record "GraphNode"
    [("kind", n.kind.inspect),
     ("input", optional (n.input?.map Value.inspect)),
     ("state", optional (n.state?.map Value.inspect)),
     ("outputs", sequence (n.outputs.map Listener.inspect))]

end Dataflow
