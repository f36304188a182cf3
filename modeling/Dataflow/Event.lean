import Dataflow.Channel
import Dataflow.Value.Basic

/-!
# Events

What a graph reports while it runs. Hops are reported only when the graph is traced; announcements
of leaves and warnings always are. A warning tells of a delivery that went nowhere.
-/

namespace Dataflow

/-- A step of a value through a traced graph. -/
inductive Hop where
  | input (slot : SlotId) (kind : String) (value : Value)
  | output (slot : SlotId) (kind : String) (value : Value)
  | state (slot : SlotId) (kind : String) (value : Value)
  | branch (slot : SlotId) (kind : String) (matched : Bool)
  | broadcast (channel : ChannelId) (key : String) (listeners : Nat) (value : Value)
  | render (slot : SlotId) (value : Value)
  deriving Repr, BEq

/-- A delivery that went nowhere. -/
inductive Warning where
  | inputDropped (slot : SlotId)
  | outputDropped (slot : SlotId)
  | stateDropped (slot : SlotId)
  | sendDropped (channel : ChannelId)
  | unwired (slot : SlotId)
  | conditionFreed (slot : SlotId)
  deriving Repr, DecidableEq

/-- What a graph reports. -/
inductive Event where
  | hop (h : Hop)
  /-- A leaf has announced a text. -/
  | announced (text : String)
  | warning (w : Warning)
  deriving Repr, BEq

/-- Whether the event is reported only when the graph is traced. -/
def Event.isHop : Event → Bool
  | .hop _ => true
  | _ => false

/-- The fields of a line, each behind a blank. -/
def Event.fields (parts : List (String × String)) : String :=
  String.join (parts.map fun (name, part) => s!" {name}={part}")

/-- The field of a node. -/
def Event.slotField (slot : SlotId) : String × String := ("slot", slot.display)

/-- The fields of a value at a node. -/
def Event.valueFields (slot : SlotId) (kind : String) (value : Value) : String :=
  Event.fields [Event.slotField slot, ("kind", kind), ("value", value.display)]

/-- The hop in a line, without its head. -/
def Hop.line : Hop → String
  | .input slot kind value => "input" ++ Event.valueFields slot kind value
  | .output slot kind value => "output" ++ Event.valueFields slot kind value
  | .state slot kind value => "state" ++ Event.valueFields slot kind value
  | .branch slot kind matched =>
    "branch" ++
      Event.fields
        [Event.slotField slot, ("kind", kind), ("matched", (Value.bool matched).rendered)]
  | .broadcast channel key listeners value =>
    "broadcast" ++
      Event.fields [("channel", channel.display), ("key", key), ("listeners", toString listeners),
        ("value", value.display)]
  | .render slot value => "render" ++ Event.fields [Event.slotField slot, ("value", value.display)]

/-- The warning in a line, without its head. -/
def Warning.line : Warning → String
  | .inputDropped slot =>
    "input delivered to a freed node, dropping" ++ Event.fields [Event.slotField slot]
  | .outputDropped slot =>
    "output from a freed node, dropping" ++ Event.fields [Event.slotField slot]
  | .stateDropped slot =>
    "state delivered to a freed node, dropping" ++ Event.fields [Event.slotField slot]
  | .sendDropped channel =>
    "send to an unknown channel, dropping" ++ Event.fields [("channel", channel.display)]
  | .unwired slot =>
    "input reached a node that was never wired" ++ Event.fields [Event.slotField slot]
  | .conditionFreed slot =>
    "condition was freed, treating it as failed" ++ Event.fields [Event.slotField slot]

/-- The event in a line. -/
def Event.line : Event → String
  | .hop h => "treevm::trace " ++ h.line
  | .announced text => "treevm::render render" ++ Event.fields [("value", text)]
  | .warning w => "WARN " ++ w.line

end Dataflow
