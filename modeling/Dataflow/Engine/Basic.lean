import Dataflow.Channel
import Dataflow.Config
import Dataflow.Error
import Dataflow.Event
import Dataflow.Node

/-!
# The engine

The engine owns the nodes, the channels and the clock of one graph, the tasks queued for the next
tick and the logs of what came out. An act changes the engine and may stop early; the engine then
stays as the act left it.
-/

namespace Dataflow

/-- Work put off to a later tick. -/
inductive Task where
  /-- Deliver a value sent into a channel to the listeners it had at that time. -/
  | deliver (channel : ChannelId) (listeners : List Listener) (value : Value)
  /-- Send a value to the listeners of a node. -/
  | emit (slot : SlotId) (value : Value)
  deriving Repr, BEq

/-- Why an act stops early. -/
inductive Stop where
  | failed (e : RunError)
  /-- A point in time is not representable. -/
  | timeOverflow
  /-- Outputs are passed on in a circle. -/
  | endless
  deriving Repr, BEq

/-- The running state of one graph. -/
structure Engine (π κ : Type) where
  config : Config
  arena : Arena (Node π κ)
  channels : Channels
  clock : Clock Task
  /-- The tasks of the next tick, the first one to run first. -/
  queue : Array Task
  /-- The values that reached a sink and were not taken yet. -/
  outputs : Array Value
  /-- The values that were rendered and not taken yet. -/
  rendered : Array Value
  log : Array Event
  /-- The nodes whose input is being processed, the innermost one first. -/
  active : List SlotId

/-- An act of the engine. -/
abbrev Act (π κ α : Type) := EStateM Stop (Engine π κ) α

namespace Engine

variable {π κ : Type}

/-- An engine that owns nothing yet. -/
def initial (config : Config) : Engine π κ :=
  { config, arena := .empty, channels := .empty, clock := .initial, queue := #[]
    outputs := #[], rendered := #[], log := #[], active := [] }

/-- How deep inputs are nested. -/
def depth (s : Engine π κ) : Nat := s.active.length

/-- How much deeper inputs may nest. -/
def allowance (s : Engine π κ) : Nat := s.config.maxDepth - s.depth

/-! ## Reports -/

/-- Reports an event. -/
def report (event : Event) : Act π κ Unit :=
  modify fun s => { s with log := s.log.push event }

/-- Reports a hop, if the graph is traced. -/
def trace (hop : Hop) : Act π κ Unit := do
  if (← get).config.trace then report (.hop hop)

/-- Reports a delivery that goes nowhere. -/
def warn (w : Warning) : Act π κ Unit := report (.warning w)

/-- Stops with a failure. -/
def fail {α : Type} (e : RunError) : Act π κ α := throw (.failed e)

/-! ## Nodes -/

/-- The node of an identifier. -/
def node? (slot : SlotId) : Act π κ (Option (Node π κ)) := return (← get).arena.get? slot

/-- Replaces a node. -/
def setNode (slot : SlotId) (node : Node π κ) : Act π κ Unit :=
  modify fun s => { s with arena := s.arena.set slot node }

/-- Adds a node. -/
def alloc (kind : NodeKind π κ) (outputs : List Listener) : Act π κ SlotId :=
  modifyGet fun s =>
    (s.arena.nextSlot, { s with arena := s.arena.alloc (.fresh kind outputs) })

/-- Replaces the kind of a node, if there is one. -/
def setKind (slot : SlotId) (kind : NodeKind π κ) : Act π κ Unit := do
  if let some node ← node? slot then setNode slot { node with kind }

/-- Adds a listener to a node's output. Values emitted before are not repeated for it. -/
def addListener (slot : SlotId) (listener : Listener) : Act π κ Bool := do
  match ← node? slot with
  | some node =>
    setNode slot { node with outputs := node.outputs ++ [listener] }
    return true
  | none => return false

/-! ## Logs -/

/-- Takes the reported events. -/
def takeLog : Act π κ (Array Event) :=
  modifyGet fun s => (s.log, { s with log := #[] })

/-- Takes the output log. -/
def takeOutputs : Act π κ (Array Value) :=
  modifyGet fun s => (s.outputs, { s with outputs := #[] })

/-- Takes the render log. -/
def takeRendered : Act π κ (Array Value) :=
  modifyGet fun s => (s.rendered, { s with rendered := #[] })

end Engine

end Dataflow
