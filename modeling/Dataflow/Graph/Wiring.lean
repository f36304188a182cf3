import Dataflow.Engine.Basic
import Dataflow.Graph.Plan

/-!
# Wiring

Wiring makes a node for every node of a plan. A component and a conditional take their slot before
their parts do, so that the parts can send their output back to them, and are given their kind when
all parts are there. A component builds its consumers before its producers, because each producer is
built with all consumers as listeners; a leaf is built before its state.

Wiring lists the constants in the order in which it comes to them. Nothing is sent yet.
-/

namespace Dataflow.Plan

variable {π κ : Type}

/-- What has been wired so far. -/
structure Wired (π κ : Type) where
  arena : Arena (Node π κ)
  channels : Channels
  /-- The constants wired so far, in that order. -/
  constants : List SlotId

/-- An act of wiring. A failure leaves nothing behind. -/
abbrev Wire (π κ : Type) := StateT (Wired π κ) (Except BuildError)

/-- Adds a node. -/
def alloc (kind : NodeKind π κ) (outputs : List Listener) : Wire π κ SlotId :=
  modifyGet fun w =>
    (w.arena.nextSlot, { w with arena := w.arena.alloc (.fresh kind outputs) })

/-- Gives a node its kind. -/
def setKind (slot : SlotId) (kind : NodeKind π κ) : Wire π κ Unit :=
  modify fun w =>
    match w.arena.get? slot with
    | some node => { w with arena := w.arena.set slot { node with kind } }
    | none => w

/-- Adds listeners to the channel of a key. -/
def listen (scope : Scope) (key : String) (listeners : List Listener) : Wire π κ Unit := do
  match scope.lookup key with
  | .ok channel => modify fun w => { w with channels := w.channels.listen channel listeners }
  | .error e => throw (.scope e)

/-- Makes the leaf that a specification asks for. -/
def makeLeaf (registry : Registry π κ) (spec : SpecNode) : Except BuildError (NodeKind π κ) :=
  match registry.find? spec.kind with
  | none => .error (.unknownKind spec.kind)
  | some factory =>
    match factory.make spec with
    | .ok (.process made) => .ok (.process spec.kind made)
    | .ok (.condition made) => .ok (.condition spec.kind made)
    | .error cause => .error (.leaf spec.kind cause)

section

variable (registry : Registry π κ) (scope : Scope)

mutual

/-- Wires a plan whose output goes to the given listeners. Returns its slot. -/
def wire (outputs : List Listener) : Plan → Wire π κ SlotId
  | .component consumers producers => do
    let slot ← alloc .placeholder outputs
    let targets ← wireConsumers slot consumers
    let producers ← wireProducers targets producers
    setKind slot (.composite producers)
    return slot
  | .conditional conditions positive negative? => do
    let slot ← alloc .placeholder outputs
    let positive ← wire [.output slot] positive
    let negative? ← wireOptional [.output slot] negative?
    let conditions ← wireAll [] conditions
    setKind slot (.conditional conditions positive negative?)
    return slot
  | .constant value => do
    let slot ← alloc (.constant value) outputs
    modify fun w => { w with constants := w.constants ++ [slot] }
    return slot
  | .leaf spec state? => do
    let kind ← makeLeaf registry spec
    let slot ← alloc kind outputs
    discard (wireOptional [.state slot] state?)
    return slot

/-- Wires the consumers of a component. Returns a listener for each. -/
def wireConsumers (slot : SlotId) : List Consumer → Wire π κ (List Listener)
  | [] => return []
  | consumer :: rest => do
    let target ← wireConsumer slot consumer
    let targets ← wireConsumers slot rest
    return target :: targets

/-- Wires a consumer of a component. Returns the listener that delivers to it. -/
def wireConsumer (slot : SlotId) : Consumer → Wire π κ Listener
  | .broadcast channel => return .broadcast channel
  | .node plan => do return .input (← wire [.output slot] plan)

/-- Wires the producers of a component, which feed the given listeners. Returns their slots. -/
def wireProducers (targets : List Listener) : List Producer → Wire π κ (List SlotId)
  | [] => return []
  | producer :: rest => do
    let slot? ← wireProducer targets producer
    let slots ← wireProducers targets rest
    return slot?.toList ++ slots

/-- Wires a producer of a component. A heard broadcast has no slot of its own. -/
def wireProducer (targets : List Listener) : Producer → Wire π κ (Option SlotId)
  | .listener key => do
    listen scope key targets
    return none
  | .node plan => do return some (← wire targets plan)

/-- Wires a plan that may be absent. -/
def wireOptional (outputs : List Listener) : Option Plan → Wire π κ (Option SlotId)
  | none => return none
  | some plan => do return some (← wire outputs plan)

/-- Wires plans that share their listeners. -/
def wireAll (outputs : List Listener) : List Plan → Wire π κ (List SlotId)
  | [] => return []
  | plan :: rest => do
    let slot ← wire outputs plan
    let slots ← wireAll outputs rest
    return slot :: slots

end

end

end Dataflow.Plan
