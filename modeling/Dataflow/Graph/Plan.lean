import Dataflow.Channel
import Dataflow.Error
import Dataflow.Leaf.Registry

/-!
# Plans

A plan is a specification that has been found sound: every kind is known, every property has its
shape, and broadcasts and listeners stand where they may. Declaring a specification yields its plan,
and on the way creates a channel for every broadcast and gives the scope its key. Listeners keep
their keys, since a key may be declared later in the tree than it is heard.

Declaring looks at the shapes of kinds alone, so what leaves do has no part in it.
-/

namespace Dataflow

mutual

/-- A sound specification. -/
inductive Plan where
  | component (consumers : List Consumer) (producers : List Producer)
  | conditional (conditions : List Plan) (positive : Plan) (negative? : Option Plan)
  | constant (value : Value)
  | leaf (spec : SpecNode) (state? : Option Plan)

/-- What a component passes its producers' outputs to. -/
inductive Consumer where
  | broadcast (channel : ChannelId)
  | node (plan : Plan)

/-- What feeds a component's consumers. -/
inductive Producer where
  | listener (key : String)
  | node (plan : Plan)

end

instance : Inhabited Plan := ⟨.constant .unit⟩

namespace Plan

/-- What has been declared so far. -/
structure Declared where
  scope : Scope
  channels : Channels
  deriving Repr, DecidableEq

/-- An act of declaring. A failure leaves nothing behind. -/
abbrev Declare := StateT Declared (Except BuildError)

/-- The value of a property, or the fault of the property. -/
def property {α : Type} : Except PropertyError α → Declare α
  | .ok a => return a
  | .error e => throw (.property e)

/-- Creates the channel of a broadcast and declares its key. -/
def declareBroadcast (key : String) : Declare ChannelId := do
  let { scope, channels } ← get
  let channel := channels.nextId
  match scope.register key channel with
  | .ok scope =>
    set { scope, channels := channels.create key : Declared }
    return channel
  | .error e => throw (.scope e)

/-- Checks that a node can answer a condition: a leaf with that shape, or a constant that is a truth
value. -/
def checkCondition (shape? : String → Option LeafShape) (spec : SpecNode) : Declare Unit := do
  if spec.kind = Structure.value.name then
    match ← property (spec.literal "value") with
    | .bool _ => return ()
    | _ => throw (.property (.wrongShape spec.kind "value" .conditionBool))
  else
    match shape? spec.kind with
    | some .condition => return ()
    | some .process => throw (.notACondition spec.kind)
    | none =>
      if isStructural spec.kind then throw (.notACondition spec.kind)
      else throw (.unknownKind spec.kind)

/-- Declares a specification, given the shapes of the registered kinds. -/
def declare (shape? : String → Option LeafShape) (spec : SpecNode) : Declare Plan := do
  match Structure.ofName? spec.kind with
  | none =>
    if (shape? spec.kind).isNone then throw (.unknownKind spec.kind)
    match ← property spec.childState with
    | some ⟨state, _⟩ => return leaf spec (some (← declare shape? state))
    | none => return leaf spec none
  | some .value => return constant (← property (spec.literal "value"))
  | some .broadcast => throw (.misplaced spec.kind .consumer)
  | some .listener => throw (.misplaced spec.kind .producer)
  | some .component =>
    let consumers ← (← property (spec.childNodes "consumers")).mapM fun ⟨consumer, _⟩ => do
      if consumer.kind = Structure.broadcast.name then
        return Consumer.broadcast (← declareBroadcast (← property consumer.key))
      else
        return Consumer.node (← declare shape? consumer)
    let producers ← (← property (spec.childNodes "producers")).mapM fun ⟨producer, _⟩ => do
      if producer.kind = Structure.listener.name then
        return Producer.listener (← property producer.key)
      else
        return Producer.node (← declare shape? producer)
    return component consumers producers
  | some kind =>
    -- a gate or a switch
    let conditions ← (← property (spec.childNodes "conditions")).mapM fun ⟨condition, _⟩ => do
      checkCondition shape? condition
      declare shape? condition
    let ⟨positive, _⟩ ← property (spec.childNode "positive")
    let positive ← declare shape? positive
    if kind = .switch then
      let ⟨negative, _⟩ ← property (spec.childNode "negative")
      return conditional conditions positive (some (← declare shape? negative))
    else return conditional conditions positive none
termination_by spec.size

end Plan

end Dataflow
