import Dataflow.Engine.Basic

/-!
# Propagation

Delivering an input runs the node, and what the node emits is delivered to its listeners before the
delivery is over. Only broadcasts and delayed values are put off: the first into the queue, the
second onto the clock.

Two bounds end the recursion. Inputs nest at most as deep as the configuration allows, which is also
what a program sees: one level too deep is a failure. Outputs passed from listener to listener
without an input between them are bounded by the number of nodes and a patience on top of it, which
only a circle of such listeners exceeds. So every part of propagation is first written for any way
to enter an input, and the knot is tied once, on the allowance for inputs.
-/

namespace Dataflow.Engine

variable {π κ : Type}

/-! ## Deliveries that end where they arrive -/

/-- Overwrites a state cell, without running the node. -/
def setState (slot : SlotId) (value : Value) : Act π κ Unit := do
  match ← node? slot with
  | some node =>
    trace (.state slot node.kind.name value)
    setNode slot { node with state? := some value }
  | none => warn (.stateDropped slot)

/-- Sends a value into a channel: queues its delivery to the listeners of now. -/
def send (id : ChannelId) (value : Value) : Act π κ Unit := do
  match (← get).channels.get? id with
  | some channel =>
    trace (.broadcast id channel.key channel.listeners.length value)
    modify fun s => { s with queue := s.queue.push (.deliver id channel.listeners value) }
  | none => warn (.sendDropped id)

/-- Adds a value to the output log. -/
def sink (value : Value) : Act π κ Unit :=
  modify fun s => { s with outputs := s.outputs.push value }

/-! ## Outputs -/

/-- How far a circle of outputs is followed. A node fed from the circle may fail and so end it, be
it after thousands of rounds; a circle that outlasts this bound is taken to be endless. -/
def patience : Nat := 1000000

/-- How many outputs may be passed on in a row. Outputs that are not passed on in a circle visit
each node at most once, so the number of nodes is enough for them. -/
def relayLimit (s : Engine π κ) : Nat := s.arena.size + patience

section Entered

-- How an input is entered.
variable (enter : SlotId → Value → Act π κ Unit)

/-- Delivers a value, given how an output is passed on. -/
def deliverBy (relay : SlotId → Value → Act π κ Unit) (value : Value) :
    Listener → Act π κ Unit
  | .input slot => enter slot value
  | .output slot => relay slot value
  | .state slot => setState slot value
  | .broadcast channel => send channel value
  | .sink => sink value

/-- Delivers a value to every listener of a node, in order, passing it on at most so many times. -/
def relay : Nat → SlotId → Value → Act π κ Unit
  | 0, _, _ => throw .endless
  | hops + 1, slot, value => do
    match ← node? slot with
    | some node =>
      trace (.output slot node.kind.name value)
      node.outputs.forM (deliverBy enter (relay hops) value)
    | none => warn (.outputDropped slot)

/-- Sends a value out of a node. -/
def emit (slot : SlotId) (value : Value) : Act π κ Unit := do
  relay enter (relayLimit (← get)) slot value

/-- Delivers a value to a listener. -/
def deliverTo (listener : Listener) (value : Value) : Act π κ Unit :=
  deliverBy enter (emit enter) value listener

/-! ## Conditionals -/

/-- Asks a node for its truth value on an input. Its input cell is set, and nothing is sent out. -/
def evaluateCondition [Condition κ] (slot : SlotId) (input : Value) : Act π κ Bool := do
  match ← node? slot with
  | none =>
    warn (.conditionFreed slot)
    return false
  | some node =>
    trace (.input slot node.kind.name input)
    setNode slot { node with input? := some input }
    match node.kind with
    | .condition kind leaf =>
      match Condition.test leaf input node.state? with
      | .ok holds => return holds
      | .error cause => fail (.leaf kind cause)
    | .constant (.bool holds) => return holds
    | .constant value => fail (.notBool node.kind.name value)
    | kind => fail (.notBool kind.name input)

/-- Asks conditions in order up to the first that does not hold. -/
def allHold [Condition κ] (input : Value) : List SlotId → Act π κ Bool
  | [] => return true
  | condition :: rest => do
    if ← evaluateCondition condition input then allHold input rest else return false

/-- Passes an input to the branch that the conditions choose. Returns whether there was one. -/
def routeBy [Condition κ] (slot : SlotId) (input : Value) : Act π κ Bool := do
  match ← node? slot with
  | some { kind := .conditional conditions positive negative?, .. } =>
    let matched ← allHold input conditions
    trace (.branch slot (conditionalKind negative?).name matched)
    match if matched then some positive else negative? with
    | some branch =>
      enter branch input
      return true
    | none => return false
  | _ => return false

/-! ## Runs -/

/-- Does what a process asked for. -/
def applyEffect (slot : SlotId) : Effect → Act π κ Unit
  | .emit value => emit enter slot value
  | .emitAfter delay value => do
    match (← get).clock.schedule? delay (.emit slot value) with
    | some clock => modify fun s => { s with clock }
    | none => throw .timeOverflow
  | .render value => do
    trace (.render slot value)
    modify fun s => { s with rendered := s.rendered.push value }

/-- Runs a process on an input: its state and announcements are kept in any case, its requests are
carried out if it succeeds. -/
def runProcess [Process π] (slot : SlotId) (node : Node π κ) (kind : String) (leaf : π)
    (input : Value) : Act π κ Unit := do
  let reaction := Process.run leaf input node.state?
  setNode slot
    { node with
      kind := .process kind reaction.next
      state? := reaction.written? <|> node.state? }
  reaction.announced.forM fun text => report (.announced text)
  match reaction.outcome with
  | .ok effects => effects.forM (applyEffect enter slot)
  | .error cause => fail (.leaf kind cause)

/-- Runs a node on the input it was just given. -/
def runNode [Process π] [Condition κ] (slot : SlotId) (node : Node π κ) (input : Value) :
    Act π κ Unit := do
  match node.kind with
  | .placeholder => warn (.unwired slot)
  | .composite producers => producers.forM fun producer => enter producer input
  | .conditional .. => discard (routeBy enter slot input)
  | .constant _ => return ()
  | .process kind leaf => runProcess enter slot node kind leaf input
  | .condition kind leaf =>
    match Condition.test leaf input node.state? with
    | .ok holds => emit enter slot (.bool holds)
    | .error cause => fail (.leaf kind cause)

/-- Stores an input and runs the node. -/
def storeAndRun [Process π] [Condition κ] (slot : SlotId) (value : Value) : Act π κ Unit := do
  match ← node? slot with
  | some node =>
    trace (.input slot node.kind.name value)
    let node := { node with input? := some value }
    setNode slot node
    runNode enter slot node value
  | none => warn (.inputDropped slot)

end Entered

/-! ## Inputs -/

/-- Does something as part of processing a node's input. -/
def nested (slot : SlotId) (act : Act π κ Unit) : Act π κ Unit := fun s =>
  match act { s with active := slot :: s.active } with
  | .ok _ s => .ok () { s with active := s.active.tail }
  | .error e s => .error e { s with active := s.active.tail }

variable [Process π] [Condition κ]

/-- Processes an input, with the given allowance for nesting. -/
def enterWithin : Nat → SlotId → Value → Act π κ Unit
  | 0, _, _ => do fail (.depthExceeded (← get).config.maxDepth)
  | allowance + 1, slot, value => nested slot (storeAndRun (enterWithin allowance) slot value)

/-- Stores a value as the input of a node and runs the node. -/
def setInput (slot : SlotId) (value : Value) : Act π κ Unit := do
  enterWithin (← get).allowance slot value

/-- Sends a value to every listener of a node's output. -/
def setOutput (slot : SlotId) (value : Value) : Act π κ Unit := emit setInput slot value

/-- Delivers a value to a listener. -/
def deliver (listener : Listener) (value : Value) : Act π κ Unit :=
  deliverTo setInput listener value

/-- Passes an input to the branch of a conditional that its conditions choose. Returns whether there
was one. -/
def runConditional (slot : SlotId) (input : Value) : Act π κ Bool := routeBy setInput slot input

end Dataflow.Engine
