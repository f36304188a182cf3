import Dataflow.Engine.Propagation
import Dataflow.Proofs.Layout

/-!
# Walking over a plan

What a graph does with an input, told as a walk over the plan that the graph was wired from. The walk
knows no listeners and no lists of slots: where an output goes is what the parents have handed down.
`run` does what an input of a place does, and `out` is told what becomes of the output once it has
left the place. A component hands the passing of values to its consumers down to its producers, and
its own output down to its consumers; a conditional hands its output down to its branches. Cells and
leaves are those of the place, under its number.

`kindle` sends out the constants, in the order in which the places are numbered. There a state hands
its value to the leaf that it is the state of, and what a condition would send out is lost.
-/

namespace Dataflow.Plan

variable {π κ : Type}

/-- The kind that the plan is specified by. -/
def kindName : Plan → String
  | .component .. => Structure.component.name
  | .conditional _ _ negative? => (if negative?.isSome then Structure.switch else .gate).name
  | .constant _ => Structure.value.name
  | .leaf spec _ => spec.kind

/-! ## At a place -/

/-- Takes down the input of a place. -/
def note (i : Nat) (kind : String) (input : Value) : Act π κ Unit := do
  Engine.trace (.input (slotAt i) kind input)
  if let some node ← Engine.node? (slotAt i) then
    Engine.setNode (slotAt i) { node with input? := some input }

/-- Does something with the input of a place, once the input is taken down. -/
def within (i : Nat) (kind : String) (input : Value) (act : Act π κ Unit) : Act π κ Unit :=
  Engine.nested (slotAt i) do
    note i kind input
    act

/-- Sends a value out of a place. -/
def leave (i : Nat) (kind : String) (out : Value → Act π κ Unit) (value : Value) :
    Act π κ Unit := do
  Engine.trace (.output (slotAt i) kind value)
  out value

/-- Does what the process at a place has asked for. -/
def carryOut (i : Nat) (up : Value → Act π κ Unit) : Effect → Act π κ Unit
  | .emit value => up value
  | .emitAfter delay value => do
    match (← get).clock.schedule? delay (.emit (slotAt i) value) with
    | some clock => modify fun s => { s with clock }
    | none => throw .timeOverflow
  | .render value => do
    Engine.trace (.render (slotAt i) value)
    modify fun s => { s with rendered := s.rendered.push value }

/-- Runs the leaf at a place on an input and the state. A condition sends out its answer. -/
def runLeaf [Process π] [Condition κ] (i : Nat) (up : Value → Act π κ Unit) (input : Value) :
    Act π κ Unit := do
  let some node ← Engine.node? (slotAt i) | return ()
  match node.kind with
  | .process kind made =>
    let reaction := Process.run made input node.state?
    Engine.setNode (slotAt i)
      { node with
        kind := .process kind reaction.next
        state? := reaction.written? <|> node.state? }
    reaction.announced.forM fun text => Engine.report (.announced text)
    match reaction.outcome with
    | .ok effects => effects.forM (carryOut i up)
    | .error cause => Engine.fail (.leaf kind cause)
  | .condition kind made =>
    match Condition.test made input node.state? with
    | .ok holds => up (.bool holds)
    | .error cause => Engine.fail (.leaf kind cause)
  | _ => return ()

/-- Asks the condition at a place. -/
def ask [Condition κ] (i : Nat) (plan : Plan) (input : Value) : Act π κ Bool := do
  note i plan.kindName input
  match plan with
  | .constant (.bool holds) => return holds
  | _ =>
    let some node ← Engine.node? (slotAt i) | return false
    match node.kind with
    | .condition kind made =>
      match Condition.test made input node.state? with
      | .ok holds => return holds
      | .error cause => Engine.fail (.leaf kind cause)
    | _ => return false

/-- Asks conditions from left to right, up to the first that does not hold. -/
def askAll [Condition κ] (i : Nat) : List Plan → Value → Act π κ Bool
  | [], _ => return true
  | plan :: rest, input => do
    if ← ask i plan input then askAll (i + plan.size) rest input else return false

/-! ## Running -/

section

variable [Process π] [Condition κ]

mutual

/-- Does what an input of a place does. -/
def run (i : Nat) (out : Value → Act π κ Unit) : Plan → Value → Act π κ Unit
  | .component consumers producers, input =>
    within i Structure.component.name input <|
      runProducers (i + 1 + consumersSize consumers)
        (feed (i + 1) (leave i Structure.component.name out) consumers) producers input
  | .conditional conditions positive negative?, input =>
    let kind := kindName (.conditional conditions positive negative?)
    within i kind input do
      let matched ←
        askAll (i + 1 + positive.size + optionalSize negative?) conditions input
      Engine.trace (.branch (slotAt i) kind matched)
      if matched then run (i + 1) (leave i kind out) positive input
      else runOptional (i + 1 + positive.size) (leave i kind out) negative? input
  | .constant _, input => within i Structure.value.name input (return ())
  | .leaf spec _, input => within i spec.kind input (runLeaf i (leave i spec.kind out) input)

/-- Passes a value to the consumers of a component, in order. -/
def feed (i : Nat) (up : Value → Act π κ Unit) : List Consumer → Value → Act π κ Unit
  | [], _ => return ()
  | .broadcast channel :: rest, value => do
    Engine.send channel value
    feed i up rest value
  | .node plan :: rest, value => do
    run i up plan value
    feed (i + plan.size) up rest value

/-- Passes an input to the producers of a component that are no listeners, in order. -/
def runProducers (i : Nat) (out : Value → Act π κ Unit) : List Producer → Value → Act π κ Unit
  | [], _ => return ()
  | .listener _ :: rest, input => runProducers i out rest input
  | .node plan :: rest, input => do
    run i out plan input
    runProducers (i + plan.size) out rest input

/-- Passes an input to a plan that may be absent. -/
def runOptional (i : Nat) (out : Value → Act π κ Unit) : Option Plan → Value → Act π κ Unit
  | none, _ => return ()
  | some plan, input => run i out plan input

end

/-! ## Activating -/

mutual

/-- Sends out the constants of a plan. -/
def kindle (i : Nat) (out : Value → Act π κ Unit) : Plan → Act π κ Unit
  | .component consumers producers => do
    kindleConsumers (i + 1) (leave i Structure.component.name out) consumers
    kindleProducers (i + 1 + consumersSize consumers)
      (feed (i + 1) (leave i Structure.component.name out) consumers) producers
  | .conditional conditions positive negative? => do
    let kind := kindName (.conditional conditions positive negative?)
    kindle (i + 1) (leave i kind out) positive
    kindleOptional (i + 1 + positive.size) (leave i kind out) negative?
    kindleAll (i + 1 + positive.size + optionalSize negative?) conditions
  | .constant value => leave i Structure.value.name out value
  | .leaf _ state? => kindleOptional (i + 1) (Engine.setState (slotAt i)) state?

/-- `kindle` for the consumers of a component. -/
def kindleConsumers (i : Nat) (up : Value → Act π κ Unit) : List Consumer → Act π κ Unit
  | [] => return ()
  | .broadcast _ :: rest => kindleConsumers i up rest
  | .node plan :: rest => do
    kindle i up plan
    kindleConsumers (i + plan.size) up rest

/-- `kindle` for the producers of a component. -/
def kindleProducers (i : Nat) (out : Value → Act π κ Unit) : List Producer → Act π κ Unit
  | [] => return ()
  | .listener _ :: rest => kindleProducers i out rest
  | .node plan :: rest => do
    kindle i out plan
    kindleProducers (i + plan.size) out rest

/-- `kindle` for a plan that may be absent. -/
def kindleOptional (i : Nat) (out : Value → Act π κ Unit) : Option Plan → Act π κ Unit
  | none => return ()
  | some plan => kindle i out plan

/-- `kindle` for conditions, whose output goes nowhere. -/
def kindleAll (i : Nat) : List Plan → Act π κ Unit
  | [] => return ()
  | plan :: rest => do
    kindle i (fun _ => return ()) plan
    kindleAll (i + plan.size) rest

end

end

end Dataflow.Plan
