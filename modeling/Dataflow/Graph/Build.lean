import Dataflow.Graph.Basic
import Dataflow.Graph.Wiring

/-!
# Building graphs

A graph is built in three phases. Declaring checks the whole specification and collects its
broadcast keys; wiring makes the nodes; activating sends out every constant, in the order of wiring,
now that all listeners are there. The first fault ends the build, and only activating can leave
events behind.
-/

namespace Dataflow

/-- Why there is no graph, and what was reported up to then. -/
structure BuildFailure where
  error : BuildError
  log : Array Event
  deriving Repr, BEq

/-- How a build ends without a graph. -/
inductive BuildStop where
  | failed (failure : BuildFailure)
  /-- Activating was stopped by something else than a failure. -/
  | stopped (stop : Stop)
  deriving Repr, BEq

namespace Graph

variable {π κ : Type}

/-- Declares and wires a specification: the root's slot, the scope, and what was wired. -/
def assemble (registry : Registry π κ) (spec : SpecNode) :
    Except BuildError (SlotId × Scope × Plan.Wired π κ) := do
  let (plan, declared) ← (Plan.declare registry.shape? spec).run ⟨.empty, .empty⟩
  let start := ⟨.empty, declared.channels, []⟩
  let (root, wired) ← (plan.wire registry declared.scope [.sink]).run start
  return (root, declared.scope, wired)

/-- The engine of a wired graph, before anything is sent. -/
def engineOf (config : Config) (wired : Plan.Wired π κ) : Engine π κ :=
  { (Engine.initial config : Engine π κ) with arena := wired.arena, channels := wired.channels }

variable [Process π] [Condition κ]

/-- Sends out a constant. -/
def sendConstant (slot : SlotId) : Act π κ Unit := do
  match ← Engine.node? slot with
  | some { kind := .constant value, .. } => Engine.setOutput slot value
  | _ => return ()

/-- Sends out constants. -/
def activate (constants : List SlotId) : Act π κ Unit := constants.forM sendConstant

/-- Builds a specification. -/
def build (registry : Registry π κ) (config : Config) (spec : SpecNode) :
    Except BuildStop (Graph π κ) :=
  match assemble registry spec with
  | .error error => .error (.failed ⟨error, #[]⟩)
  | .ok (root, scope, wired) =>
    match activate wired.constants (engineOf config wired) with
    | .ok _ engine => .ok { root, scope, engine }
    | .error (.failed e) engine => .error (.failed ⟨.run e, engine.log⟩)
    | .error stop _ => .error (.stopped stop)

end Graph

end Dataflow
