import Dataflow.Leaf.Basic
import Dataflow.Scope

/-!
# Failures of builds and runs

A build that fails leaves no graph. A run that fails stops where it is; nothing is retried. A
failure has its own words, and below it the words of what caused it, outermost first.
-/

namespace Dataflow

/-- Why a value could not be propagated. -/
inductive RunError where
  | leaf (kind : String) (cause : LeafError)
  /-- A condition has no truth value to give. -/
  | notBool (kind : String) (value : Value)
  | depthExceeded (limit : Nat)
  | tickBudgetExhausted (limit : Nat)
  deriving Repr, BEq

namespace RunError

/-- The failure in words. -/
def message : RunError → String
  | .leaf kind cause => s!"`{kind}` node failed: " ++ cause.message
  | .notBool kind value => s!"condition `{kind}` produced " ++ value.display ++
    " instead of a boolean"
  | .depthExceeded limit => s!"propagation exceeded the maximum depth of {limit}"
  | .tickBudgetExhausted limit => s!"graph did not settle within {limit} ticks"

/-- The refusal of a leaf that caused the failure, if one did. -/
def leafError? : RunError → Option LeafError
  | .leaf _ cause => some cause
  | _ => none

/-- The words of the causes, outermost first. -/
def causes (e : RunError) : List String := e.leafError?.toList.map LeafError.message

end RunError

/-- Where a component takes broadcasts and listeners. -/
inductive Position where
  | consumer
  | producer
  deriving Repr, DecidableEq

/-- The position's name. -/
def Position.name : Position → String
  | .consumer => "consumer"
  | .producer => "producer"

/-- Why a specification could not be turned into a graph. -/
inductive BuildError where
  | scope (e : ScopeError)
  | unknownKind (kind : String)
  | property (e : PropertyError)
  /-- A broadcast or a listener stands elsewhere than in its position. -/
  | misplaced (kind : String) (position : Position)
  | notACondition (kind : String)
  /-- A leaf refused its specification. -/
  | leaf (kind : String) (cause : LeafError)
  /-- Sending out the constants failed. -/
  | run (e : RunError)
  deriving Repr, BEq

namespace BuildError

/-- The failure in words. -/
def message : BuildError → String
  | .scope e => e.message
  | .unknownKind kind => s!"unknown node kind `{kind}`"
  | .property e => e.message
  | .misplaced kind position => s!"`{kind}` is only valid as a component " ++ position.name
  | .notACondition kind => s!"`{kind}` cannot be used as a gate or switch condition"
  | .leaf kind cause => s!"cannot build `{kind}` node: " ++ cause.message
  | .run e => "propagation failed while activating the graph: " ++ e.message

/-- The refusal of a leaf that caused the failure, if one did. -/
def leafError? : BuildError → Option LeafError
  | .leaf _ cause => some cause
  | .run e => e.leafError?
  | _ => none

/-- The words of the causes, outermost first. -/
def causes : BuildError → List String
  | .leaf _ cause => [cause.message]
  | .run e => e.message :: e.causes
  | _ => []

end BuildError

end Dataflow
