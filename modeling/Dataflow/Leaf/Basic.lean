import Dataflow.Clock
import Dataflow.Spec.Basic

/-!
# Leaves

A leaf never touches the graph. A process is given its input and its state, and answers with what it
wants done; the engine does it, in the order of the requests, once the process has returned. A
condition answers a question about its input and changes nothing.

The engine is written for any types of processes and conditions that keep these two contracts.
-/

namespace Dataflow

/-- Why a leaf refuses its input or its specification. -/
inductive LeafError where
  | notANumber (leaf role found : String)
  | missingState (leaf : String)
  | invalidDelay (milliseconds : Float)
  | property (e : PropertyError)
  | other (message : String)
  deriving Repr, DecidableEq

/-- The refusal in words. -/
def LeafError.message : LeafError → String
  | .notANumber leaf role found => s!"`{leaf}` expects a number as its {role}, got {found}"
  | .missingState leaf => s!"`{leaf}` ran before its state was set"
  | .invalidDelay milliseconds =>
    "`delay` cannot wait " ++ (Value.number milliseconds).rendered ++ " ms"
  | .property e => e.message
  | .other message => message

/-- What a process wants done. -/
inductive Effect where
  /-- Send the value to the listeners. -/
  | emit (v : Value)
  /-- Send the value to the listeners after a delay, as a task of its own. -/
  | emitAfter (delay : Nat) (v : Value)
  /-- Add the value to the render log. -/
  | render (v : Value)
  deriving Repr, BEq

/-- What a run of a process amounts to. State writes and announcements stand also when the run
fails; requests of a failed run are dropped. -/
structure Reaction (π : Type) where
  /-- The process as the run leaves it. -/
  next : π
  /-- The last value written to the state cell, if any was. -/
  written? : Option Value
  /-- Texts that the process has announced itself. -/
  announced : List String
  /-- The requested effects in order, or why the run failed. -/
  outcome : Except LeafError (List Effect)

/-- The reaction with the process seen as one of another type. -/
def Reaction.map {π π' : Type} (f : π → π') (r : Reaction π) : Reaction π' :=
  { r with next := f r.next }

/-- A leaf with effects, run on every input. -/
class Process (π : Type) where
  /-- Runs on an input and the current state. -/
  run : π → Value → Option Value → Reaction π

/-- A leaf that answers a question about an input. -/
class Condition (κ : Type) where
  /-- Answers for an input and the current state. -/
  test : κ → Value → Option Value → Except LeafError Bool

/-! Processes and conditions of two types together keep the contracts by keeping their own. -/

instance {π π' : Type} [Process π] [Process π'] : Process (π ⊕ π') where
  run
    | .inl leaf, input, state? => (Process.run leaf input state?).map .inl
    | .inr leaf, input, state? => (Process.run leaf input state?).map .inr

instance {κ κ' : Type} [Condition κ] [Condition κ'] : Condition (κ ⊕ κ') where
  test
    | .inl leaf, input, state? => Condition.test leaf input state?
    | .inr leaf, input, state? => Condition.test leaf input state?

end Dataflow
