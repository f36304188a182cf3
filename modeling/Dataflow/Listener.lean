import Dataflow.Arena

/-!
# Listeners

A listener says where a delivered value goes. It names its target and never owns it.
-/

namespace Dataflow

/-- The identifier of a channel. -/
structure ChannelId where
  index : Nat
  deriving Repr, DecidableEq, Inhabited

/-- The identifier as messages show it. -/
def ChannelId.display (channel : ChannelId) : String := s!"channel{channel.index}"

/-- Where a delivered value goes. -/
inductive Listener where
  /-- Becomes the node's input and runs it. -/
  | input (slot : SlotId)
  /-- Leaves the node as if it had emitted the value itself. -/
  | output (slot : SlotId)
  /-- Becomes the node's state, without running it. -/
  | state (slot : SlotId)
  /-- Is sent into the channel, to be delivered on a later tick. -/
  | broadcast (channel : ChannelId)
  /-- Is added to the output log. -/
  | sink
  deriving Repr, DecidableEq, Inhabited

/-- The node a listener delivers to, if it names one. -/
def Listener.target? : Listener → Option SlotId
  | .input slot | .output slot | .state slot => some slot
  | .broadcast _ | .sink => none

end Dataflow
