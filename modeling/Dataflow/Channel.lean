import Dataflow.Listener

/-!
# Broadcast channels

A channel carries values from any number of senders to any number of listeners. Its listeners are
only ever added to, so the list taken when a value is sent stays a prefix of the channel's list.
-/

namespace Dataflow

/-- A channel: the key it was declared under, and its listeners in the order they were added. -/
structure Channel where
  key : String
  listeners : List Listener
  deriving Repr, DecidableEq, Inhabited

/-- The channels of one graph. -/
structure Channels where
  all : Array Channel
  deriving Repr, DecidableEq, Inhabited

namespace Channels

/-- No channels. -/
def empty : Channels := ⟨#[]⟩

/-- The identifier that the next channel will get. -/
def nextId (c : Channels) : ChannelId := ⟨c.all.size⟩

/-- Adds a channel without listeners. -/
def create (c : Channels) (key : String) : Channels := ⟨c.all.push ⟨key, []⟩⟩

/-- The channel of an identifier. -/
def get? (c : Channels) (id : ChannelId) : Option Channel := c.all[id.index]?

/-- Adds listeners to a channel; does nothing if there is no such channel. -/
def listen (c : Channels) (id : ChannelId) (listeners : List Listener) : Channels :=
  ⟨c.all.modify id.index fun channel =>
    { channel with listeners := channel.listeners ++ listeners }⟩

/-- The number of channels. -/
def size (c : Channels) : Nat := c.all.size

/-! Creating and listening change the view `get?` at one identifier. -/

/-- A new channel has its key, and no listeners yet. -/
@[simp] theorem get?_create_self (c : Channels) (key : String) :
    (c.create key).get? c.nextId = some ⟨key, []⟩ := by
  simp [create, get?, nextId]

/-- Creating a channel leaves the others as they are. -/
theorem get?_create_of_ne {c : Channels} {id : ChannelId} (h : id ≠ c.nextId) (key : String) :
    (c.create key).get? id = c.get? id := by
  have : id.index ≠ c.all.size := fun hi => h (by cases id; simp_all [nextId])
  simp [create, get?, Array.getElem?_push, this]

/-- Who begins to hear a channel stands behind all who do already. -/
@[simp] theorem get?_listen_self (c : Channels) (id : ChannelId) (listeners : List Listener) :
    (c.listen id listeners).get? id =
      (c.get? id).map fun channel => ⟨channel.key, channel.listeners ++ listeners⟩ := by
  simp [listen, get?, Array.getElem?_modify]

/-- Whoever hears a channel, the others stay as they are. -/
theorem get?_listen_of_ne {c : Channels} {id other : ChannelId} (h : other ≠ id)
    (listeners : List Listener) : (c.listen id listeners).get? other = c.get? other := by
  have : id.index ≠ other.index := fun hi => h (by cases id; cases other; simp_all)
  simp [listen, get?, Array.getElem?_modify, this]

end Channels

end Dataflow
