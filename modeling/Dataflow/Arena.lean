/-!
# The arena

The arena owns the nodes of one graph. Each node lives at an index, and an identifier is an index
together with a generation. Freeing a node raises the generation of its index, so identifiers of
freed nodes never become valid again, although their indices are reused, the last freed one first.
-/

namespace Dataflow

/-- The identifier of a node. -/
structure SlotId where
  index : Nat
  generation : Nat
  deriving Repr, DecidableEq, Inhabited

/-- The identifier as messages show it. -/
def SlotId.display (slot : SlotId) : String := s!"#{slot.index}v{slot.generation}"

/-- What lives at an index: the current generation, and the node unless the index is free. -/
structure Entry (ν : Type) where
  generation : Nat
  node? : Option ν
  deriving Repr, DecidableEq

/-- The nodes of one graph by index, the free indices with the last freed one first, and the number
of nodes. -/
structure Arena (ν : Type) where
  entries : Array (Entry ν)
  free : List Nat
  live : Nat
  deriving Repr, DecidableEq

namespace Arena

variable {ν : Type}

/-- The arena without nodes. -/
def empty : Arena ν := ⟨#[], [], 0⟩

instance : Inhabited (Arena ν) := ⟨empty⟩

/-- The node of an identifier, if it is valid. -/
def get? (a : Arena ν) (slot : SlotId) : Option ν := do
  let entry ← a.entries[slot.index]?
  if entry.generation = slot.generation then entry.node? else none

/-- Whether the identifier names a node. -/
def isValid (a : Arena ν) (slot : SlotId) : Bool := (a.get? slot).isSome

/-- Replaces the node at an index, whatever is there. -/
def setNode (a : Arena ν) (index : Nat) (node? : Option ν) : Arena ν :=
  { a with entries := a.entries.modify index fun entry => { entry with node? := node? } }

/-- Replaces the node of a valid identifier; of any other, nothing. -/
def set (a : Arena ν) (slot : SlotId) (node : ν) : Arena ν :=
  if a.isValid slot then a.setNode slot.index (some node) else a

/-- The identifier that the next node will get. -/
def nextSlot (a : Arena ν) : SlotId :=
  match a.free with
  | index :: _ => ⟨index, (a.entries[index]?).elim 0 Entry.generation⟩
  | [] => ⟨a.entries.size, 0⟩

/-- Adds a node, at the index freed last if there is one. -/
def alloc (a : Arena ν) (node : ν) : Arena ν :=
  match a.free with
  | index :: free => { a.setNode index (some node) with free := free, live := a.live + 1 }
  | [] => { a with entries := a.entries.push ⟨0, some node⟩, live := a.live + 1 }

/-- Removes the node of a valid identifier and invalidates the identifier. -/
def release (a : Arena ν) (slot : SlotId) : Arena ν :=
  if a.isValid slot then
    { entries := a.entries.modify slot.index fun entry => ⟨entry.generation + 1, none⟩
      free := slot.index :: a.free
      live := a.live - 1 }
  else a

/-- The number of nodes. -/
def size (a : Arena ν) : Nat := a.live

/-- Whether there are no nodes. -/
def isEmpty (a : Arena ν) : Bool := a.live = 0

/-- The nodes with their identifiers, in the order of indices. -/
def toList (a : Arena ν) : List (SlotId × ν) :=
  a.entries.toList.zipIdx.filterMap fun (entry, index) =>
    entry.node?.map fun node => (⟨index, entry.generation⟩, node)

/-- The identifiers of the nodes, in the order of indices. -/
def slots (a : Arena ν) : List SlotId := a.toList.map Prod.fst

end Arena

end Dataflow
