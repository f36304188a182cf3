import Dataflow.Engine.Drive
import Dataflow.Json.Printer

/-!
# Graphs

A graph is an engine with the slot of its root and the scope of its keys. Values are pushed into the
root, and what reaches the root's output is in the output log.
-/

namespace Dataflow

/-- A graph that was built from a specification. -/
structure Graph (π κ : Type) where
  root : SlotId
  scope : Scope
  engine : Engine π κ

/-- How many nodes a graph has, in all and of each kind, and the keys of its broadcasts. -/
structure Summary where
  nodes : Nat
  /-- The number of nodes of each kind that occurs, in the order of kinds. -/
  kinds : List (String × Nat)
  broadcastKeys : List String
  deriving Repr, DecidableEq

namespace Summary

/-- Counts one more node of a kind. -/
def count (kinds : List (String × Nat)) (kind : String) : List (String × Nat) :=
  Keyed.insert kind ((kinds.lookup kind).getD 0 + 1) kinds

/-- The line on broadcast keys. -/
def keysLine (s : Summary) : String :=
  if s.broadcastKeys.isEmpty then "no broadcast keys"
  else "broadcast keys: " ++ String.intercalate ", " s.broadcastKeys

/-- The summary as a text of several lines. -/
def display (s : Summary) : String :=
  s!"{s.nodes} nodes\n" ++
    String.join (s.kinds.map fun (kind, number) => s!"  {kind}: {number}\n") ++ s.keysLine

/-- A count as a document. -/
def number (n : Nat) : Json.Document := .number (.natural (UInt64.ofNat n))

/-- The summary as a document. -/
def toDocument (s : Summary) : Json.Document :=
  .object
    [("nodes", number s.nodes),
     ("kinds", .object (s.kinds.map fun (kind, n) => (kind, number n))),
     ("broadcast_keys", .list (s.broadcastKeys.map .text))]

end Summary

namespace Graph

variable {π κ : Type}

/-- Does an act with the graph's engine. -/
def perform {α : Type} (g : Graph π κ) (act : Act π κ α) : Except Stop α × Graph π κ :=
  match act g.engine with
  | .ok a engine => (.ok a, { g with engine })
  | .error stop engine => (.error stop, { g with engine })

/-! ## Queries -/

/-- The current time. -/
def now (g : Graph π κ) : Nat := g.engine.clock.now

/-- How long until the next timer fires, if any is pending. -/
def timeToNextTimer? (g : Graph π κ) : Option Nat := g.engine.clock.timeToNext?

/-- The number of nodes. -/
def nodeCount (g : Graph π κ) : Nat := g.engine.arena.size

/-- The slots of the nodes of a kind, in the order of slots. -/
def find (g : Graph π κ) (kind : String) : List SlotId :=
  (g.engine.arena.toList.filter fun (_, node) => node.kind.name = kind).map Prod.fst

/-- The last input of a node. -/
def inputOf? (g : Graph π κ) (slot : SlotId) : Option Value :=
  (g.engine.arena.get? slot).bind Node.input?

/-- The state of a node. -/
def stateOf? (g : Graph π κ) (slot : SlotId) : Option Value :=
  (g.engine.arena.get? slot).bind Node.state?

/-- Counts the nodes and lists the keys. -/
def summary (g : Graph π κ) : Summary :=
  { nodes := g.nodeCount
    kinds := (g.engine.arena.toList.map fun (_, node) => node.kind.name).foldl Summary.count []
    broadcastKeys := g.scope.keys }

/-- The graph for inspection, under the given name. -/
def inspect (g : Graph π κ) (name : String) : String :=
  Text.Inspect.record "Graph"
    [("id", name), ("root", g.root.inspect), ("nodes", toString g.nodeCount),
     ("pending_tasks", toString g.engine.queue.size)]

/-! ## Acts -/

/-- Adds every later output of a node to the output log. Returns whether there is such a node. -/
def tap (slot : SlotId) : Act π κ Bool := Engine.addListener slot .sink

variable [Process π] [Condition κ]

/-- Gives a value to the root. -/
def push (g : Graph π κ) (value : Value) : Act π κ Unit := Engine.setInput g.root value

end Graph

end Dataflow
