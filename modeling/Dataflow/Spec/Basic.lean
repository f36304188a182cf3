import Dataflow.Keyed
import Dataflow.Value.Basic

/-!
# Specification trees

A specification is a tree of nodes. A node has a kind and named properties, each of which holds a
subtree, a list of subtrees or a literal; properties are kept in the order of their names, one for
each name. Six kinds are structural, that is, given a meaning by the builder, and every other kind
names a leaf.

The readers of properties say what a node needs and refuse anything else. They also come in a form
that returns each subtree with the proof that it is smaller, on which walks over a specification
recurse.
-/

namespace Dataflow

mutual

/-- A node of a specification: its kind and its properties, in the order of their names. -/
structure SpecNode where
  kind : String
  properties : List (String × Property)

/-- What a property holds. -/
inductive Property where
  | node (n : SpecNode)
  | nodes (ns : List SpecNode)
  | literal (v : Value)

end

instance : Inhabited SpecNode := ⟨⟨"", []⟩⟩

/-! ## Kinds -/

/-- The kinds that the builder itself interprets. -/
inductive Structure where
  | component
  | gate
  | switch
  | value
  | broadcast
  | listener
  deriving Repr, DecidableEq

/-- The kind's name in specifications. -/
def Structure.name : Structure → String
  | .component => "component"
  | .gate => "gate"
  | .switch => "switch"
  | .value => "value"
  | .broadcast => "broadcast"
  | .listener => "listener"

/-- Every structural kind. -/
def Structure.all : List Structure := [.component, .gate, .switch, .value, .broadcast, .listener]

/-- The structural kind of the given name. -/
def Structure.ofName? (name : String) : Option Structure :=
  Structure.all.find? fun k => k.name = name

/-- Whether the builder interprets the kind itself. -/
def isStructural (kind : String) : Bool := (Structure.ofName? kind).isSome

/-! ## Faults of properties -/

/-- What a property has to be. -/
inductive Expected where
  | node
  | nodeList
  | literal
  | text
  | conditionBool
  deriving Repr, DecidableEq

/-- What is expected, in words. -/
def Expected.words : Expected → String
  | .node => "a specification node"
  | .nodeList => "a list of specification nodes"
  | .literal => "a literal"
  | .text => "a string"
  | .conditionBool => "a boolean when used as a condition"

/-- Why a property of a node cannot be read. -/
inductive PropertyError where
  | missing (kind property : String)
  | wrongShape (kind property : String) (expected : Expected)
  deriving Repr, DecidableEq

/-- What is wrong with the property, in words. -/
def PropertyError.message : PropertyError → String
  | .missing kind property =>
    Text.ticked kind ++ " node is missing required property " ++ Text.ticked property
  | .wrongShape kind property expected =>
    Text.ticked kind ++ " node property " ++ Text.ticked property ++ " must be " ++ expected.words

namespace SpecNode

/-! ## Sizes -/

mutual

/-- The number of nodes of the tree. -/
def size : SpecNode → Nat
  | ⟨_, properties⟩ => propertiesSize properties + 1

/-- The number of nodes below a property. -/
def propertySize : Property → Nat
  | .node n => n.size
  | .nodes ns => listSize ns
  | .literal _ => 0

/-- The number of nodes of a list of trees. -/
def listSize : List SpecNode → Nat
  | [] => 0
  | n :: ns => n.size + listSize ns

/-- The number of nodes below a list of properties. -/
def propertiesSize : List (String × Property) → Nat
  | [] => 0
  | (_, p) :: ps => propertySize p + propertiesSize ps

end

/-- A node of a list has no more nodes than the list. -/
theorem size_le_listSize {n : SpecNode} {ns : List SpecNode} (h : n ∈ ns) :
    n.size ≤ listSize ns := by
  induction ns with
  | nil => simp at h
  | cons m ns ih =>
    simp only [listSize]
    rcases List.mem_cons.1 h with rfl | h
    · omega
    · have := ih h
      omega

/-- A property that is found has no more nodes than all properties. -/
theorem propertySize_le_of_lookup {properties : List (String × Property)} {name : String}
    {p : Property} (h : properties.lookup name = some p) :
    propertySize p ≤ propertiesSize properties := by
  induction properties with
  | nil => simp at h
  | cons entry properties ih =>
    obtain ⟨other, q⟩ := entry
    rw [List.lookup_cons] at h
    simp only [propertiesSize]
    split at h
    · cases h
      omega
    · have := ih h
      omega

/-! ## Equality -/

mutual

/-- Whether two nodes have equal kinds and equal properties; numbers are compared as numbers. -/
def beq : SpecNode → SpecNode → Bool
  | ⟨kind, properties⟩ => fun ⟨other, others⟩ => kind = other && beqProperties properties others

/-- Whether two properties are equal. -/
def beqProperty : Property → Property → Bool
  | .node n => fun | .node other => beq n other | _ => false
  | .nodes ns => fun | .nodes others => beqNodes ns others | _ => false
  | .literal v => fun | .literal other => v == other | _ => false

/-- Whether two lists of nodes are equal. -/
def beqNodes : List SpecNode → List SpecNode → Bool
  | [] => List.isEmpty
  | n :: ns => fun | other :: others => beq n other && beqNodes ns others | [] => false

/-- Whether two lists of properties are equal. -/
def beqProperties : List (String × Property) → List (String × Property) → Bool
  | [] => List.isEmpty
  | (name, p) :: ps => fun
    | (other, q) :: others => name = other && beqProperty p q && beqProperties ps others
    | [] => false

end

instance : BEq SpecNode := ⟨beq⟩

/-! ## Construction -/

/-- A node without properties. -/
def ofKind (kind : String) : SpecNode := ⟨kind, []⟩

/-- The node with a property set. -/
def set (s : SpecNode) (name : String) (p : Property) : SpecNode :=
  ⟨s.kind, Keyed.insert name p s.properties⟩

/-- A component: each producer's output goes to every consumer. -/
def component (producers consumers : List SpecNode) : SpecNode :=
  ((ofKind Structure.component.name).set "producers" (.nodes producers)).set
    "consumers" (.nodes consumers)

/-- A constant. -/
def value (v : Value) : SpecNode := (ofKind Structure.value.name).set "value" (.literal v)

/-- A consumer that sends into the channel of a key. -/
def broadcast (key : String) : SpecNode :=
  (ofKind Structure.broadcast.name).set "key" (.literal (.text key))

/-- A producer that hears the channel of a key. -/
def listener (key : String) : SpecNode :=
  (ofKind Structure.listener.name).set "key" (.literal (.text key))

/-- A gate: passes its input on while every condition holds. -/
def gate (conditions : List SpecNode) (positive : SpecNode) : SpecNode :=
  ((ofKind Structure.gate.name).set "conditions" (.nodes conditions)).set
    "positive" (.node positive)

/-- A switch: one branch while every condition holds, the other one otherwise. -/
def switch (conditions : List SpecNode) (positive negative : SpecNode) : SpecNode :=
  (((ofKind Structure.switch.name).set "conditions" (.nodes conditions)).set
    "positive" (.node positive)).set "negative" (.node negative)

/-- The node with its state subtree set. -/
def withState (s state : SpecNode) : SpecNode := s.set "state" (.node state)

/-! ## Reading properties -/

/-- The property of the given name. -/
def property? (s : SpecNode) (name : String) : Option Property := s.properties.lookup name

/-- The subtree of a property, if there is one; null counts as none. -/
def optionalNode (s : SpecNode) (name : String) : Except PropertyError (Option SpecNode) :=
  match s.property? name with
  | none | some (.literal .unit) => .ok none
  | some (.node n) => .ok (some n)
  | some _ => .error (.wrongShape s.kind name .node)

/-- The subtree of a required property. -/
def node (s : SpecNode) (name : String) : Except PropertyError SpecNode :=
  match s.optionalNode name with
  | .ok (some n) => .ok n
  | .ok none => .error (.missing s.kind name)
  | .error e => .error e

/-- The subtrees of a required property. A single subtree is a list of one. -/
def nodes (s : SpecNode) (name : String) : Except PropertyError (List SpecNode) :=
  match s.property? name with
  | none => .error (.missing s.kind name)
  | some (.nodes ns) => .ok ns
  | some (.node n) => .ok [n]
  | some (.literal _) => .error (.wrongShape s.kind name .nodeList)

/-- The literal of a required property. -/
def literal (s : SpecNode) (name : String) : Except PropertyError Value :=
  match s.property? name with
  | none => .error (.missing s.kind name)
  | some (.literal v) => .ok v
  | some _ => .error (.wrongShape s.kind name .literal)

/-- The key of a broadcast or a listener. -/
def key (s : SpecNode) : Except PropertyError String :=
  match s.literal "key" with
  | .ok (.text k) => .ok k
  | .ok _ => .error (.wrongShape s.kind "key" .text)
  | .error e => .error e

/-- The state subtree of a leaf, if there is one. -/
def state (s : SpecNode) : Except PropertyError (Option SpecNode) := s.optionalNode "state"

/-! ## Subtrees that are smaller -/

/-- A property is smaller than its node, which counts as well. -/
theorem propertySize_lt_size {s : SpecNode} {name : String} {p : Property}
    (h : s.property? name = some p) : propertySize p < s.size := by
  have := propertySize_le_of_lookup h
  obtain ⟨kind, properties⟩ := s
  simp only [size] at *
  omega

/-- A child that is optional is smaller. -/
theorem size_lt_of_optionalNode {s n : SpecNode} {name : String}
    (h : s.optionalNode name = .ok (some n)) : n.size < s.size := by
  unfold optionalNode at h
  split at h <;> cases h
  exact propertySize_lt_size (p := .node n) ‹_›

/-- A child that has to be there is smaller. -/
theorem size_lt_of_node {s n : SpecNode} {name : String} (h : s.node name = .ok n) :
    n.size < s.size := by
  unfold node at h
  split at h <;> cases h
  exact size_lt_of_optionalNode ‹_›

/-- Each of several children is smaller. -/
theorem size_lt_of_mem_nodes {s n : SpecNode} {ns : List SpecNode} {name : String}
    (h : s.nodes name = .ok ns) (hn : n ∈ ns) : n.size < s.size := by
  unfold nodes at h
  split at h <;> cases h
  · exact Nat.lt_of_le_of_lt (size_le_listSize hn) (propertySize_lt_size (p := .nodes ns) ‹_›)
  · obtain rfl := List.mem_singleton.1 hn
    exact propertySize_lt_size (p := .node n) ‹_›

/-- A node smaller than the given one. -/
abbrev Smaller (s : SpecNode) := { n : SpecNode // n.size < s.size }

/-- `node`, with the subtree's size bound. -/
def childNode (s : SpecNode) (name : String) : Except PropertyError s.Smaller :=
  match h : s.node name with
  | .ok n => .ok ⟨n, size_lt_of_node h⟩
  | .error e => .error e

/-- `state`, with the subtree's size bound. -/
def childState (s : SpecNode) : Except PropertyError (Option s.Smaller) :=
  match h : s.state with
  | .ok (some n) => .ok (some ⟨n, size_lt_of_optionalNode h⟩)
  | .ok none => .ok none
  | .error e => .error e

/-- `nodes`, with the size bound of each subtree. -/
def childNodes (s : SpecNode) (name : String) : Except PropertyError (List s.Smaller) :=
  match h : s.nodes name with
  | .ok ns => .ok (ns.attachWith _ fun _ hn => size_lt_of_mem_nodes h hn)
  | .error e => .error e

end SpecNode

end Dataflow
