import Dataflow.Graph.Wiring

/-!
# Well-formed specifications

A build visits the root and, from a visited node on, its parts: of a component the consumers and
producers that are nodes of their own, of a gate or a switch the branches and the conditions, of a
leaf its state. `visited` lists what is visited, in the order in which wiring makes nodes.

A specification is well-formed when every visited node is sound by itself, no two broadcasts declare
one key, and every key that is heard is declared. Which phase of the build finds what at fault plays
no part in this.
-/

namespace Dataflow.SpecNode

/-! ## What a build visits -/

/-- Whether the node has the given structural kind. -/
abbrev Is (s : SpecNode) (k : Structure) : Prop := s.kind = k.name

/-- A structure is known by its name, and no two structures have one name. -/
theorem ofName?_eq_some_iff {name : String} {k : Structure} :
    Structure.ofName? name = some k ↔ name = k.name := by
  constructor
  · intro h
    simpa [eq_comm] using List.find?_some h
  · rintro rfl
    cases k <;> decide

/-- The kinds of structure are the reserved ones. -/
theorem isStructural_of_is {s : SpecNode} {k : Structure} (h : s.Is k) :
    isStructural s.kind = true := by
  rw [isStructural, ofName?_eq_some_iff.2 h]
  rfl

/-- A node is of one structure at most. -/
theorem Is.unique {s : SpecNode} {k k' : Structure} (h : s.Is k) (h' : s.Is k') : k = k' := by
  have hk := ofName?_eq_some_iff.2 h
  rw [ofName?_eq_some_iff.2 h'] at hk
  exact (Option.some.inj hk).symm

/-- The nodes of a property that is a list of nodes or a single one; of any other, none. -/
def nodesOf (s : SpecNode) (name : String) : List SpecNode :=
  match s.property? name with
  | some (.nodes ns) => ns
  | some (.node n) => [n]
  | _ => []

/-- The node of a property that is one; of any other, none. -/
def nodeOf (s : SpecNode) (name : String) : List SpecNode :=
  match s.property? name with
  | some (.node n) => [n]
  | _ => []

/-- The text of a key; none if the key is no text. -/
def keyOf (s : SpecNode) : List String :=
  match s.property? "key" with
  | some (.literal (.text k)) => [k]
  | _ => []

/-- The parts of a node that a build goes on to, in the order of wiring. -/
def parts (s : SpecNode) : List SpecNode :=
  match Structure.ofName? s.kind with
  | some .component =>
    (s.nodesOf "consumers").filter (fun c => ¬c.Is .broadcast) ++
      (s.nodesOf "producers").filter (fun p => ¬p.Is .listener)
  | some .gate => s.nodeOf "positive" ++ s.nodesOf "conditions"
  | some .switch => s.nodeOf "positive" ++ s.nodeOf "negative" ++ s.nodesOf "conditions"
  | some _ => []
  | none => s.nodeOf "state"

/-- The nodes in a property are smaller than the node that has it, so that a build may go on to them. -/
theorem size_lt_of_mem_nodesOf {s n : SpecNode} {name : String} (h : n ∈ s.nodesOf name) :
    n.size < s.size := by
  unfold nodesOf at h
  split at h
  · rename_i ns hp
    exact Nat.lt_of_le_of_lt (size_le_listSize h) (propertySize_lt_size (p := .nodes ns) hp)
  · rename_i m hp
    cases List.mem_singleton.1 h
    exact propertySize_lt_size (p := .node n) hp
  · cases h

theorem size_lt_of_mem_nodeOf {s n : SpecNode} {name : String} (h : n ∈ s.nodeOf name) :
    n.size < s.size := by
  unfold nodeOf at h
  split at h
  · rename_i m hp
    cases List.mem_singleton.1 h
    exact propertySize_lt_size (p := .node n) hp
  · cases h

/-- A build goes on to smaller nodes only. -/
theorem size_lt_of_mem_parts {s n : SpecNode} (h : n ∈ s.parts) : n.size < s.size := by
  unfold parts at h
  split at h
  · rcases List.mem_append.1 h with h | h
    · exact size_lt_of_mem_nodesOf ((List.mem_filter.1 h).1)
    · exact size_lt_of_mem_nodesOf ((List.mem_filter.1 h).1)
  · rcases List.mem_append.1 h with h | h
    · exact size_lt_of_mem_nodeOf h
    · exact size_lt_of_mem_nodesOf h
  · rcases List.mem_append.1 h with h | h
    · rcases List.mem_append.1 h with h | h
      · exact size_lt_of_mem_nodeOf h
      · exact size_lt_of_mem_nodeOf h
    · exact size_lt_of_mem_nodesOf h
  · simp at h
  · exact size_lt_of_mem_nodeOf h

/-- The nodes that a build visits, one entry for each position of the tree. -/
def visited (s : SpecNode) : List SpecNode :=
  s :: s.parts.attach.flatMap fun part => part.1.visited
termination_by s.size
decreasing_by exact size_lt_of_mem_parts part.2

/-- The root is visited first, and then what each part visits, part by part. -/
theorem visited_eq (s : SpecNode) : s.visited = s :: s.parts.flatMap visited := by
  rw [visited]
  -- The parts are taken with the proof that they are smaller, which is of no use any more.
  simp

/-- Something holds of all visited nodes if it holds of the root and of what its parts visit. -/
theorem forall_visited_iff {s : SpecNode} {P : SpecNode → Prop} :
    (∀ t ∈ s.visited, P t) ↔ P s ∧ ∀ part ∈ s.parts, ∀ t ∈ part.visited, P t := by
  rw [visited_eq]
  constructor
  · intro h
    refine ⟨h s (by simp), fun part hpart t ht => h t ?_⟩
    exact List.mem_cons_of_mem _ (List.mem_flatMap.2 ⟨part, hpart, ht⟩)
  · rintro ⟨hs, hparts⟩ t ht
    rcases List.mem_cons.1 ht with rfl | ht
    · exact hs
    · obtain ⟨part, hpart, ht⟩ := List.mem_flatMap.1 ht
      exact hparts part hpart t ht

/-- A build visits the root of its specification. -/
theorem mem_visited_self (s : SpecNode) : s ∈ s.visited := by
  rw [visited_eq]
  exact List.mem_cons_self ..

/-- The parts of a visited node are visited. -/
theorem part_mem_visited {s t part : SpecNode} (ht : t ∈ s.visited) (hpart : part ∈ t.parts) :
    part ∈ s.visited := by
  have hwithin : ∀ s : SpecNode, ∀ t ∈ s.visited, part ∈ t.parts → part ∈ s.visited := by
    intro s
    -- By induction as a build goes down, since the node can be at any depth.
    induction s using visited.induct with
    | case1 s ih =>
      rw [visited_eq]
      intro t ht hpart
      refine List.mem_cons_of_mem _ (List.mem_flatMap.2 ?_)
      rcases List.mem_cons.1 ht with rfl | ht
      · exact ⟨part, hpart, mem_visited_self part⟩
      · obtain ⟨child, hchild, ht⟩ := List.mem_flatMap.1 ht
        exact ⟨child, hchild, ih ⟨child, hchild⟩ t ht hpart⟩
  exact hwithin s t ht hpart

section Parts

variable {s : SpecNode}

/-- A build passes over broadcasts and listeners. They have channels and no nodes. -/
theorem parts_of_component (h : s.Is .component) :
    s.parts = (s.nodesOf "consumers").filter (fun c => ¬c.Is .broadcast) ++
      (s.nodesOf "producers").filter (fun p => ¬p.Is .listener) := by
  rw [parts, ofName?_eq_some_iff.2 h]

/-- A build goes on to the branch of a gate before its conditions. -/
theorem parts_of_gate (h : s.Is .gate) :
    s.parts = s.nodeOf "positive" ++ s.nodesOf "conditions" := by
  rw [parts, ofName?_eq_some_iff.2 h]

/-- A build goes on to both branches of a switch before its conditions. -/
theorem parts_of_switch (h : s.Is .switch) :
    s.parts = s.nodeOf "positive" ++ s.nodeOf "negative" ++ s.nodesOf "conditions" := by
  rw [parts, ofName?_eq_some_iff.2 h]

theorem parts_of_value (h : s.Is .value) : s.parts = [] := by
  rw [parts, ofName?_eq_some_iff.2 h]

/-- The only part of a leaf is its state. -/
theorem parts_of_leaf (h : Structure.ofName? s.kind = none) : s.parts = s.nodeOf "state" := by
  rw [parts, h]

end Parts

/-! ## Keys -/

/-- The keys that the node's own broadcasts declare. -/
def broadcastKeys (s : SpecNode) : List String :=
  if s.Is .component then
    ((s.nodesOf "consumers").filter (·.Is .broadcast)).flatMap keyOf
  else []

/-- The keys that the node's own listeners hear. -/
def listenerKeys (s : SpecNode) : List String :=
  if s.Is .component then
    ((s.nodesOf "producers").filter (·.Is .listener)).flatMap keyOf
  else []

/-- The keys declared anywhere in the tree, one entry for each broadcast. -/
def declaredKeys (s : SpecNode) : List String := s.visited.flatMap broadcastKeys

/-- The keys heard anywhere in the tree. -/
def heardKeys (s : SpecNode) : List String := s.visited.flatMap listenerKeys

/-- Only components declare keys. -/
theorem broadcastKeys_of_not_component {s : SpecNode} (h : ¬s.Is .component) :
    s.broadcastKeys = [] := if_neg h

/-- Only components hear keys. -/
theorem listenerKeys_of_not_component {s : SpecNode} (h : ¬s.Is .component) :
    s.listenerKeys = [] := if_neg h

/-- A node of an unreserved kind is of no structure. -/
theorem not_is_of_ofName?_eq_none {s : SpecNode} (h : Structure.ofName? s.kind = none)
    (k : Structure) : ¬s.Is k := by
  intro hk
  rw [ofName?_eq_some_iff.2 hk] at h
  cases h

/-- The keys of a tree are those of its root and then those of its parts, in the order of the build. -/
theorem declaredKeys_eq (s : SpecNode) :
    s.declaredKeys = s.broadcastKeys ++ s.parts.flatMap declaredKeys := by
  rw [declaredKeys, visited_eq, List.flatMap_cons, List.flatMap_assoc]
  rfl

/-- The keys heard in a tree are those that its root hears and then those that its parts hear. -/
theorem heardKeys_eq (s : SpecNode) :
    s.heardKeys = s.listenerKeys ++ s.parts.flatMap heardKeys := by
  rw [heardKeys, visited_eq, List.flatMap_cons, List.flatMap_assoc]
  rfl

/-! ## Soundness of a single node -/

/-- Whether the property is a list of nodes or a single node. -/
def HasNodes (s : SpecNode) (name : String) : Prop :=
  (∃ ns, s.property? name = some (.nodes ns)) ∨ ∃ n, s.property? name = some (.node n)

/-- Whether the property is a node. -/
def HasNode (s : SpecNode) (name : String) : Prop := ∃ n, s.property? name = some (.node n)

/-- Whether the node's state is a node, absent or null. -/
def HasState (s : SpecNode) : Prop :=
  s.HasNode "state" ∨ s.property? "state" = none ∨ s.property? "state" = some (.literal .unit)

/-- Whether the node's key is a text. -/
def HasKey (s : SpecNode) : Prop := ∃ k, s.property? "key" = some (.literal (.text k))

/-- Whether the node can answer a condition: a constant that is a truth value, or a leaf of a
condition kind. -/
def CanAnswer (shape? : String → Option LeafShape) (s : SpecNode) : Prop :=
  if s.Is .value then ∃ b, s.property? "value" = some (.literal (.bool b))
  else shape? s.kind = some .condition

/-- What a component needs: its two lists, and keys where it broadcasts or listens. -/
structure SoundComponent (s : SpecNode) : Prop where
  consumers : s.HasNodes "consumers"
  broadcasts : ∀ c ∈ s.nodesOf "consumers", c.Is .broadcast → c.HasKey
  producers : s.HasNodes "producers"
  listeners : ∀ p ∈ s.nodesOf "producers", p.Is .listener → p.HasKey

/-- What a gate or a switch needs: conditions that can answer, and its branches. -/
structure SoundConditional (shape? : String → Option LeafShape) (s : SpecNode) : Prop where
  conditions : s.HasNodes "conditions"
  answers : ∀ c ∈ s.nodesOf "conditions", c.CanAnswer shape?
  positive : s.HasNode "positive"
  negative : s.Is .switch → s.HasNode "negative"

/-- What declaring asks of a single node. -/
def Declarable (shape? : String → Option LeafShape) (s : SpecNode) : Prop :=
  match Structure.ofName? s.kind with
  | some .component => s.SoundComponent
  | some .gate | some .switch => s.SoundConditional shape?
  | some .value => ∃ v, s.property? "value" = some (.literal v)
  | some .broadcast | some .listener => False
  | none => (shape? s.kind).isSome ∧ s.HasState

/-- A component is sound if its consumers are a list that declares its keys, and its producers a list in
which each listener has one. -/
theorem soundComponent_iff {s : SpecNode} :
    s.SoundComponent ↔
      (s.HasNodes "consumers" ∧ ∀ c ∈ s.nodesOf "consumers", c.Is .broadcast → c.HasKey) ∧
      s.HasNodes "producers" ∧ ∀ p ∈ s.nodesOf "producers", p.Is .listener → p.HasKey :=
  ⟨fun h => ⟨⟨h.1, h.2⟩, h.3, h.4⟩, fun h => ⟨h.1.1, h.1.2, h.2.1, h.2.2⟩⟩

/-- What a conditional needs, list of conditions first, as it is read. -/
theorem soundConditional_iff {shape? : String → Option LeafShape} {s : SpecNode} :
    s.SoundConditional shape? ↔
      (s.HasNodes "conditions" ∧ ∀ c ∈ s.nodesOf "conditions", c.CanAnswer shape?) ∧
      s.HasNode "positive" ∧ (s.Is .switch → s.HasNode "negative") :=
  ⟨fun h => ⟨⟨h.1, h.2⟩, h.3, h.4⟩, fun h => ⟨h.1.1, h.1.2, h.2.1, h.2.2⟩⟩

section Declarable

variable {shape? : String → Option LeafShape} {s : SpecNode}

/-- Of a component its two lists are asked. -/
theorem declarable_of_component (h : s.Is .component) :
    s.Declarable shape? ↔ s.SoundComponent := by
  rw [Declarable, ofName?_eq_some_iff.2 h]

theorem declarable_of_gate (h : s.Is .gate) : s.Declarable shape? ↔ s.SoundConditional shape? := by
  rw [Declarable, ofName?_eq_some_iff.2 h]

theorem declarable_of_switch (h : s.Is .switch) :
    s.Declarable shape? ↔ s.SoundConditional shape? := by
  rw [Declarable, ofName?_eq_some_iff.2 h]

/-- Of a value its literal is asked, whatever it is. -/
theorem declarable_of_value (h : s.Is .value) :
    s.Declarable shape? ↔ ∃ v, s.property? "value" = some (.literal v) := by
  rw [Declarable, ofName?_eq_some_iff.2 h]

/-- Of a leaf it is asked that its kind is registered and that its state can be one. -/
theorem declarable_of_leaf (h : Structure.ofName? s.kind = none) :
    s.Declarable shape? ↔ (shape? s.kind).isSome ∧ s.HasState := by
  rw [Declarable, h]

end Declarable

/-! ## What the readers of properties accept -/

section Readers

variable {s : SpecNode} {name : String}

/-- A literal is read exactly when the property is there and is one. -/
theorem literal_eq_ok_iff {v : Value} :
    s.literal name = .ok v ↔ s.property? name = some (.literal v) := by
  unfold literal
  split <;> simp_all

/-- A key is read exactly when it is there and is a text. -/
theorem key_eq_ok_iff {k : String} :
    s.key = .ok k ↔ s.property? "key" = some (.literal (.text k)) := by
  rw [← literal_eq_ok_iff]
  unfold key
  split <;> simp_all

theorem keyOf_of_key {k : String} (h : s.key = .ok k) : s.keyOf = [k] := by
  rw [keyOf, key_eq_ok_iff.1 h]

/-- The keys of a node are the one that can be read. -/
theorem mem_keyOf_iff {k : String} : k ∈ s.keyOf ↔ s.key = .ok k := by
  rw [key_eq_ok_iff, keyOf]
  split
  · rename_i hk
    rw [hk, List.mem_singleton, Option.some.injEq, Property.literal.injEq, Value.text.injEq]
    exact eq_comm
  · rename_i hk
    constructor
    · intro h
      cases h
    · intro h
      exact absurd h (hk k)

theorem hasKey_iff : s.HasKey ↔ ∃ k, s.key = .ok k := by
  simp only [HasKey, key_eq_ok_iff]

/-- Where a list can be read, it is the nodes of the property. -/
theorem nodesOf_of_nodes {cs : List SpecNode} (h : s.nodes name = .ok cs) :
    s.nodesOf name = cs := by
  unfold nodes at h
  rw [nodesOf]
  split at h <;> simp_all

/-- A property can be read as a list exactly when it is a list or a single node. -/
theorem hasNodes_iff : s.HasNodes name ↔ ∃ cs, s.nodes name = .ok cs := by
  unfold HasNodes nodes
  split <;> simp_all

theorem node_eq_ok_iff {n : SpecNode} : s.node name = .ok n ↔ s.property? name = some (.node n) := by
  unfold node optionalNode
  split <;> grind

/-- Where a node can be read, it is the only one of the property. -/
theorem nodeOf_of_node {n : SpecNode} (h : s.node name = .ok n) : s.nodeOf name = [n] := by
  rw [nodeOf, node_eq_ok_iff.1 h]

theorem hasNode_iff : s.HasNode name ↔ ∃ n, s.node name = .ok n := by
  simp only [HasNode, node_eq_ok_iff]

/-- A state that can be read is the only node of the property, if there is one. -/
theorem nodeOf_of_state {n? : Option SpecNode} (h : s.state = .ok n?) :
    s.nodeOf "state" = n?.toList := by
  unfold state optionalNode at h
  rw [nodeOf]
  -- The property is absent, null, a node or something that is no state.
  split at h
  · cases h
    simp_all
  · cases h
    simp_all
  · cases h
    simp_all
  · cases h

/-- A state can be read exactly when it is a node, absent or null. -/
theorem hasState_iff : s.HasState ↔ ∃ n?, s.state = .ok n? := by
  unfold HasState HasNode state optionalNode
  split <;> simp_all

end Readers

/-! ## Well-formedness -/

/-- Whether the factory of a leaf's kind accepts the leaf; of other nodes nothing is asked. -/
def Accepted {π κ : Type} (registry : Registry π κ) (s : SpecNode) : Prop :=
  Structure.ofName? s.kind = none →
    ∃ factory leaf, registry.find? s.kind = some factory ∧ factory.make s = .ok leaf

/-- A node is sound if it has what its kind needs, and its factory, if it is a leaf, accepts it. -/
def Sound {π κ : Type} (registry : Registry π κ) (s : SpecNode) : Prop :=
  s.Declarable registry.shape? ∧ s.Accepted registry

/-- The specifications that can be built: every visited node is sound, the broadcasts have pairwise
distinct keys, and some broadcast declares each key that is heard. -/
structure WellFormed {π κ : Type} (registry : Registry π κ) (s : SpecNode) : Prop where
  sound : ∀ t ∈ s.visited, t.Sound registry
  keys_nodup : s.declaredKeys.Nodup
  heard_declared : ∀ k ∈ s.heardKeys, k ∈ s.declaredKeys

/-- A component that hears its own broadcast, next to a leaf with a state. -/
def feedback : SpecNode :=
  ⟨"component",
    [("consumers", .nodes
      [⟨"set", [("state", .node ⟨"value", [("value", .literal (.bool true))]⟩)]⟩,
       ⟨"broadcast", [("key", .literal (.text "again"))]⟩]),
     ("producers", .nodes
      [⟨"listener", [("key", .literal (.text "again"))]⟩,
       ⟨"get", []⟩,
       ⟨"value", [("value", .literal .unit)]⟩])]⟩

end Dataflow.SpecNode
