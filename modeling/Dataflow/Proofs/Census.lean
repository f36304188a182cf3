import Dataflow.Proofs.Endings
import Dataflow.Proofs.Hearing
import Dataflow.Proofs.Walked

/-!
# The census of a graph

Wiring makes a node for each node that the specification visits, and nothing that is done with a graph later
on makes, removes or renames one. So the slots and kinds of a graph's nodes are those of the visited nodes
of its specification, in the order of wiring (`Graph.census_eq`). Whatever a graph tells of its nodes is read
off that list: how many there are, how many of each kind, and where. What it tells of its keys is read off
its scope, in which every key has a channel of its own.
-/

namespace Dataflow

namespace Keyed

/-- Setting the number of a key replaces the one it had in the sum of all. -/
theorem sum_insert {entries : List (String × Nat)} (h : Ordered entries) (key : String) (n : Nat) :
    ((insert key n entries).map Prod.snd).sum + (entries.lookup key).getD 0 =
      (entries.map Prod.snd).sum + n := by
  induction entries with
  | nil => simp [insert]
  | cons entry rest ih =>
    obtain ⟨other, m⟩ := entry
    obtain ⟨hfirst, hrest⟩ := List.pairwise_cons.1 h
    unfold insert
    split
    · -- The key comes before all others, so it had no number.
      rename_i hlt
      have hnone : ((other, m) :: rest).lookup key = none := by
        refine Option.eq_none_iff_forall_ne_some.2 fun k hk => ?_
        rcases List.mem_cons.1 (h.lookup_eq_some_iff.1 hk) with heq | hmem
        · cases heq
          exact String.lt_irrefl _ hlt
        · exact String.lt_irrefl _ (String.lt_trans hlt (hfirst _ hmem))
      rw [hnone]
      simp
      omega
    split
    · rename_i heq
      subst heq
      simp
      omega
    · rename_i hne
      have hlookup : ((other, m) :: rest).lookup key = rest.lookup key := by
        rw [List.lookup_cons, beq_false_of_ne hne]
      rw [hlookup, List.map_cons, List.map_cons, List.sum_cons, List.sum_cons, Nat.add_assoc,
        ih hrest, Nat.add_assoc]

end Keyed

/-! ## Counting names -/

namespace Summary

/-- The counts of a list of names: each name that occurs, in the order of names, with how often it does. -/
structure Counts (kinds : List (String × Nat)) (names : List String) : Prop where
  ordered : Keyed.Ordered kinds
  lookup : ∀ name, (kinds.lookup name).getD 0 = names.count name
  pos : ∀ entry ∈ kinds, 0 < entry.2
  sum : (kinds.map Prod.snd).sum = names.length

theorem Counts.nil : Counts [] [] where
  ordered := .nil
  lookup _ := rfl
  pos _ h := nomatch h
  sum := rfl

/-- Counting one more name. -/
theorem Counts.count {kinds : List (String × Nat)} {names : List String} (h : Counts kinds names)
    (name : String) : Counts (count kinds name) (names ++ [name]) where
  ordered := Keyed.ordered_insert h.ordered
  lookup other := by
    rw [List.count_append, List.count_singleton, Summary.count, h.lookup]
    by_cases hother : other = name
    · subst hother
      simp
    · rw [Keyed.lookup_insert_of_ne hother, h.lookup, beq_false_of_ne (Ne.symm hother)]
      rfl
  pos entry hentry := by
    rcases Keyed.mem_of_mem_insert hentry with rfl | hentry
    · exact Nat.succ_pos _
    · exact h.pos entry hentry
  sum := by
    have hsum := Keyed.sum_insert h.ordered name ((kinds.lookup name).getD 0 + 1)
    rw [List.length_append, List.length_singleton, ← h.sum, Summary.count]
    omega

theorem Counts.foldl {kinds : List (String × Nat)} {names : List String} (h : Counts kinds names)
    (more : List String) : Counts (more.foldl Summary.count kinds) (names ++ more) := by
  induction more generalizing kinds names with
  | nil => rwa [List.append_nil]
  | cons name more ih =>
    rw [List.append_cons]
    exact ih (h.count name)

/-- A name is listed with a number exactly if it occurs that often, and does occur. -/
theorem Counts.mem_iff {kinds : List (String × Nat)} {names : List String} (h : Counts kinds names)
    {name : String} {number : Nat} :
    (name, number) ∈ kinds ↔ number = names.count name ∧ 0 < number := by
  rw [← h.ordered.lookup_eq_some_iff, ← h.lookup]
  constructor
  · intro hlookup
    have hpos : 0 < number := h.pos _ (h.ordered.lookup_eq_some_iff.1 hlookup)
    rw [hlookup]
    exact ⟨rfl, hpos⟩
  · rintro ⟨hnumber, hpos⟩
    cases hlookup : kinds.lookup name with
    | none =>
      rw [hlookup] at hnumber
      exact absurd hnumber (Nat.ne_of_gt hpos)
    | some counted =>
      rw [hlookup] at hnumber
      exact congrArg some hnumber.symm

end Summary

/-! ## Slots and kinds -/

/-- The nodes that a specification visits: for each the slot that it is given, and its kind. -/
def SpecNode.census (s : SpecNode) : List (SlotId × String) :=
  (s.visited.map SpecNode.kind).zipIdx.map fun entry => (slotAt entry.2, entry.1)

/-- The kinds of the visited nodes, in order. -/
theorem SpecNode.map_snd_census (s : SpecNode) :
    s.census.map Prod.snd = s.visited.map SpecNode.kind := by
  rw [census, List.map_map]
  exact List.zipIdx_map_fst _ _

theorem SpecNode.length_census (s : SpecNode) : s.census.length = s.visited.length := by
  rw [← List.length_map (f := Prod.snd), map_snd_census, List.length_map]

/-- Slots are given out in the order of indices. -/
theorem SpecNode.pairwise_census (s : SpecNode) :
    s.census.Pairwise fun x y => x.1.index < y.1.index := by
  have hindices : ((s.visited.map SpecNode.kind).zipIdx.map Prod.snd).Pairwise (· < ·) := by
    rw [List.zipIdx_map_snd]
    exact List.pairwise_lt_range'
  exact List.pairwise_map.2 (List.pairwise_map.1 hindices)

theorem NodeKind.name_wiring {π κ : Type} (kind : NodeKind π κ) : kind.wiring.name = kind.name := by
  cases kind <;> rfl

/-- The nodes of a graph: for each its slot, and its kind. -/
def Graph.census {π κ : Type} (g : Graph π κ) : List (SlotId × String) :=
  g.engine.arena.toList.map fun entry => (entry.1, entry.2.kind.name)

/-- A list in the order of indices is what is seen of the nodes of an arena if it has what is seen of each. -/
theorem Arena.map_toList_eq {ν β : Type} {a : Arena ν} {f : ν → β} {l : List (SlotId × β)}
    (hl : l.Pairwise fun x y => x.1.index < y.1.index)
    (hmem : ∀ slot b, (slot, b) ∈ l ↔ (a.get? slot).map f = some b) :
    a.toList.map (fun entry => (entry.1, f entry.2)) = l := by
  have : Std.Antisymm fun x y : SlotId × β => x.1.index < y.1.index :=
    ⟨fun _ _ h h' => absurd h' (Nat.lt_asymm h)⟩
  have : Std.Irrefl fun x y : SlotId × β => x.1.index < y.1.index := ⟨fun _ => Nat.lt_irrefl _⟩
  refine List.Pairwise.eq_of_mem_iff (List.pairwise_map.2 a.pairwise_toList) hl ?_
  rintro ⟨slot, b⟩
  rw [hmem, List.mem_map, Option.map_eq_some_iff]
  constructor
  · rintro ⟨⟨_, node⟩, hnode, ⟨⟩⟩
    exact ⟨node, mem_toList.1 hnode, rfl⟩
  · rintro ⟨node, hnode, rfl⟩
    exact ⟨(slot, node), mem_toList.2 hnode, rfl⟩

namespace Plan

variable {shape? : String → Option LeafShape} {scope : Scope}

/-- A plan is specified by the kind of the node that it is a reading of. -/
theorem Reads.kindName_eq {plan : Plan} {s : SpecNode} (h : plan.Reads shape? scope s) :
    plan.kindName = s.kind := by
  cases plan with
  | component consumers producers => exact h.1.symm
  | conditional conditions positive negative? =>
    obtain ⟨-, -, n?, hnegative, ⟨hgate, rfl⟩ | ⟨hswitch, n, rfl, -⟩⟩ := h
    · cases negative? with
      | none => exact hgate.symm
      | some negative =>
        obtain ⟨_, hnone, -⟩ := hnegative
        cases hnone
    · cases negative? with
      | none => cases hnegative
      | some negative => exact hswitch.symm
  | constant value => exact h.1.symm
  | leaf spec state? => exact congrArg SpecNode.kind h.1

/-- The places of a reading are numbered as its specification is visited, and are of the same kinds. -/
theorem Reads.census_eq {root : Plan} {s : SpecNode} (h : root.Reads shape? scope s) :
    root.layout.map (fun site => (slotAt site.number, site.plan.kindName)) = s.census := by
  have hkinds : root.layout.map (fun site => site.plan.kindName) = s.visited.map SpecNode.kind := by
    have hsites : List.Forall₂ (· = ·) (root.layout.map fun site => site.plan.kindName)
        (s.visited.map SpecNode.kind) :=
      List.forall₂_map_left_iff.2 (List.forall₂_map_right_iff.2
        ((h.sites 0 [.sink]).imp fun _ _ hreads => hreads.kindName_eq))
    rwa [List.forall₂_eq_eq_eq] at hsites
  have hnumbers : root.layout.map Site.number = List.range' 0 (s.visited.map SpecNode.kind).length := by
    rw [List.length_map, ← h.size_eq]
    exact map_number_sites root 0 [.sink]
  rw [SpecNode.census, List.zipIdx_eq_zip_range', ← hnumbers, ← hkinds, List.zip_map', List.map_map]
  rfl

end Plan

namespace Graph

variable {π κ : Type} {registry : Registry π κ} {config : Config} {spec : SpecNode} {g : Graph π κ}

namespace Assembled

open Plan

variable {root : Plan} {declared : Declared} {wired : Wired π κ}
  (h : Assembled registry spec root declared wired)

include h

/-- A wired graph has what the specification visits, and nothing else. -/
theorem mem_census_iff (slot : SlotId) (kind : String) :
    (slot, kind) ∈ spec.census ↔ (wired.arena.get? slot).map (fun node => node.kind.name) = some kind := by
  rw [← h.reads.census_eq, List.mem_map, Option.map_eq_some_iff]
  constructor
  · rintro ⟨site, hsite, ⟨⟩⟩
    obtain ⟨made, hmade, hget⟩ := h.get?_of_mem hsite
    exact ⟨_, hget, Engine.name_of_kindAt hmade⟩
  · rintro ⟨node, hget, rfl⟩
    obtain ⟨site, hsite, rfl, made, hmade, rfl⟩ := h.exists_site hget
    exact ⟨site, hsite, congrArg (Prod.mk _) (Engine.name_of_kindAt hmade).symm⟩

theorem keys_nodup : declared.scope.keys.Nodup :=
  List.pairwise_map.2 (h.consistent.ordered.imp fun {_ _} hlt => String.ne_of_lt hlt)

/-- The scope has the keys that have a channel. -/
theorem mem_keys_iff {key : String} :
    key ∈ declared.scope.keys ↔ ∃ id, declared.scope.find? key = some id := by
  rw [Scope.keys, List.mem_map]
  constructor
  · rintro ⟨entry, hentry, rfl⟩
    exact ⟨entry.2, h.consistent.ordered.lookup_eq_some_iff.2 hentry⟩
  · rintro ⟨id, hid⟩
    exact ⟨(key, id), h.consistent.ordered.lookup_eq_some_iff.1 hid, rfl⟩

/-- The keys of the scope are the declared ones. -/
theorem keys_perm (hnodup : spec.declaredKeys.Nodup) : declared.scope.keys.Perm spec.declaredKeys :=
  (List.perm_ext_iff_of_nodup h.keys_nodup hnodup).2 fun key => h.mem_keys_iff.trans (h.has_iff key)

/-- Every key of the scope has one channel, and there are no others. -/
theorem channels_perm : (wired.channels.all.toList.map Channel.key).Perm declared.scope.keys := by
  have hget : ∀ {i : Nat} {channel : Channel}, wired.channels.all.toList[i]? = some channel →
      declared.scope.find? channel.key = some ⟨i⟩ := fun {i channel} hi => by
    have hchannel : wired.channels.get? ⟨i⟩ = some channel := Array.getElem?_toList.symm.trans hi
    obtain ⟨key, hkey, rfl⟩ := h.exists_key hchannel
    exact hkey
  -- Two channels of one key would be the channel that the scope has for it.
  have hchannels : (wired.channels.all.toList.map Channel.key).Nodup := by
    refine List.nodup_iff_getElem?_ne_getElem?.2 fun i j hij hj heq => ?_
    rw [List.getElem?_map, List.getElem?_map] at heq
    rw [List.length_map] at hj
    obtain ⟨channel, hi, hkey⟩ := Option.map_eq_some_iff.1
      (heq.trans (congrArg (Option.map Channel.key) (List.getElem?_eq_getElem hj)))
    have hindex := hget hi
    rw [hkey, hget (List.getElem?_eq_getElem hj)] at hindex
    cases hindex
    exact Nat.lt_irrefl _ hij
  refine (List.perm_ext_iff_of_nodup hchannels h.keys_nodup).2 fun key => ?_
  rw [h.mem_keys_iff, List.mem_map]
  constructor
  · rintro ⟨channel, hchannel, rfl⟩
    obtain ⟨i, hi⟩ := List.getElem?_of_mem hchannel
    exact ⟨⟨i⟩, hget hi⟩
  · rintro ⟨id, hid⟩
    have hchannel := h.channel_of_key hid
    exact ⟨_, List.mem_of_getElem? (Array.getElem?_toList.trans hchannel), rfl⟩

end Assembled

/-! ## What stays -/

variable [Process π] [Condition κ]

theorem operate_scope (g : Graph π κ) (op : Operation) : (g.operate op).2.scope = g.scope := by
  unfold operate perform
  split <;> rfl

theorem operateAll_scope (g : Graph π κ) (ops : List Operation) :
    (g.operateAll ops).2.scope = g.scope := by
  induction ops generalizing g with
  | nil => rfl
  | cons op ops ih => exact (ih _).trans (operate_scope g op)

/-- Whatever is done with a graph, its nodes keep their kinds, and its channels are those it was wired with. -/
theorem sameKinds_operateAll {root : SlotId} {scope : Scope} {wired : Plan.Wired π κ}
    (hassemble : assemble registry spec = .ok (root, scope, wired))
    (hbuild : build registry config spec = .ok g) (ops : List Operation) :
    (engineOf config wired).SameKinds (g.operateAll ops).2.engine := by
  refine invariant_of_build (P := (engineOf config wired).SameKinds) hbuild (fun _ _ _ h => ?_)
    (fun hmove hsame => hsame.trans (.of_move hmove)) ops
  rw [hassemble] at h
  cases h
  exact .refl _

/-- **The nodes of a graph are those that its specification visits.** -/
theorem census_eq (hbuild : build registry config spec = .ok g) (ops : List Operation) :
    (g.operateAll ops).2.census = spec.census := by
  obtain ⟨wired, hassemble, -⟩ := build_eq_ok_iff.1 hbuild
  obtain ⟨plan, declared, h, -⟩ := assembled_of_assemble hassemble
  have hsame := sameKinds_operateAll hassemble hbuild ops
  refine Arena.map_toList_eq (f := fun node : Node π κ => node.kind.name) spec.pairwise_census fun slot kind => ?_
  have hkinds := congrArg (Option.map NodeKind.name) (hsame.kinds slot)
  rw [Option.map_map, Option.map_map] at hkinds
  simp only [Function.comp_def, NodeKind.name_wiring] at hkinds
  rw [h.mem_census_iff, hkinds]
  rfl

/-! ## What a graph tells -/

omit [Process π] [Condition κ] in
theorem find_eq (g : Graph π κ) (kind : String) :
    g.find kind = (g.census.filter fun entry => entry.2 = kind).map Prod.fst := by
  rw [find, census, List.filter_map, List.map_map]
  rfl

omit [Process π] [Condition κ] in
theorem kinds_eq (g : Graph π κ) :
    g.summary.kinds = (g.census.map Prod.snd).foldl Summary.count [] := by
  rw [census, List.map_map]
  rfl

omit [Process π] [Condition κ] in
theorem nodeCount_eq (g : Graph π κ) (h : g.engine.arena.WellFormed) :
    g.nodeCount = g.census.length := by
  rw [nodeCount, ← h.length_slots, census, Arena.slots, List.length_map, List.length_map]

/-- What a graph tells of its nodes and of its keys is what its specification says. -/
structure Inventory (g : Graph π κ) (spec : SpecNode) : Prop where
  /-- The nodes are those that the specification visits, in the order in which slots were given out. -/
  census : g.census = spec.census
  nodeCount : g.nodeCount = spec.visited.length
  /-- A kind is listed with a number exactly if that many visited nodes are of the kind, and some are. -/
  kinds : ∀ kind number, (kind, number) ∈ g.summary.kinds ↔
    number = spec.visited.countP (fun t => t.kind = kind) ∧ 0 < number
  kinds_ordered : Keyed.Ordered g.summary.kinds
  total : (g.summary.kinds.map Prod.snd).sum = g.nodeCount
  /-- The slots of a kind are those that its visited nodes were given. -/
  found : ∀ kind, g.find kind = (spec.census.filter fun entry => entry.2 = kind).map Prod.fst
  found_counted : ∀ kind, (g.find kind).length = (g.summary.kinds.lookup kind).getD 0
  found_ascending : ∀ kind, (g.find kind).Pairwise fun slot other => slot.index < other.index
  /-- The keys are those of the visited broadcasts, each once and in their order. -/
  keys : g.summary.broadcastKeys.Perm spec.declaredKeys
  keys_ascending : g.summary.broadcastKeys.Pairwise (· < ·)
  /-- Each key has one channel, and there are no others. -/
  channels : (g.engine.channels.all.toList.map Channel.key).Perm g.summary.broadcastKeys

/-- **A build makes one node for each visited node of its specification.** -/
theorem one_node_each (hbuild : build registry config spec = .ok g) (ops : List Operation) :
    (g.operateAll ops).2.Inventory spec := by
  obtain ⟨wired, hassemble, -⟩ := build_eq_ok_iff.1 hbuild
  obtain ⟨plan, declared, h, hscope, -⟩ := assembled_of_assemble hassemble
  have hwell := (assemble_succeeds_iff registry spec).1 ⟨_, hassemble⟩
  have hsame := sameKinds_operateAll hassemble hbuild ops
  have hcensus := census_eq hbuild ops
  have hcount := nodeCount_eq _ (wellFormed_operateAll hbuild ops)
  have hkinds := kinds_eq (g.operateAll ops).2
  have hfind := find_eq (g.operateAll ops).2
  have hkeys : (g.operateAll ops).2.summary.broadcastKeys = declared.scope.keys := by
    rw [summary, operateAll_scope, hscope]
  rw [hcensus] at hcount hkinds hfind
  rw [spec.length_census] at hcount
  -- The kinds of the visited nodes are counted.
  have hcounts := Summary.Counts.nil.foldl (spec.census.map Prod.snd)
  rw [List.nil_append, ← hkinds, spec.map_snd_census] at hcounts
  have hcountP : ∀ kind, (spec.visited.map SpecNode.kind).count kind =
      spec.visited.countP fun t => t.kind = kind := fun kind => by
    rw [List.count_eq_countP, List.countP_map]
    rfl
  refine ⟨hcensus, hcount, fun kind number => ?_, hcounts.ordered, ?_, hfind, fun kind => ?_, fun kind => ?_,
    ?_, ?_, ?_⟩
  · rw [hcounts.mem_iff, hcountP]
  · rw [hcounts.sum, hcount, List.length_map]
  · rw [hfind, hcounts.lookup, ← spec.map_snd_census, List.length_map, ← List.countP_eq_length_filter,
      List.count_eq_countP, List.countP_map]
    rfl
  · rw [hfind]
    exact List.pairwise_map.2 (spec.pairwise_census.filter _)
  · rw [hkeys]
    exact h.keys_perm hwell.keys_nodup
  · rw [hkeys]
    exact List.pairwise_map.2 h.consistent.ordered
  · rw [hkeys, hsame.channels]
    exact h.channels_perm

end Graph

/-- A gate with a branch that it ignores beside a switch, and a component that hears its own broadcast. -/
def SpecNode.guarded : SpecNode :=
  ⟨"component",
    [("consumers", .nodes [⟨"render", []⟩, ⟨"broadcast", [("key", .literal (.text "seen"))]⟩]),
     ("producers", .nodes
      [⟨"gate",
        [("conditions", .nodes [⟨"under", [("state", .node ⟨"value", [("value", .literal .unit)]⟩)]⟩]),
         ("negative", .node ⟨"get", []⟩),
         ("positive", .node ⟨"get", []⟩)]⟩,
       ⟨"listener", [("key", .literal (.text "seen"))]⟩,
       ⟨"switch",
        [("conditions", .nodes [⟨"value", [("value", .literal (.bool true))]⟩]),
         ("negative", .node ⟨"get", []⟩),
         ("positive", .node ⟨"value", [("value", .literal .unit)]⟩)]⟩])]⟩

namespace Graph

/-- The branch that the gate ignores has no node, and the broadcast and the listener have none; a push that
fails changes nothing of this. -/
theorem one_node_each_guarded :
    ∃ g, build Registry.catalogue {} SpecNode.guarded = .ok g ∧
      let after := (g.operateAll [.push .unit, .settle]).2
      after.Inventory SpecNode.guarded ∧ after.nodeCount = 10 ∧
        after.summary.kinds = [("component", 1), ("gate", 1), ("get", 2), ("render", 1), ("switch", 1),
          ("under", 1), ("value", 3)] ∧
        after.find "get" = [slotAt 3, slotAt 8] ∧ after.summary.broadcastKeys = ["seen"] := by
  have hok : (build Registry.catalogue {} SpecNode.guarded).isOk = true := by cbv
  obtain ⟨g, hbuild⟩ := exists_of_isOk hok
  have hinventory := one_node_each hbuild [.push .unit, .settle]
  have hcensus : SpecNode.guarded.census = [(slotAt 0, "component"), (slotAt 1, "render"),
      (slotAt 2, "gate"), (slotAt 3, "get"), (slotAt 4, "under"), (slotAt 5, "value"),
      (slotAt 6, "switch"), (slotAt 7, "value"), (slotAt 8, "get"), (slotAt 9, "value")] := by cbv
  have hkeys : SpecNode.guarded.declaredKeys = ["seen"] := by cbv
  refine ⟨g, hbuild, hinventory, ?_, ?_, ?_, ?_⟩
  · rw [hinventory.nodeCount, ← SpecNode.length_census, hcensus]
    rfl
  · rw [kinds_eq, hinventory.census, hcensus]
    decide
  · rw [hinventory.found, hcensus]
    decide
  · exact List.perm_singleton.1 (hkeys ▸ hinventory.keys)

end Graph

end Dataflow
