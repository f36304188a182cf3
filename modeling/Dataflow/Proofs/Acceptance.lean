import Dataflow.Graph.Build
import Dataflow.Proofs.Layout

/-!
# What the builder accepts

Declaring and wiring walk over the tree in different orders and ask different things. Together they
ask exactly that the specification is well-formed. Declaring asks for everything but the factories
and the heard keys, and wiring, which sees the plan alone, asks for those: a plan is makable when
the factories accept all leaves of the tree it is a reading of and the scope has all keys heard there.
-/

namespace Dataflow

/-! ## When a plan is makable -/

section Makable

variable {π κ : Type} {registry : Registry π κ} {scope : Scope}

/-- Whether the scope has the key. -/
def Scope.Has (scope : Scope) (key : String) : Prop := ∃ channel, scope.find? key = some channel

namespace SpecNode

/-- What wiring asks of a tree: factories that accept its leaves, and keys that are known. -/
structure Wirable (registry : Registry π κ) (scope : Scope) (s : SpecNode) : Prop where
  accepted : ∀ t ∈ s.visited, t.Accepted registry
  known : ∀ k ∈ s.heardKeys, scope.Has k

/-- A tree can be wired if its root can be and each of its parts can be. -/
theorem wirable_iff {s : SpecNode} :
    s.Wirable registry scope ↔ s.Accepted registry ∧ (∀ k ∈ s.listenerKeys, scope.Has k) ∧
      ∀ part ∈ s.parts, part.Wirable registry scope := by
  have hsplit : s.Wirable registry scope ↔
      (∀ t ∈ s.visited, t.Accepted registry) ∧ ∀ k ∈ s.heardKeys, scope.Has k :=
    ⟨fun h => ⟨h.1, h.2⟩, fun h => ⟨h.1, h.2⟩⟩
  rw [hsplit, forall_visited_iff, heardKeys_eq]
  constructor
  · rintro ⟨⟨hs, hparts⟩, hkeys⟩
    refine ⟨hs, fun k hk => hkeys k (List.mem_append_left _ hk), fun part hpart => ?_⟩
    refine ⟨hparts part hpart, fun k hk => hkeys k (List.mem_append_right _ ?_)⟩
    exact List.mem_flatMap.2 ⟨part, hpart, hk⟩
  · rintro ⟨hs, hkeys, hparts⟩
    refine ⟨⟨hs, fun part hpart => (hparts part hpart).accepted⟩, fun k hk => ?_⟩
    rcases List.mem_append.1 hk with hk | hk
    · exact hkeys k hk
    · obtain ⟨part, hpart, hk⟩ := List.mem_flatMap.1 hk
      exact (hparts part hpart).known k hk

/-- No factory is asked for a node of a structure. -/
theorem accepted_of_is {s : SpecNode} {k : Structure} (h : s.Is k) : s.Accepted registry := by
  intro hnone
  rw [ofName?_eq_some_iff.2 h] at hnone
  cases hnone

/-- A leaf is accepted if it can be made. -/
theorem accepted_iff {s : SpecNode} (h : Structure.ofName? s.kind = none) :
    s.Accepted registry ↔ ∃ kind, Plan.makeLeaf registry s = .ok kind := by
  have hunfold : s.Accepted registry ↔
      ∃ factory leaf, registry.find? s.kind = some factory ∧ factory.make s = .ok leaf :=
    ⟨fun ha => ha h, fun ha _ => ha⟩
  rw [hunfold, Plan.makeLeaf]
  cases registry.find? s.kind with
  | none => simp
  | some factory =>
    cases hmake : factory.make s with
    | error e => simp [hmake]
    | ok leaf => cases leaf <;> simp [hmake]

end SpecNode

namespace Plan

/-- A node is made before its inner nodes, and they are made after it. -/
theorem makable_cons_iff {n : Nat} {outputs : List Listener} {plan : Plan} {sites : List Site}
    {hears : List (String × List Listener)} :
    Makable registry scope (⟨n, outputs, plan⟩ :: sites) hears ↔
      (∃ kind, plan.kindAt registry n = .ok kind) ∧ Makable registry scope sites hears := by
  simp [Makable, and_assoc]

/-- Whether wiring a plan can make its places exactly if wiring asks no more of the specification. -/
abbrev MakesOf (registry : Registry π κ) (scope : Scope) (plan : Plan) : Prop :=
  ∀ {s : SpecNode}, plan.Reads registry.shape? scope s → ∀ outputs n,
    (Makable registry scope (plan.sites n outputs) (plan.heard n) ↔ s.Wirable registry scope)

/-- Consumers can be made if those that are nodes can be wired. Broadcasts ask nothing of wiring. -/
theorem makable_consumers {consumers : List Consumer}
    (ih : ∀ plan, .node plan ∈ consumers → MakesOf registry scope plan) {cs : List SpecNode}
    (h : ReadsConsumers registry.shape? scope consumers cs) (owner n : Nat) :
    Makable registry scope (consumerSites n owner consumers) (consumersHeard n consumers) ↔
      ∀ c ∈ cs, ¬c.Is .broadcast → c.Wirable registry scope := by
  induction consumers generalizing cs n with
  | nil =>
    cases h
    simp [consumerSites, consumersHeard, Makable]
  | cons consumer rest ihr =>
    obtain ⟨c, cs, rfl, hc, hcs⟩ := h
    have ihr := ihr (fun plan hplan => ih plan (List.mem_cons_of_mem _ hplan)) hcs
    rw [List.forall_mem_cons]
    cases consumer with
    | broadcast channel =>
      rw [consumerSites, consumersHeard, ihr]
      simp [hc.1]
    | node plan =>
      rw [consumerSites, consumersHeard, makable_append, ihr,
        ih plan (List.mem_cons_self ..) hc.2]
      simp [hc.1]

/-- Producers can be made if the keys of listeners are known and the nodes can be wired. -/
theorem makable_producers {producers : List Producer}
    (ih : ∀ plan, .node plan ∈ producers → MakesOf registry scope plan) {ps : List SpecNode}
    (h : ReadsProducers registry.shape? scope producers ps) (outputs : List Listener) (n : Nat) :
    Makable registry scope (producerSites n outputs producers)
        (producersHeard n outputs producers) ↔
      (∀ p ∈ ps, p.Is .listener → ∀ k, p.key = .ok k → scope.Has k) ∧
        ∀ p ∈ ps, ¬p.Is .listener → p.Wirable registry scope := by
  induction producers generalizing ps n with
  | nil =>
    cases h
    simp [producerSites, producersHeard, Makable]
  | cons producer rest ihr =>
    obtain ⟨p, ps, rfl, hp, hps⟩ := h
    have ihr := ihr (fun plan hplan => ih plan (List.mem_cons_of_mem _ hplan)) hps
    rw [List.forall_mem_cons, List.forall_mem_cons]
    cases producer with
    | listener key =>
      have hone : Makable registry scope [] [(key, outputs)] ↔ scope.Has key := by
        simp [Makable, Scope.Has]
      rw [producerSites, producersHeard, ← List.nil_append (producerSites _ _ _),
        ← List.singleton_append, makable_append, hone, ihr]
      -- The key of a listener is the one that was read, so the two ways to ask for it agree.
      have hkey : (p.Is .listener → ∀ k, p.key = .ok k → scope.Has k) ↔ scope.Has key := by
        rw [hp.2]
        exact ⟨fun h => h hp.1 key rfl, fun h _ _ hk => Except.ok.inj hk ▸ h⟩
      rw [hkey, and_assoc, and_iff_right (absurd hp.1)]
    | node plan =>
      rw [producerSites, producersHeard, makable_append, ihr,
        ih plan (List.mem_cons_self ..) hp.2]
      rw [and_iff_right (fun h => absurd h hp.1), forall_prop_of_true hp.1]
      exact and_left_comm

/-- Conditions can be made if each of them can be wired. -/
theorem makable_all {plans : List Plan} (ih : ∀ plan ∈ plans, MakesOf registry scope plan)
    {ss : List SpecNode} (h : ReadsAll registry.shape? scope plans ss) (n : Nat) :
    Makable registry scope (listSites n plans) (listHeard n plans) ↔
      ∀ s ∈ ss, s.Wirable registry scope := by
  induction plans generalizing ss n with
  | nil =>
    cases h
    simp [listSites, listHeard, Makable]
  | cons plan rest ihr =>
    obtain ⟨s, ss, rfl, hs, hss⟩ := h
    rw [List.forall_mem_cons, listSites, listHeard, makable_append,
      ihr (fun plan hplan => ih plan (List.mem_cons_of_mem _ hplan)) hss,
      ih plan (List.mem_cons_self ..) hs]

/-- What may be absent can be made if it can be wired where it is there. -/
theorem makable_optional {plan? : Option Plan}
    (ih : ∀ plan, plan? = some plan → MakesOf registry scope plan) {s? : Option SpecNode}
    (h : ReadsOptional registry.shape? scope plan? s?) (outputs : List Listener) (n : Nat) :
    Makable registry scope (optionalSites n outputs plan?) (optionalHeard n plan?) ↔
      ∀ s ∈ s?.toList, s.Wirable registry scope := by
  cases plan? with
  | none =>
    cases h
    simp [optionalSites, optionalHeard, Makable]
  | some plan =>
    obtain ⟨s, rfl, hs⟩ := h
    rw [optionalSites, optionalHeard, ih plan rfl hs]
    simp

/-- Only leaves can be refused. -/
theorem kindAt_ok_of_not_leaf {plan : Plan} (h : ∀ spec state?, plan ≠ .leaf spec state?) (n : Nat) :
    ∃ kind, plan.kindAt registry n = .ok kind := by
  cases plan with
  | leaf spec state? => exact absurd rfl (h spec state?)
  | _ => exact ⟨_, rfl⟩

/-- A component asks for the keys that its listeners hear, and for its parts. -/
theorem makable_component {consumers : List Consumer} {producers : List Producer}
    (ihc : ∀ plan, .node plan ∈ consumers → MakesOf registry scope plan)
    (ihp : ∀ plan, .node plan ∈ producers → MakesOf registry scope plan) :
    MakesOf registry scope (.component consumers producers) := by
  rintro s ⟨hs, ⟨cs, hcs, hc⟩, ps, hps, hp⟩ outputs n
  -- What the node itself hears, told by its producers.
  have hkeys : (∀ k ∈ s.listenerKeys, scope.Has k) ↔
      ∀ p ∈ ps, p.Is .listener → ∀ k, p.key = .ok k → scope.Has k := by
    rw [SpecNode.listenerKeys, if_pos hs, SpecNode.nodesOf_of_nodes hps]
    constructor
    · intro h p hmem hlistener k hk
      exact h k (List.mem_flatMap.2 ⟨p, List.mem_filter.2 ⟨hmem, decide_eq_true hlistener⟩,
        SpecNode.mem_keyOf_iff.2 hk⟩)
    · intro h k hk
      obtain ⟨p, hmem, hk⟩ := List.mem_flatMap.1 hk
      obtain ⟨hmem, hlistener⟩ := List.mem_filter.1 hmem
      exact h p hmem (of_decide_eq_true hlistener) k (SpecNode.mem_keyOf_iff.1 hk)
  have hparts : (∀ part ∈ s.parts, part.Wirable registry scope) ↔
      (∀ c ∈ cs, ¬c.Is .broadcast → c.Wirable registry scope) ∧
        ∀ p ∈ ps, ¬p.Is .listener → p.Wirable registry scope := by
    rw [SpecNode.parts_of_component hs, List.forall_mem_append, SpecNode.nodesOf_of_nodes hcs,
      SpecNode.nodesOf_of_nodes hps]
    simp only [List.mem_filter, decide_eq_true_eq, and_imp]
  rw [SpecNode.wirable_iff, and_iff_right (SpecNode.accepted_of_is hs), hkeys, hparts, sites, heard,
    makable_cons_iff, and_iff_right (kindAt_ok_of_not_leaf (by simp) n), makable_append,
    makable_consumers ihc hc, makable_producers ihp hp]
  exact and_left_comm

/-- A conditional asks for its branches and its conditions. -/
theorem makable_conditional {conditions : List Plan} {positive : Plan} {negative? : Option Plan}
    (ihs : ∀ plan ∈ conditions, MakesOf registry scope plan)
    (ihp : MakesOf registry scope positive)
    (ihn : ∀ plan, negative? = some plan → MakesOf registry scope plan) :
    MakesOf registry scope (.conditional conditions positive negative?) := by
  rintro s ⟨⟨cs, hcs, hc, -⟩, ⟨p, hp, hpos⟩, n?, hneg, hkind⟩ outputs n
  -- A gate and a switch differ in nothing but the negative branch.
  have hparts : ∃ k, s.Is k ∧ k ≠ .component ∧
      s.parts = [p] ++ n?.toList ++ cs := by
    rcases hkind with ⟨hs, rfl⟩ | ⟨hs, m, rfl, hm⟩
    · refine ⟨_, hs, by decide, ?_⟩
      rw [SpecNode.parts_of_gate hs, SpecNode.nodeOf_of_node hp, SpecNode.nodesOf_of_nodes hcs]
      rfl
    · refine ⟨_, hs, by decide, ?_⟩
      rw [SpecNode.parts_of_switch hs, SpecNode.nodeOf_of_node hp, SpecNode.nodeOf_of_node hm,
        SpecNode.nodesOf_of_nodes hcs]
      rfl
  obtain ⟨k, hs, hk, hparts⟩ := hparts
  have hkeys : s.listenerKeys = [] :=
    SpecNode.listenerKeys_of_not_component fun h => hk (hs.unique h)
  rw [SpecNode.wirable_iff, and_iff_right (SpecNode.accepted_of_is hs), hkeys, hparts, sites, heard,
    makable_cons_iff, and_iff_right (kindAt_ok_of_not_leaf (by simp) n), makable_append,
    makable_append, ihp hpos, makable_optional ihn hneg, makable_all ihs hc, List.forall_mem_append,
    List.forall_mem_append]
  simp

/-- **Making.** The places of a plan can be made exactly if the factories accept the leaves of its
specification and the keys heard there are known. -/
theorem makable_iff (plan : Plan) : MakesOf registry scope plan := by
  induction plan using Plan.induct with
  | component consumers producers ihc ihp => exact makable_component ihc ihp
  | conditional conditions positive negative? ihs ihp ihn => exact makable_conditional ihs ihp ihn
  | constant value =>
    rintro s ⟨hs, -⟩ outputs n
    have hkeys : s.listenerKeys = [] :=
      SpecNode.listenerKeys_of_not_component fun h => absurd (hs.unique h) (by decide)
    rw [SpecNode.wirable_iff, hkeys, SpecNode.parts_of_value hs]
    simp [sites, heard, Makable, kindAt, SpecNode.accepted_of_is hs]
  | leaf spec state? ih =>
    rintro s ⟨rfl, hnone, -, n?, hn, hstate⟩ outputs n
    have hkeys : spec.listenerKeys = [] :=
      SpecNode.listenerKeys_of_not_component (SpecNode.not_is_of_ofName?_eq_none hnone _)
    have hparts : spec.parts = n?.toList := by
      rw [SpecNode.parts_of_leaf hnone, SpecNode.nodeOf_of_state hn]
    rw [SpecNode.wirable_iff, hkeys, hparts, SpecNode.accepted_iff hnone, sites, heard,
      makable_cons_iff, makable_optional ih hstate]
    simp [kindAt]

end Plan

end Makable

/-! ## Assembling -/

namespace Graph

variable {π κ : Type} {registry : Registry π κ} {spec : SpecNode}

/-- What assembling a specification has made: a plan that is a reading of it, and the layout of that
plan, with a channel for every declared key. -/
structure Assembled (registry : Registry π κ) (spec : SpecNode) (plan : Plan)
    (declared : Plan.Declared) (wired : Plan.Wired π κ) : Prop where
  reads : plan.Reads registry.shape? declared.scope spec
  consistent : declared.Consistent
  has_iff : ∀ k, declared.scope.Has k ↔ k ∈ spec.declaredKeys
  laid : Plan.Laid registry declared.scope 0 (plan.sites 0 [.sink]) (plan.heard 0)
    ⟨.empty, declared.channels, []⟩ wired

/-- No structure is registered as a leaf. -/
theorem shape?_eq_none_of_isStructural (registry : Registry π κ) (kind : String)
    (h : isStructural kind = true) : registry.shape? kind = none := by
  rw [Registry.shape?, registry.find?_eq_none_of_isStructural h]
  rfl

/-- Before anything is declared there are neither keys nor channels. -/
theorem consistent_empty : Plan.Declared.Consistent ⟨.empty, .empty⟩ where
  ordered := .nil
  channel_of_key h := by simp [Scope.find?, Scope.empty] at h
  key_of_channel h := by simp [Channels.get?, Channels.empty] at h

/-- What assembling yields, and when. -/
theorem assemble_eq_ok_iff {root : SlotId} {scope : Scope} {wired : Plan.Wired π κ} :
    assemble registry spec = .ok (root, scope, wired) ↔
      ∃ plan declared, (Plan.declare registry.shape? spec).run ⟨.empty, .empty⟩ = .ok (plan, declared) ∧
        scope = declared.scope ∧
        (plan.wire registry scope [.sink]).run ⟨.empty, declared.channels, []⟩ = .ok (root, wired) := by
  unfold assemble
  cases hdeclare : (Plan.declare registry.shape? spec).run ⟨.empty, .empty⟩ with
  | error e => simp [bind, Except.bind]
  | ok r =>
    obtain ⟨plan, declared⟩ := r
    cases hwire : (plan.wire registry declared.scope [.sink]).run ⟨.empty, declared.channels, []⟩ with
    | error e =>
      simp only [bind, Except.bind, hwire, reduceCtorEq, false_iff, not_exists, not_and]
      rintro _ _ ⟨⟩ rfl h
      rw [hwire] at h
      cases h
    | ok r =>
      obtain ⟨root', wired'⟩ := r
      simp only [bind, Except.bind, hwire]
      constructor
      · rintro ⟨⟩
        exact ⟨plan, declared, rfl, rfl, hwire⟩
      · rintro ⟨_, _, ⟨⟩, rfl, h⟩
        rw [hwire] at h
        cases h
        rfl

/-- What is wired after declaring has the layout of the declared plan, and starts with its root. -/
theorem assembled_of_declare {plan : Plan} {declared : Plan.Declared} {root : SlotId}
    {wired : Plan.Wired π κ}
    (hdeclare : (Plan.declare registry.shape? spec).run ⟨.empty, .empty⟩ = .ok (plan, declared))
    (hwire : (plan.wire registry declared.scope [.sink]).run ⟨.empty, declared.channels, []⟩ =
      .ok (root, wired)) :
    Assembled registry spec plan declared wired ∧ root = slotAt 0 := by
  have hdeclares := Plan.declares (shape?_eq_none_of_isStructural registry) spec
  obtain ⟨-, hadds, hconsistent, hreads⟩ := hdeclares.sound hdeclare
  obtain ⟨-, rfl, hlaid⟩ := (Plan.lays_wire plan [.sink] 0).sound .empty hwire
  refine ⟨⟨hreads _ fun _ _ => id, hconsistent consistent_empty, fun k => ?_, hlaid⟩, rfl⟩
  constructor
  · rintro ⟨channel, hchannel⟩
    -- The scope was empty before, so it has no key that was not added.
    by_contra hmem
    rw [hadds.kept k hmem] at hchannel
    simp [Scope.find?, Scope.empty] at hchannel
  · exact hadds.found k

/-- What is assembled has the layout of a plan for the specification, and starts with its root. -/
theorem assembled_of_assemble {root : SlotId} {scope : Scope} {wired : Plan.Wired π κ}
    (h : assemble registry spec = .ok (root, scope, wired)) :
    ∃ plan declared, Assembled registry spec plan declared wired ∧ scope = declared.scope ∧
      root = slotAt 0 := by
  obtain ⟨plan, declared, hdeclare, rfl, hwire⟩ := assemble_eq_ok_iff.1 h
  obtain ⟨hassembled, hroot⟩ := assembled_of_declare hdeclare hwire
  exact ⟨plan, declared, hassembled, rfl, hroot⟩

/-- **Acceptance.** Declaring and wiring succeed exactly for the well-formed specifications. -/
theorem assemble_succeeds_iff (registry : Registry π κ) (spec : SpecNode) :
    (∃ r, assemble registry spec = .ok r) ↔ spec.WellFormed registry := by
  have hdeclares := Plan.declares (shape?_eq_none_of_isStructural registry) spec
  constructor
  · rintro ⟨⟨root, scope, wired⟩, h⟩
    obtain ⟨plan, declared, hdeclare, rfl, hwire⟩ := assemble_eq_ok_iff.1 h
    obtain ⟨plan', declared', hassembled, hscope, -⟩ := assembled_of_assemble h
    obtain ⟨hsound, hadds, -, hreads⟩ := hdeclares.sound hdeclare
    obtain ⟨hmakable, -⟩ := (Plan.lays_wire plan [.sink] 0).sound .empty hwire
    obtain ⟨haccepted, hknown⟩ :=
      (Plan.makable_iff plan (hreads _ fun _ _ => id) [.sink] 0).1 hmakable
    refine ⟨fun t ht => ⟨hsound t ht, haccepted t ht⟩, hadds.nodup, fun k hk => ?_⟩
    exact (hassembled.has_iff k).1 (hscope ▸ hknown k hk)
  · intro h
    obtain ⟨plan, declared, hdeclare⟩ := hdeclares.succeeds (fun t ht => (h.sound t ht).1)
      h.keys_nodup ⟨.empty, .empty⟩ fun _ _ => rfl
    obtain ⟨-, hadds, -, hreads⟩ := hdeclares.sound hdeclare
    have hwirable : spec.Wirable registry declared.scope :=
      ⟨fun t ht => (h.sound t ht).2, fun k hk => hadds.found k (h.heard_declared k hk)⟩
    obtain ⟨root, wired, hwire⟩ := (Plan.lays_wire plan [.sink] 0).succeeds
      ((Plan.makable_iff plan (hreads _ fun _ _ => id) [.sink] 0).2 hwirable)
      ⟨.empty, declared.channels, []⟩ .empty
    exact ⟨(root, declared.scope, wired),
      assemble_eq_ok_iff.2 ⟨plan, declared, hdeclare, rfl, hwire⟩⟩

end Graph

end Dataflow
