import Dataflow.Proofs.Acceptance
import Dataflow.Proofs.Positions
import Dataflow.Proofs.References

/-!
# Wired graphs

What is known of the engine of a specification that was declared and wired: its nodes are exactly the
places of the plan, each with the kind and the listeners of its place, and its channels have the
listeners of the components that hear their keys. All its references are sound.
-/

namespace Dataflow

/-! ## What hearing does to channels -/

/-- A channel that is heard has its key, its old listeners and maybe the new ones. -/
theorem Channels.get?_listen {c : Channels} {id other : ChannelId} {channel : Channel}
    {listeners : List Listener} (h : (c.listen id listeners).get? other = some channel) :
    ∃ old, c.get? other = some old ∧ channel.key = old.key ∧
      ∀ listener ∈ channel.listeners, listener ∈ old.listeners ∨ listener ∈ listeners := by
  by_cases ho : other = id
  · subst ho
    rw [get?_listen_self] at h
    obtain ⟨old, hold, rfl⟩ := Option.map_eq_some_iff.1 h
    exact ⟨old, hold, rfl, fun listener hl => List.mem_append.1 hl⟩
  · rw [get?_listen_of_ne ho] at h
    exact ⟨channel, h, rfl, fun listener hl => .inl hl⟩

/-- Hearing a channel makes none vanish. -/
theorem Channels.get?_listen_isSome {c : Channels} {id other : ChannelId}
    {listeners : List Listener} (h : (c.get? other).isSome) :
    ((c.listen id listeners).get? other).isSome := by
  by_cases ho : other = id
  · subst ho
    rwa [get?_listen_self, Option.isSome_map]
  · rwa [get?_listen_of_ne ho]

namespace Plan

variable {scope : Scope}

/-- Keys are heard one after the other, and a key that is not declared is passed over. -/
theorem hear_cons (channels : Channels) (entry : String × List Listener)
    (hears : List (String × List Listener)) :
    hear scope channels (entry :: hears) =
      hear scope ((scope.find? entry.1).elim channels (channels.listen · entry.2)) hears := rfl

/-- After all has been heard, every listener of a channel was there before or hears some key. -/
theorem get?_hear {hears : List (String × List Listener)} {channels : Channels} {id : ChannelId}
    {channel : Channel} (h : (hear scope channels hears).get? id = some channel) :
    ∃ old, channels.get? id = some old ∧ channel.key = old.key ∧
      ∀ listener ∈ channel.listeners, listener ∈ old.listeners ∨
        ∃ entry ∈ hears, listener ∈ entry.2 := by
  induction hears generalizing channels with
  | nil => exact ⟨channel, h, rfl, fun listener hl => .inl hl⟩
  | cons entry hears ih =>
    rw [hear_cons] at h
    obtain ⟨mid, hmid, hkey, hlisteners⟩ := ih h
    have hrest : ∀ {listener}, (∃ e ∈ hears, listener ∈ e.2) →
        ∃ e ∈ entry :: hears, listener ∈ e.2 := fun ⟨e, he, hl⟩ =>
      ⟨e, List.mem_cons_of_mem _ he, hl⟩
    -- A key that is not declared adds no listener.
    cases hfind : scope.find? entry.1 with
    | none =>
      rw [hfind] at hmid
      exact ⟨mid, hmid, hkey, fun listener hl => (hlisteners listener hl).imp_right hrest⟩
    | some heardOn =>
      rw [hfind] at hmid
      obtain ⟨old, hold, hkey', hlisteners'⟩ := Channels.get?_listen hmid
      refine ⟨old, hold, hkey.trans hkey', fun listener hl => ?_⟩
      rcases hlisteners listener hl with hl | hl
      · exact (hlisteners' listener hl).imp_right fun hl => ⟨entry, List.mem_cons_self .., hl⟩
      · exact .inr (hrest hl)

/-- Hearing keys makes no channel vanish. -/
theorem get?_hear_isSome {hears : List (String × List Listener)} {channels : Channels}
    {id : ChannelId} (h : (channels.get? id).isSome) :
    ((hear scope channels hears).get? id).isSome := by
  induction hears generalizing channels with
  | nil => exact h
  | cons entry hears ih =>
    rw [hear_cons]
    refine ih ?_
    cases scope.find? entry.1 with
    | none => exact h
    | some heardOn => exact Channels.get?_listen_isSome h

/-- The channel of a broadcast in a reading is one of a declared key. -/
theorem Reads.broadcasts {shape? : String → Option LeafShape} {plan : Plan} {s : SpecNode}
    (h : plan.Reads shape? scope s) {channel : ChannelId} (hb : plan.Broadcasts channel) :
    ∃ key, scope.find? key = some channel := by
  obtain ⟨consumers, producers, rfl, hmem⟩ := hb
  obtain ⟨-, ⟨cs, -, hcs⟩, -⟩ := h
  induction consumers generalizing cs with
  | nil => cases hmem
  | cons consumer rest ih =>
    obtain ⟨c, cs, rfl, hc, hcs⟩ := hcs
    rcases List.mem_cons.1 hmem with rfl | hmem
    · obtain ⟨-, key, -, hkey⟩ := hc
      exact ⟨key, hkey⟩
    · exact ih hmem cs hcs

/-- A leaf is made with its kind and the shape of its kind. -/
theorem makeLeaf_eq_ok {π κ : Type} {registry : Registry π κ} {spec : SpecNode}
    {kind : NodeKind π κ} (h : makeLeaf registry spec = .ok kind) :
    (registry.shape? spec.kind = some .process ∧ ∃ leaf, kind = .process spec.kind leaf) ∨
      (registry.shape? spec.kind = some .condition ∧ ∃ leaf, kind = .condition spec.kind leaf) := by
  unfold makeLeaf at h
  rw [Registry.shape?]
  split at h
  · cases h
  · rename_i factory hfind
    cases factory with
    | process make =>
      cases hmake : make spec <;> rw [Factory.make, hmake] at h <;> cases h
      exact .inl ⟨by rw [hfind]; rfl, _, rfl⟩
    | condition make =>
      cases hmake : make spec <;> rw [Factory.make, hmake] at h <;> cases h
      exact .inr ⟨by rw [hfind]; rfl, _, rfl⟩

/-- The node of a plan that answers is a truth value or a condition. -/
theorem kind_of_answers {π κ : Type} {registry : Registry π κ} {i : Nat} {plan : Plan}
    {kind : NodeKind π κ} (hanswers : plan.Answers registry.shape?)
    (hkind : plan.kindAt registry i = .ok kind) :
    (∃ holds, plan = .constant (.bool holds) ∧ kind = .constant (.bool holds)) ∨
      ∃ t state? made, plan = .leaf t state? ∧ kind = .condition t.kind made := by
  cases plan with
  | constant value =>
    obtain ⟨holds, rfl⟩ := hanswers
    cases hkind
    exact .inl ⟨holds, rfl, rfl⟩
  | leaf t state? =>
    have hanswers : registry.shape? t.kind = some .condition := hanswers
    rcases makeLeaf_eq_ok hkind with ⟨hshape, -⟩ | ⟨-, made, rfl⟩
    · rw [hanswers] at hshape
      cases hshape
    · exact .inr ⟨t, state?, made, rfl, rfl⟩
  | _ => exact hanswers.elim

end Plan

/-! ## Nodes and places -/

namespace Graph.Assembled

open Plan

variable {π κ : Type} {registry : Registry π κ} {spec : SpecNode} {root : Plan}
  {declared : Declared} {wired : Wired π κ} (h : Assembled registry spec root declared wired)

include h

/-- The slots in use are the first ones, as many as there are places: wiring frees nothing. -/
theorem dense : wired.arena.Dense root.size := by
  have := h.laid.dense
  rwa [Nat.zero_add, length_sites] at this

/-- The constants are those of the plan, in the order of numbers. -/
theorem constants_eq : wired.constants = constantSlots root.layout := by
  rw [h.laid.constants]
  exact List.nil_append _

/-- Every place has its node. -/
theorem get?_of_mem {site : Site} (hsite : site ∈ root.layout) :
    ∃ kind, site.plan.kindAt registry site.number = .ok kind ∧
      wired.arena.get? (slotAt site.number) = some (.fresh kind site.outputs) :=
  h.laid.made site hsite

/-- Every node is that of a place. -/
theorem exists_site {slot : SlotId} {node : Node π κ} (hget : wired.arena.get? slot = some node) :
    ∃ site ∈ root.layout, slot = slotAt site.number ∧
      ∃ kind, site.plan.kindAt registry site.number = .ok kind ∧
        node = .fresh kind site.outputs := by
  obtain ⟨i, hi, rfl⟩ := h.dense.get?_isSome_iff.1 (by rw [hget]; rfl)
  obtain ⟨site, hsite, rfl⟩ := Plan.exists_site [.sink] root (Nat.zero_le i) (by omega)
  obtain ⟨kind, hkind, hnode⟩ := h.get?_of_mem hsite
  rw [hget] at hnode
  cases hnode
  exact ⟨site, hsite, rfl, kind, hkind, rfl⟩

/-- Every place reads a node of the specification that is visited. -/
theorem reads_of_mem {site : Site} (hsite : site ∈ root.layout) :
    ∃ t ∈ spec.visited, site.plan.Reads registry.shape? declared.scope t :=
  Plan.reads_of_mem h.reads hsite

/-- What a component broadcasts on is a channel. -/
theorem hasChannel {component : Site} (hmem : component ∈ root.layout) {channel : ChannelId}
    (hb : component.plan.Broadcasts channel) : (wired.channels.get? channel).isSome := by
  obtain ⟨s, -, hs⟩ := h.reads_of_mem hmem
  obtain ⟨key, hkey⟩ := hs.broadcasts hb
  rw [h.laid.channels]
  exact get?_hear_isSome (by rw [h.consistent.channel_of_key hkey]; rfl)

/-- A listener of a channel is a consumer of a component that hears the channel's key. -/
theorem listener_cases {id : ChannelId} {channel : Channel}
    (hget : wired.channels.get? id = some channel) {listener : Listener}
    (hl : listener ∈ channel.listeners) :
    (∃ c, listener = .broadcast c ∧ (wired.channels.get? c).isSome) ∨
      ∃ consumer ∈ root.layout, listener = .input (slotAt consumer.number) := by
  have hheard := hget
  rw [h.laid.channels] at hheard
  obtain ⟨old, hold, -, hlisteners⟩ := get?_hear hheard
  have hempty : old.listeners = [] := by
    have := h.consistent.channel_of_key (h.consistent.key_of_channel hold)
    rw [hold] at this
    exact congrArg Channel.listeners (Option.some.inj this)
  rcases hlisteners listener hl with hl | ⟨entry, hentry, hl⟩
  · rw [hempty] at hl
    cases hl
  · obtain ⟨component, hmem, consumers, producers, hplan, -, heq⟩ := mem_heard hentry
    rw [heq] at hl
    rcases of_mem_targets hmem hplan hl with ⟨c, rfl, hb⟩ | ⟨consumer, hconsumer, rfl, -⟩
    · exact .inl ⟨c, rfl, h.hasChannel hmem hb⟩
    · exact .inr ⟨consumer, hconsumer, rfl⟩

end Graph.Assembled

/-! ## References of wired graphs -/

namespace Graph.Assembled

open Plan

variable {π κ : Type} {registry : Registry π κ} {spec : SpecNode} {root : Plan}
  {declared : Declared} {wired : Wired π κ} (h : Assembled registry spec root declared wired)
  (config : Config)

include h

/-- What holds of the kind that a place is made with holds of the node in its slot. -/
theorem names {site : Site} (hsite : site ∈ root.layout) {P : NodeKind π κ → Prop}
    (hP : ∀ kind, site.plan.kindAt registry site.number = .ok kind → P kind) :
    (engineOf config wired).Names (slotAt site.number) P := by
  obtain ⟨kind, hkind, hget⟩ := h.get?_of_mem hsite
  exact ⟨_, hget, hP kind hkind⟩

/-- Every place has a node. -/
theorem live {site : Site} (hsite : site ∈ root.layout) :
    (engineOf config wired).Live (slotAt site.number) := h.names config hsite fun _ _ => trivial

/-- Whatever feeds on an output is there, and takes what it is sent. -/
theorem soundListener {site : Site} {listener : Listener} (hfeeds : Feeds root site listener) :
    (engineOf config wired).SoundListener listener := by
  cases hfeeds with
  | sink => trivial
  | @output parent hmem hinner hchild =>
    refine h.names config hmem fun kind hkind => ?_
    -- Only components and conditionals have places within them.
    cases hplan : parent.plan <;> rw [hplan] at hkind hinner
    case component => cases hkind; trivial
    case conditional => cases hkind; trivial
    all_goals exact hinner.elim
  | @state leaf spec hmem hplan hnumber =>
    refine h.names config hmem fun kind hkind => ?_
    rw [hplan] at hkind
    rcases makeLeaf_eq_ok hkind with ⟨-, _, rfl⟩ | ⟨-, _, rfl⟩ <;> trivial
  | input hmem hstop => exact h.live config hmem
  | broadcast hmem hb => exact Option.isSome_iff_exists.1 (h.hasChannel hmem hb)

/-- Whatever the kind of a place names is there, and conditions are such as answer. -/
theorem soundKind {site : Site} (hsite : site ∈ root.layout) {kind : NodeKind π κ}
    (hkind : site.plan.kindAt registry site.number = .ok kind) :
    (engineOf config wired).SoundKind kind := by
  obtain ⟨i, outputs, plan⟩ := site
  cases plan with
  | component consumers producers =>
    cases hkind
    intro producer hp
    rw [producerSlots_eq] at hp
    obtain ⟨part, hpart, rfl⟩ := List.mem_map.1 hp
    exact h.live config (child_mem hsite (Site.producer_mem hpart))
  | conditional conditions positive negative? =>
    cases hkind
    obtain ⟨s, -, ⟨-, -, -, hanswers⟩, -⟩ := h.reads_of_mem hsite
    refine ⟨fun condition hc => ?_, ?_, fun negative hn => ?_⟩
    · rw [slotsOf_eq] at hc
      obtain ⟨part, hpart, rfl⟩ := List.mem_map.1 hc
      refine h.names config (child_mem hsite (Site.condition_mem hpart)) fun kind hkind => ?_
      -- What reads as a condition is a boolean constant or a leaf that is one.
      rcases kind_of_answers (hanswers part.2 (of_mem_numbered hpart).1) hkind with
        ⟨_, -, rfl⟩ | ⟨_, _, _, -, rfl⟩ <;> trivial
    · exact h.live config (child_mem hsite Site.positive_mem)
    · obtain ⟨plan, rfl, rfl⟩ := Option.map_eq_some_iff.1 hn
      exact h.live config (child_mem hsite Site.negative_mem)
  | constant value =>
    cases hkind
    trivial
  | leaf spec state? =>
    rcases makeLeaf_eq_ok hkind with ⟨-, _, rfl⟩ | ⟨-, _, rfl⟩ <;> trivial

/-- All references of a wired graph are sound. -/
theorem wellReferenced : (engineOf config wired).WellReferenced where
  kinds hget := by
    obtain ⟨site, hsite, -, kind, hkind, rfl⟩ := h.exists_site hget
    exact h.soundKind config hsite hkind
  outputs hget listener hl := by
    obtain ⟨site, hsite, -, kind, hkind, rfl⟩ := h.exists_site hget
    exact h.soundListener config (feeds_of_mem hsite listener hl)
  heard hget listener hl := by
    rcases h.listener_cases hget hl with ⟨c, rfl, hc⟩ | ⟨consumer, hmem, rfl⟩
    · exact Option.isSome_iff_exists.1 hc
    · exact h.live config hmem
  queued task ht := by simp [engineOf, Engine.initial] at ht
  pending timer ht := by simp [engineOf, Engine.initial, Clock.initial] at ht

end Graph.Assembled

/-! ## Building -/

section

variable {π κ : Type} [Process π] [Condition κ] {r : Reach} {s : Engine π κ} {slot : SlotId}

/-- Sending out a constant is a hop and what follows from it. -/
theorem Graph.sendConstant_eq {node : Node π κ} {value : Value}
    (hget : s.arena.get? slot = some node) (hkind : node.kind = .constant value) :
    sendConstant slot s = node.outputs.forM
      (Engine.deliverBy Engine.setInput (Engine.relay Engine.setInput (s.arena.size + 999999)) value)
      (s.traced (.output slot node.kind.name value)) := by
  have hlimit : Engine.relayLimit s = (s.arena.size + 999999) + 1 := rfl
  unfold sendConstant
  rw [Engine.node?_bind, hget]
  obtain ⟨kind, input?, state?, outputs⟩ := node
  obtain rfl : kind = .constant value := hkind
  dsimp only
  rw [Engine.setOutput, Engine.emit, Engine.get_bind, hlimit, Engine.relay, Engine.node?_bind, hget]
  dsimp only
  rw [Engine.trace_bind]

/-- Sending out a constant takes steps within reach, if the output is. -/
theorem Engine.leads_constant (hs : r.Closed s) (hr : r.delivers (.output slot)) :
    Leads r s (Graph.sendConstant slot s) := by
  unfold Graph.sendConstant
  rw [node?_bind]
  cases s.arena.get? slot with
  | none => exact leads_pure _
  | some node =>
    obtain ⟨kind, input?, state?, outputs⟩ := node
    cases kind with
    | constant value => exact leads_setOutput value hs hr
    | _ => exact leads_pure _

end

/-- A build assembles its specification and sends out the constants. -/
theorem Graph.build_eq_ok_iff {π κ : Type} [Process π] [Condition κ] {registry : Registry π κ}
    {config : Config} {spec : SpecNode} {g : Graph π κ} :
    build registry config spec = .ok g ↔
      ∃ wired, assemble registry spec = .ok (g.root, g.scope, wired) ∧
        activate wired.constants (engineOf config wired) = .ok () g.engine := by
  unfold build
  obtain ⟨groot, gscope, gengine⟩ := g
  cases hassemble : assemble registry spec with
  | error e =>
    refine ⟨fun h => ?_, fun ⟨_, h, _⟩ => ?_⟩ <;> cases h
  | ok assembled =>
    obtain ⟨root, scope, wired⟩ := assembled
    dsimp only
    constructor
    · intro h
      refine ⟨wired, ?_⟩
      cases hactivate : activate wired.constants (engineOf config wired) with
      | ok a engine =>
        rw [hactivate] at h
        cases h
        exact ⟨rfl, rfl⟩
      | error stop engine =>
        rw [hactivate] at h
        cases stop <;> cases h
    · rintro ⟨_, hwired, hactivate⟩
      cases hwired
      rw [hactivate]

/-- The graph of a build that is known to succeed. -/
theorem Graph.exists_of_isOk {π κ : Type} [Process π] [Condition κ] {registry : Registry π κ}
    {config : Config} {spec : SpecNode} (h : (build registry config spec).isOk = true) :
    ∃ g, build registry config spec = .ok g := by
  cases hbuild : build registry config spec with
  | ok g => exact ⟨g, rfl⟩
  | error stop =>
    rw [hbuild] at h
    cases h

end Dataflow
