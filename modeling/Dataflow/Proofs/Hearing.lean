import Dataflow.Proofs.Broadcasts
import Dataflow.Proofs.Places

/-!
# Who hears a broadcast

Keys are declared in one walk through a specification, and listeners are wired in another one. Still
the channel of a key has as listeners exactly those who hear the key: for each listener of the key,
in the order of wiring, the consumers of its component as they were declared. This is a matter of the
plan alone, and does not depend on where the broadcast stands (`channel_of_key`).

A value is sent into the channel exactly when a producer of the one component that declares the key
emits it. Listeners of that component are such producers: they emit what they hear.
-/

namespace Dataflow

open Moment

namespace Plan

/-! ## Listeners of a plan -/

/-- Who hears a key: for each listener of the key, in the order of wiring, the consumers of its
component in declared order. -/
def hearers (plan : Plan) (key : String) : List Listener :=
  (heard 0 plan).flatMap fun entry => if entry.1 = key then entry.2 else []

/-- What the listeners among the producers of a place hear, and who hears it. -/
def Site.listenings (site : Site) : List (String × List Listener) :=
  match site.plan with
  | .component consumers producers => producers.filterMap fun
    | .listener key => some (key, targets (site.number + 1) consumers)
    | .node _ => none
  | _ => []

theorem consumersHeard_eq (i : Nat) (consumers : List Consumer) :
    consumersHeard i consumers =
      (numbered i (consumerPlans consumers)).flatMap fun part => heard part.1 part.2 := by
  induction consumers generalizing i with
  | nil => rfl
  | cons consumer rest ih => cases consumer <;> simp [consumersHeard, consumerPlans, numbered, ih]

theorem listHeard_eq (i : Nat) (plans : List Plan) :
    listHeard i plans = (numbered i plans).flatMap fun part => heard part.1 part.2 := by
  induction plans generalizing i with
  | nil => rfl
  | cons plan rest ih => simp [listHeard, numbered, ih]

/-- A component's own listeners stand between its other producers. -/
theorem producersHeard_perm (i : Nat) (outputs : List Listener) (producers : List Producer) :
    (producersHeard i outputs producers).Perm
      ((producers.filterMap fun
          | .listener key => some (key, outputs)
          | .node _ => none) ++
        (numbered i (producerPlans producers)).flatMap fun part => heard part.1 part.2) := by
  induction producers generalizing i with
  | nil => exact .refl _
  | cons producer rest ih =>
    cases producer with
    | listener key => exact (ih i).cons _
    | node plan =>
      rw [producersHeard, producerPlans, numbered, List.flatMap_cons]
      exact ((ih (i + plan.size)).append_left _).trans (List.perm_append_comm_assoc ..)

/-- What is heard at a place is heard by its own listeners or at its children. -/
theorem heard_perm_children (site : Site) :
    (heard site.number site.plan).Perm
      (site.listenings ++ site.children.flatMap fun child => heard child.number child.plan) := by
  obtain ⟨i, outputs, plan⟩ := site
  cases plan with
  | component consumers producers =>
    -- What is heard by the listeners among the producers is moved in front of what their neighbours hear.
    show (heard i _).Perm (_ ++ (Site.childrenOf i _).flatMap _)
    rw [heard, Site.childrenOf, List.flatMap_append, List.flatMap_map, List.flatMap_map,
      consumersHeard_eq]
    exact ((producersHeard_perm _ _ producers).append_left _).trans (List.perm_append_comm_assoc ..)
  | conditional conditions positive negative? =>
    show (heard i _).Perm ([] ++ (Site.childrenOf i _).flatMap _)
    rw [heard, Site.childrenOf, List.flatMap_cons, List.flatMap_append, List.flatMap_map,
      listHeard_eq, List.nil_append, List.append_assoc]
    cases negative? with
    | none =>
      rw [List.flatMap_map]
      exact .refl _
    | some negative =>
      rw [optionalHeard, Option.toList_some, List.flatMap_singleton, List.flatMap_map]
  | constant value => exact .refl _
  | leaf spec state? =>
    cases state? with
    | none => exact .refl _
    | some state =>
      show (heard (i + 1) state).Perm ([] ++ [_].flatMap _)
      rw [List.nil_append, List.flatMap_singleton]

/-- Every listener of every place is heard once, and nothing else is. -/
theorem heard_perm (i : Nat) (outputs : List Listener) (plan : Plan) :
    (heard i plan).Perm ((sites i outputs plan).flatMap Site.listenings) := by
  -- The parts of a plan are the plans of its children, not subterms, so this goes by size.
  induction hn : plan.size using Nat.strongRecOn generalizing i outputs plan with
  | ind n ih =>
    subst hn
    have hchildren := heard_perm_children ⟨i, outputs, plan⟩
    rw [sites_eq, List.flatMap_cons, List.flatMap_assoc]
    refine hchildren.trans (List.Perm.append_left _ (List.Perm.flatMap_left _ fun child hchild => ?_))
    have := @Site.child_bounds ⟨i, outputs, plan⟩ child hchild
    simp only [Site.stop] at this
    exact ih child.plan.size (by omega) child.number child.outputs child.plan rfl

/-! ## Broadcasts of a plan -/

/-- The channels that the broadcasts among the consumers of a component send into. -/
def ownChannels : Plan → List ChannelId
  | .component consumers _ => consumers.filterMap fun
    | .broadcast channel => some channel
    | .node _ => none
  | _ => []

/-- The channels of a component are those it broadcasts on. -/
theorem mem_ownChannels {plan : Plan} {channel : ChannelId} :
    channel ∈ plan.ownChannels ↔ plan.Broadcasts channel := by
  cases plan with
  | component consumers producers =>
    refine List.mem_filterMap.trans ⟨?_, ?_⟩
    · rintro ⟨consumer, hmem, hchannel⟩
      cases consumer <;> cases hchannel
      exact ⟨consumers, producers, rfl, hmem⟩
    · rintro ⟨_, _, ⟨⟩, hmem⟩
      exact ⟨.broadcast channel, hmem, rfl⟩
  | _ =>
    refine iff_of_false (List.not_mem_nil) ?_
    rintro ⟨_, _, ⟨⟩, _⟩

/-- A component has as many listeners for a channel as it has broadcasts into it. -/
theorem count_targets (i : Nat) (consumers : List Consumer) (producers : List Producer)
    (channel : ChannelId) :
    (targets i consumers).count (.broadcast channel) =
      (component consumers producers).ownChannels.count channel := by
  induction consumers generalizing i with
  | nil => rfl
  | cons consumer rest ih =>
    cases consumer with
    | broadcast other =>
      show (Listener.broadcast other :: targets i rest).count _ =
        (other :: (component rest producers).ownChannels).count channel
      simp only [List.count_cons, ih i, beq_iff_eq, Listener.broadcast.injEq]
    | node plan =>
      show (Listener.input (slotAt i) :: targets (i + plan.size) rest).count _ =
        (component rest producers).ownChannels.count channel
      rw [List.count_cons_of_ne (by simp), ih]

section

variable {shape? : String → Option LeafShape} {scope : Scope}

/-- Nothing but a component declares keys. -/
theorem Reads.broadcastKeys_eq_nil {plan : Plan} {s : SpecNode} (h : plan.Reads shape? scope s)
    (hplan : ∀ consumers producers, plan ≠ .component consumers producers) :
    s.broadcastKeys = [] := by
  apply SpecNode.broadcastKeys_of_not_component
  intro hcomponent
  cases plan with
  | component consumers producers => exact hplan consumers producers rfl
  | conditional conditions positive negative? =>
    obtain ⟨-, -, n?, -, ⟨hgate, -⟩ | ⟨hswitch, -⟩⟩ := h
    · cases hgate.unique hcomponent
    · cases hswitch.unique hcomponent
  | constant value => cases h.1.unique hcomponent
  | leaf spec state? => exact SpecNode.not_is_of_ofName?_eq_none h.2.1 .component hcomponent

/-- The broadcasts of a component send into the channels of their keys. -/
theorem Reads.ownChannels {plan : Plan} {s : SpecNode} (h : plan.Reads shape? scope s) :
    List.Forall₂ (fun channel key => scope.find? key = some channel) plan.ownChannels
      s.broadcastKeys := by
  cases plan with
  | component consumers producers =>
    obtain ⟨hcomponent, ⟨cs, hnodes, hcs⟩, -⟩ := h
    rw [SpecNode.broadcastKeys, if_pos hcomponent, SpecNode.nodesOf_of_nodes hnodes]
    have hread := readsConsumers_iff.1 hcs
    clear hcs hnodes
    induction hread with
    | nil => exact .nil
    | @cons c consumer cs consumers hc _ ih =>
      cases consumer with
      | broadcast channel =>
        obtain ⟨hbroadcast, key, hkey, hfind⟩ := hc
        rw [List.filter_cons_of_pos (by simpa using hbroadcast), List.flatMap_cons,
          SpecNode.keyOf_of_key hkey]
        exact .cons hfind ih
      | node plan =>
        rw [List.filter_cons_of_neg (by simpa using hc.1)]
        exact ih
  | _ =>
    rw [h.broadcastKeys_eq_nil fun _ _ hplan => by cases hplan]
    exact .nil

end

end Plan

/-! ## Channels of a wired graph -/

namespace Plan

variable {scope : Scope}

/-- What hearing adds to a channel: who hears its key, in order. -/
theorem get?_hear_eq (hears : List (String × List Listener)) (channels : Channels) (id : ChannelId) :
    (hear scope channels hears).get? id = (channels.get? id).map fun channel =>
      ⟨channel.key, channel.listeners ++
        hears.flatMap fun entry => if scope.find? entry.1 = some id then entry.2 else []⟩ := by
  induction hears generalizing channels with
  | nil =>
    rw [hear, List.foldl_nil]
    cases channels.get? id <;> simp
  | cons entry hears ih =>
    rw [hear_cons, ih, List.flatMap_cons]
    cases hfind : scope.find? entry.1 with
    | none => simp
    | some other =>
      by_cases hid : other = id
      · subst hid
        rw [Option.elim_some, Channels.get?_listen_self, if_pos rfl]
        cases channels.get? other <;> simp
      · rw [Option.elim_some, Channels.get?_listen_of_ne (Ne.symm hid)]
        simp [hid]

end Plan

namespace Graph.Assembled

open Plan

variable {π κ : Type} {registry : Registry π κ} {spec : SpecNode} {root : Plan}
  {declared : Declared} {wired : Wired π κ} (h : Assembled registry spec root declared wired)
  {key : String} {id : ChannelId}

include h

/-- Different keys have different channels. -/
theorem find?_eq_iff (hkey : declared.scope.find? key = some id) (other : String) :
    declared.scope.find? other = some id ↔ other = key := by
  refine ⟨fun hother => ?_, fun hother => hother ▸ hkey⟩
  have hget := h.consistent.channel_of_key hkey
  rw [h.consistent.channel_of_key hother] at hget
  exact congrArg Channel.key (Option.some.inj hget)

/-- **The channel of a key has exactly those as listeners who hear the key.** -/
theorem channel_of_key (hkey : declared.scope.find? key = some id) :
    wired.channels.get? id = some ⟨key, root.hearers key⟩ := by
  rw [h.laid.channels, get?_hear_eq, h.consistent.channel_of_key hkey]
  simp only [h.find?_eq_iff hkey, Option.map_some, List.nil_append]
  rfl

/-- Every channel is that of a key. -/
theorem exists_key {channel : Channel} (hget : wired.channels.get? id = some channel) :
    ∃ key, declared.scope.find? key = some id ∧ channel = ⟨key, root.hearers key⟩ := by
  have hheard := hget
  rw [h.laid.channels] at hheard
  obtain ⟨old, hold, -, -⟩ := get?_hear hheard
  have hkey := h.consistent.key_of_channel hold
  rw [h.channel_of_key hkey] at hget
  exact ⟨old.key, hkey, (Option.some.inj hget).symm⟩

/-- Keys and channels determine each other. -/
theorem biUnique_find? :
    Relator.BiUnique fun id key => declared.scope.find? key = some id where
  left _ _ _ hid hid' := Option.some.inj (hid.symm.trans hid')
  right _ _ key' hkey hkey' := ((h.find?_eq_iff hkey key').1 hkey').symm

/-- The channels of all broadcasts are those of all declared keys, in order. -/
theorem ownChannels_layout :
    List.Forall₂ (fun id key => declared.scope.find? key = some id)
      (root.layout.flatMap fun site => site.plan.ownChannels) spec.declaredKeys :=
  List.rel_flatMap (h.reads.sites 0 [.sink]) fun _ _ hreads => hreads.ownChannels

/-- A key is declared by one component, which has one broadcast of it. -/
theorem exists_declaring (hnodup : spec.declaredKeys.Nodup) (hkey : declared.scope.find? key = some id) :
    ∃ component ∈ root.layout, component.plan.ownChannels.count id = 1 ∧
      ∀ other ∈ root.layout, id ∈ other.plan.ownChannels → other = component := by
  have hmem := (List.rel_mem h.biUnique_find? hkey h.ownChannels_layout).2
    ((h.has_iff key).1 ⟨id, hkey⟩)
  have hchannels := (List.rel_nodup h.biUnique_find? h.ownChannels_layout).2 hnodup
  obtain ⟨hown, hdisjoint⟩ := List.nodup_flatMap.1 hchannels
  obtain ⟨component, hcomponent, hid⟩ := List.mem_flatMap.1 hmem
  refine ⟨component, hcomponent, List.count_eq_one_of_mem (hown component hcomponent) hid,
    fun other hother hid' => ?_⟩
  by_contra hne
  have hsymm : Std.Symm (Function.onFun List.Disjoint fun site : Site => site.plan.ownChannels) :=
    ⟨fun _ _ happart => happart.symm⟩
  exact hdisjoint.forall hother hcomponent hne hid' hid

end Graph.Assembled

/-! ## Who sends into a channel -/

namespace Plan

variable {root : Plan} {site component : Site} {channel : ChannelId}

/-- The place is that of a producer of the component. -/
def Site.Produces (site component : Site) : Prop :=
  ∃ consumers producers, component.plan = .component consumers producers ∧
    ∃ part ∈ numbered (component.number + 1 + consumersSize consumers) (producerPlans producers),
      site = ⟨part.1, targets (component.number + 1) consumers, part.2⟩

/-- The component has a listener of the key among its producers. -/
def Site.ListensTo (component : Site) (key : String) : Prop :=
  ∃ consumers producers, component.plan = .component consumers producers ∧
    .listener key ∈ producers

/-- The listeners of a component's consumers, in declared order. -/
def Site.targets (component : Site) : List Listener :=
  match component.plan with
  | .component consumers _ => Plan.targets (component.number + 1) consumers
  | _ => []

/-- The targets of a component are its consumers. -/
theorem Site.targets_eq {consumers : List Consumer} {producers : List Producer}
    (hplan : component.plan = .component consumers producers) :
    component.targets = Plan.targets (component.number + 1) consumers := by
  rw [Site.targets, hplan]

/-- The consumers of a component get values by their inputs, or have them sent into channels that the
component broadcasts into. -/
theorem Site.targets_cases {listener : Listener} (h : listener ∈ component.targets) :
    (∃ slot, listener = .input slot) ∨
      ∃ id, listener = .broadcast id ∧ component.plan.Broadcasts id := by
  cases hplan : component.plan with
  | component consumers producers =>
    rw [targets_eq hplan] at h
    rcases mem_targets.1 h with ⟨id, hid, rfl⟩ | ⟨part, -, rfl⟩
    · exact .inr ⟨id, rfl, consumers, producers, rfl, hid⟩
    · exact .inl ⟨_, rfl⟩
  | _ =>
    rw [Site.targets, hplan] at h
    cases h

theorem Site.broadcasts_of_mem_targets (h : .broadcast channel ∈ component.targets) :
    component.plan.Broadcasts channel := by
  rcases targets_cases h with ⟨_, ⟨⟩⟩ | ⟨_, ⟨⟩, hb⟩
  exact hb

theorem Site.Produces.outputs_eq (h : site.Produces component) : site.outputs = component.targets := by
  obtain ⟨consumers, producers, hplan, part, -, rfl⟩ := h
  exact (Site.targets_eq hplan).symm

theorem Site.Produces.mem (h : site.Produces component) (hcomponent : component ∈ root.layout) :
    site ∈ root.layout := by
  obtain ⟨consumers, producers, hplan, part, hpart, rfl⟩ := h
  apply child_mem hcomponent
  rw [Site.children, hplan]
  exact Site.producer_mem hpart

/-- Only the producers of a component with a broadcast have it among their listeners. -/
theorem produces_of_broadcast (h : site ∈ root.layout) (hout : .broadcast channel ∈ site.outputs) :
    ∃ component ∈ root.layout, site.Produces component ∧ component.plan.Broadcasts channel := by
  -- A place has its listeners from its parent, so the kind of the parent decides whether a broadcast is
  -- among them.
  refine (sites_induct (motive := fun site => site ∈ root.layout ∧
    (.broadcast channel ∈ site.outputs → ∃ component ∈ root.layout, site.Produces component ∧
      component.plan.Broadcasts channel)) (fun parent child hparent hchild => ?_)
    ⟨mem_sites_self .., fun h => by cases List.mem_singleton.1 h⟩ site h).2 hout
  refine ⟨child_mem hparent.1 hchild, fun hout => ?_⟩
  cases hplan : parent.plan with
  | component consumers producers =>
    rw [Site.children, hplan] at hchild
    rcases List.mem_append.1 hchild with hchild | hchild
    · obtain ⟨part, hpart, rfl⟩ := List.mem_map.1 hchild
      cases List.mem_singleton.1 hout
    · obtain ⟨part, hpart, rfl⟩ := List.mem_map.1 hchild
      exact ⟨parent, hparent.1, ⟨consumers, producers, hplan, part, hpart, rfl⟩,
        Site.broadcasts_of_mem_targets ((Site.targets_eq hplan).symm ▸ hout)⟩
  | conditional conditions positive negative? =>
    rw [Site.children, hplan] at hchild
    rcases List.mem_cons.1 hchild with rfl | hchild
    · cases List.mem_singleton.1 hout
    rcases List.mem_append.1 hchild with hchild | hchild
    · obtain ⟨part, -, rfl⟩ := List.mem_map.1 hchild
      cases List.mem_singleton.1 hout
    · obtain ⟨part, -, rfl⟩ := List.mem_map.1 hchild
      cases hout
  | constant value =>
    rw [Site.children, hplan] at hchild
    cases hchild
  | leaf spec state? =>
    rw [Site.children, hplan] at hchild
    obtain ⟨state, -, rfl⟩ := List.mem_map.1 hchild
    cases List.mem_singleton.1 hout

/-- Those who hear a key are the consumers of a component that listens to it. -/
theorem of_mem_hearers {key : String} {listener : Listener} (h : listener ∈ root.hearers key) :
    ∃ component ∈ root.layout, component.ListensTo key ∧ listener ∈ component.targets := by
  obtain ⟨entry, hentry, hl⟩ := List.mem_flatMap.1 h
  split at hl
  · rename_i hkey
    have hheard : ∃ component ∈ root.layout, component.Hears entry := mem_heard hentry
    obtain ⟨component, hmem, consumers, producers, hplan, hlistens, htargets⟩ := hheard
    refine ⟨component, hmem, ⟨consumers, producers, hplan, hkey ▸ hlistens⟩, ?_⟩
    rwa [Site.targets_eq hplan, ← htargets]
  · cases hl

theorem Site.ListensTo.mem_listenings {key : String} (h : component.ListensTo key) :
    (key, component.targets) ∈ component.listenings := by
  obtain ⟨consumers, producers, hplan, hlistens⟩ := h
  rw [Site.listenings, Site.targets_eq hplan, hplan]
  exact List.mem_filterMap.2 ⟨.listener key, hlistens, rfl⟩

/-- All consumers of a component that listens to a key hear it, one after the other. -/
theorem targets_infix_hearers {key : String} (hmem : component ∈ root.layout)
    (h : component.ListensTo key) : component.targets <:+: root.hearers key := by
  have hheard := (heard_perm 0 [.sink] root).mem_iff.2
    (List.mem_flatMap.2 ⟨component, hmem, h.mem_listenings⟩)
  obtain ⟨before, after, hsplit⟩ := List.append_of_mem hheard
  rw [hearers, hsplit, List.flatMap_append, List.flatMap_cons, if_pos rfl, ← List.append_assoc]
  exact List.infix_append ..

end Plan

/-! ## Where deliveries come from -/

section

variable {π κ ω : Type}

/-- The listener and the value of a delivery that is still to be made. -/
def Job.delivery? : Job → Option (Listener × Value)
  | .deliver _ listener value | .hand listener value => some (listener, value)
  | _ => none

/-- The next job leads to a delivery to the listener: a node that has it emits the value, or a task for
it is run. -/
inductive Moment.Causes (m : Moment π κ) (listener : Listener) (value : Value) : Prop
  | emission {hops : Nat} {slot : SlotId} {node : Node π κ} {rest : List Job}
    (htodo : m.todo = .relay (hops + 1) slot value :: rest)
    (hget : m.engine.arena.get? slot = some node) (hl : listener ∈ node.outputs)
  | task {id : ChannelId} {listeners : List Listener} {tasks : List Task} {rest : List Job}
    (htodo : m.todo = .batch (.deliver id listeners value :: tasks) :: rest)
    (hl : listener ∈ listeners)

/-- A job that leads to a delivery is a cause of it, or was to make the same delivery. -/
theorem Moment.causes_of_begins {m : Moment π κ} {s' : Engine π κ} {job j : Job}
    {jobs rest : List Job} (htodo : m.todo = job :: rest) (h : job.Begins m.engine jobs s')
    (hj : j ∈ jobs) {listener : Listener} {value : Value}
    (hdelivery : j.delivery? = some (listener, value)) :
    job.delivery? = some (listener, value) ∨ m.Causes listener value := by
  cases h with
  | propagated _ _ _ hspawns =>
    cases hspawns j hj with
    | listener hget hl =>
      cases hdelivery
      exact .inr (.emission htodo hget hl)
    -- A job that hands on a value was to make that delivery already.
    | hand value h => exact .inl hdelivery
    | _ => cases hdelivery
  | batched task tasks =>
    rcases List.mem_append.1 hj with hj | hj
    · cases task with
      | deliver id listeners value =>
        obtain ⟨listener, hl, rfl⟩ := List.mem_map.1 hj
        cases hdelivery
        exact .inr (.task htodo hl)
      | emit slot value =>
        cases List.mem_singleton.1 hj
        cases hdelivery
    · cases List.mem_singleton.1 hj
      cases hdelivery
  | entered | driven =>
    rcases List.mem_cons.1 hj with rfl | hj
    · cases hdelivery
    · cases List.mem_singleton.1 hj
      cases hdelivery
  | ticked =>
    cases List.mem_singleton.1 hj
    cases hdelivery
  | _ => cases hj

variable [Process π] [Condition κ] {begin : ω → Engine π κ → Moment π κ} {start m : Moment π κ}
  {ops : List ω} {ds : List Deed}

/-- Every delivery in a story has a cause in its past, if operations do not begin with deliveries. -/
theorem Story.exists_cause (hstart : ∀ job ∈ start.todo, job.delivery? = none)
    (hbegin : ∀ op s, ∀ job ∈ (begin op s).todo, job.delivery? = none)
    (h : Story begin start ops ds m) {job : Job} (hjob : job ∈ m.todo) {listener : Listener}
    {value : Value} (hdelivery : job.delivery? = some (listener, value)) :
    ∃ ops' ds' before, Story begin start ops' ds' before ∧ Comes before m ∧
      before.Causes listener value := by
  induction h generalizing job with
  | start =>
    rw [hstart job hjob] at hdelivery
    cases hdelivery
  | begin op _ _ =>
    rw [hbegin op _ job hjob] at hdelivery
    cases hdelivery
  | @next ops ds m m' h hnext ih =>
    -- What was to be delivered one step earlier has its cause before that step.
    have hpast : ∀ {job'}, job' ∈ m.todo → job'.delivery? = some (listener, value) →
        ∃ ops' ds' before, Story begin start ops' ds' before ∧ Comes before m' ∧
          before.Causes listener value := fun hjob' hdelivery' => by
      obtain ⟨ops', ds', before, hstory, hcomes, hcauses⟩ := ih hjob' hdelivery'
      exact ⟨ops', ds', before, hstory, hcomes.tail hnext, hcauses⟩
    obtain ⟨first, rest, htodo, ⟨jobs, s', hbegins, rfl⟩ | ⟨stop, s', hfails, rfl⟩⟩ :=
      next?_cases hnext
    · rcases List.mem_append.1 hjob with hjob | hjob
      · rcases causes_of_begins htodo hbegins hjob hdelivery with hsame | hcauses
        · exact hpast (htodo ▸ List.mem_cons_self ..) hsame
        · exact ⟨ops, ds, m, h, .single hnext, hcauses⟩
      · exact hpast (htodo ▸ List.mem_cons_of_mem _ hjob) hdelivery
    · cases hjob

omit [Process π] [Condition κ] in
/-- An operation begins with an input, a tick or a drive, never with a delivery. -/
theorem Graph.delivery?_begin (root : SlotId) (op : Operation) (s : Engine π κ) :
    ∀ job ∈ (Graph.begin root op s).todo, job.delivery? = none := by
  cases op with
  | advanceBy span =>
    rw [Graph.begin, advancing]
    cases Duration.add? s.clock.now span with
    | none => exact List.forall_mem_nil _
    | some target => exact List.forall_mem_singleton.2 rfl
  | tap slot =>
    rw [Graph.begin, ended_todo]
    exact List.forall_mem_nil _
  | takeOutputs | takeRendered => exact List.forall_mem_nil _
  | _ => exact List.forall_mem_singleton.2 rfl

/-- An emission delivers the value to the listeners of the node, before all other jobs. -/
theorem Moment.next?_emission {hops : Nat} {slot : SlotId} {value : Value} {rest : List Job}
    {node : Node π κ} (htodo : m.todo = .relay (hops + 1) slot value :: rest)
    (hget : m.engine.arena.get? slot = some node) :
    ∃ s', m.next? = some ⟨s', node.outputs.map (.deliver hops · value) ++ rest, none⟩ := by
  obtain ⟨s, todo, stop?⟩ := m
  obtain rfl : todo = _ := htodo
  have hstart : (Job.relay (hops + 1) slot value).start s = Job.startRelay (hops + 1) slot value s := rfl
  rw [Job.startRelay, Engine.node?_bind, hget] at hstart
  dsimp only at hstart
  rw [Engine.trace_bind] at hstart
  exact ⟨_, next?_of_ok hstart⟩

end

/-! ## Broadcasts of a built graph -/

/-- Whatever may be delivered, the tasks that are put off are for the listeners of their channels. -/
def Channels.posting (channels : Channels) : Reach where
  delivers _ := True
  asks _ := True
  defers
    | .deliver id listeners _ => ∃ channel, channels.get? id = some channel ∧
      listeners = channel.listeners
    | .emit .. => True

theorem Channels.drives_posting (channels : Channels) : channels.posting.Drives := by
  intro task _
  cases task with
  | deliver id listeners value => exact fun _ _ => trivial
  | emit slot value => trivial

theorem Channels.closed_posting {π κ : Type} (config : Config) (wired : Plan.Wired π κ) :
    wired.channels.posting.Closed (Graph.engineOf config wired) where
  entered {slot node} _ _ := by
    cases node.kind with
    | composite => exact fun _ _ => trivial
    | conditional => exact ⟨fun _ _ => trivial, trivial, fun _ _ => trivial⟩
    | process => exact ⟨trivial, fun _ => trivial⟩
    | _ => trivial
  relayed _ _ _ _ := trivial
  heard _ hget _ := ⟨_, hget, rfl⟩
  queued task htask := by cases Array.not_mem_empty task htask
  pending timer htimer := by cases htimer

section

variable {π κ : Type} [Process π] [Condition κ]

/-- Lets a consumer of a component have a value: by its input, or by sending it into a channel. -/
def Engine.receive (value : Value) : Listener → Act π κ Unit
  | .input slot => setInput slot value
  | .broadcast id => send id value
  | _ => return ()

theorem Engine.forM_receive {listeners : List Listener}
    (h : ∀ listener ∈ listeners, (∃ slot, listener = .input slot) ∨ ∃ id, listener = .broadcast id)
    (value : Value) :
    listeners.forM (fun listener => deliver listener value : Listener → Act π κ Unit) =
      listeners.forM (receive value) := by
  induction listeners with
  | nil => rfl
  | cons listener rest ih =>
    obtain ⟨hlistener, hrest⟩ := List.forall_mem_cons.1 h
    have hreceive : (deliver listener value : Act π κ Unit) = receive value listener := by
      rcases hlistener with ⟨slot, rfl⟩ | ⟨id, rfl⟩ <;> rfl
    show (deliver listener value >>= fun _ => rest.forM fun listener => deliver listener value) = _
    rw [hreceive, ih hrest]
    rfl

/-- What is known of a key at a moment of a graph: who gets what is sent into its channel, and who
sends. The key's channel and the component that declares it are given, and what holds of the
moments of the past. -/
structure Moment.Hearing (plan : Plan) (scope : Scope) (key : String) (id : ChannelId)
    (component : Plan.Site) (Past : Moment π κ → Prop) (m : Moment π κ) : Prop where
  /-- A value that is sent into the channel is queued for those who hear the key. -/
  sends : ∀ hops value rest, m.todo = .deliver hops (.broadcast id) value :: rest →
    ∃ s', m.next? = some ⟨s', rest, none⟩ ∧
      s'.queue = m.engine.queue.push (.deliver id (plan.hearers key) value)
  /-- Every task of the channel that waits is for those who hear the key. -/
  waits : ∀ listeners value, .deliver id listeners value ∈ m.waiting → listeners = plan.hearers key
  /-- When the task is run, those who hear the key receive the value in order, each one once, up to
  the first delivery that fails. -/
  serves : ∀ listeners value tasks rest,
    m.todo = .batch (.deliver id listeners value :: tasks) :: rest →
    ∃ done left s', plan.hearers key = done ++ left ∧
      done.forM (Engine.receive value) m.engine = .ok () s' ∧
      match left with
      | [] => Comes m ⟨s', .batch tasks :: rest, none⟩
      | listener :: _ => ∃ stop s'', Engine.receive value listener s' = .error stop s'' ∧
        Comes m ⟨unwind (.batch tasks :: rest) s'', [], some stop⟩
  /-- What a producer of the component emits is delivered to all consumers, of which the broadcast is
  one, and to sinks that were added. -/
  emits : ∀ (site : Plan.Site) hops value rest, site.Produces component →
    m.todo = .relay (hops + 1) (slotAt site.number) value :: rest →
    ∃ s' taps, m.next? = some ⟨s', (component.targets ++ List.replicate taps Listener.sink).map
      (.deliver hops · value) ++ rest, none⟩
  /-- Nothing is sent but what a producer of the component has emitted, or a listener of the component
  has heard. -/
  caused : ∀ hops value, .deliver hops (.broadcast id) value ∈ m.todo →
    ∃ before, Past before ∧
      ((∃ (site : Plan.Site) (hops : Nat) (rest : List Job), site.Produces component ∧
          before.todo = .relay (hops + 1) (slotAt site.number) value :: rest) ∨
        ∃ heard other listeners tasks rest, component.ListensTo heard ∧
          scope.find? heard = some other ∧
          before.todo = .batch (.deliver other listeners value :: tasks) :: rest)

end

/-- A component that hears its own broadcast, which a component above the broadcast hears as well. -/
def SpecNode.heardBefore : SpecNode :=
  let listener : SpecNode := ⟨"listener", [("key", .literal (.text "news"))]⟩
  ⟨"component",
    [("consumers", .nodes
      [⟨"component", [("consumers", .nodes [⟨"get", []⟩]), ("producers", .nodes [listener])]⟩,
       ⟨"broadcast", [("key", .literal (.text "news"))]⟩]),
     ("producers", .nodes [listener, ⟨"get", []⟩])]⟩

namespace Graph

open Plan

variable {π κ : Type} [Process π] [Condition κ] {registry : Registry π κ} {spec : SpecNode}

namespace Assembled

variable {root : Plan} {declared : Declared} {wired : Wired π κ} {config : Config}

/-- Those who hear a key receive values by their inputs, or have them sent into channels. -/
theorem hearers_cases {key : String} {listener : Listener} (hl : listener ∈ root.hearers key) :
    (∃ slot, listener = .input slot) ∨ ∃ id, listener = .broadcast id := by
  obtain ⟨component, -, -, htargets⟩ := of_mem_hearers hl
  exact (Site.targets_cases htargets).imp_right fun ⟨id, hid, _⟩ => ⟨id, hid⟩

variable (h : Assembled registry spec root declared wired) {ops : List Operation} {ds : List Deed}
  {m : Moment π κ} (hstory : Story (begin (slotAt 0)) (activation config wired) ops ds m)

include h hstory

/-- Every task of a channel that waits is for those who hear the channel's key. -/
theorem exists_key_of_waiting {id : ChannelId} {listeners : List Listener} {value : Value}
    (hwaits : .deliver id listeners value ∈ m.waiting) :
    ∃ key, declared.scope.find? key = some id ∧ listeners = root.hearers key := by
  have hstart : Within wired.channels.posting (activation config wired) := by
    refine ⟨Channels.closed_posting config wired, fun job hjob => ?_⟩
    obtain ⟨slot, -, rfl⟩ := List.mem_map.1 hjob
    trivial
  have hwithin := hstart.of_story wired.channels.drives_posting trivial trivial hstory
  obtain ⟨channel, hget, rfl⟩ := hwithin.defers_of_waiting hwaits
  obtain ⟨key, hkey, rfl⟩ := h.exists_key hget
  exact ⟨key, hkey, rfl⟩

/-- What has caused a send was emitted by a producer of a component that broadcasts, or heard by a
listener of it. -/
theorem exists_component_of_causes {id : ChannelId} {value : Value}
    (hcauses : m.Causes (.broadcast id) value) :
    ∃ component ∈ root.layout, component.plan.Broadcasts id ∧
      ((∃ (site : Site) (hops : Nat) (rest : List Job), site.Produces component ∧
          m.todo = .relay (hops + 1) (slotAt site.number) value :: rest) ∨
        ∃ heard other listeners tasks rest, component.ListensTo heard ∧
          declared.scope.find? heard = some other ∧
          m.todo = .batch (.deliver other listeners value :: tasks) :: rest) := by
  cases hcauses with
  | @emission hops slot node rest htodo hget hl =>
    obtain ⟨site, hsite, rfl, -, taps, houtputs⟩ :=
      ((h.placed config).of_story hstory).exists_site hget
    rw [houtputs] at hl
    rcases List.mem_append.1 hl with hl | hl
    · obtain ⟨component, hmem, hproduces, hb⟩ := produces_of_broadcast hsite hl
      exact ⟨component, hmem, hb, .inl ⟨site, hops, rest, hproduces, htodo⟩⟩
    · cases List.eq_of_mem_replicate hl
  -- Otherwise the value was sent under another key, to the hearers of that key.
  | @task other listeners tasks rest htodo hl =>
    have hwaits : .deliver other listeners value ∈ m.waiting := by
      rw [waiting, htodo]
      exact List.mem_append_left _ (List.mem_append_left _ (List.mem_cons_self ..))
    obtain ⟨heard, hheard, rfl⟩ := h.exists_key_of_waiting hstory hwaits
    obtain ⟨component, hmem, hlistens, htargets⟩ := of_mem_hearers hl
    exact ⟨component, hmem, Site.broadcasts_of_mem_targets htargets,
      .inr ⟨heard, other, _, tasks, rest, hlistens, hheard, htodo⟩⟩

/-- A broadcast is heard as declared at every moment. -/
theorem hearing {key : String} {id : ChannelId} (hkey : declared.scope.find? key = some id)
    {component : Site} (hmem : component ∈ root.layout)
    (hunique : ∀ other ∈ root.layout, other.plan.Broadcasts id → other = component) :
    m.Hearing root declared.scope key id component fun before =>
      (∃ ops ds, Story (begin (slotAt 0)) (activation config wired) ops ds before) ∧
        Comes before m := by
  have hplaced := (h.placed config).of_story hstory
  have hwaits : ∀ listeners value, .deliver id listeners value ∈ m.waiting →
      listeners = root.hearers key := by
    intro listeners value hwaits
    obtain ⟨other, hother, rfl⟩ := h.exists_key_of_waiting hstory hwaits
    rw [(h.find?_eq_iff hkey other).1 hother]
  refine ⟨fun hops value rest htodo => ?_, hwaits, fun listeners value tasks rest htodo => ?_,
    fun site hops value rest hproduces htodo => ?_, fun hops value hjob => ?_⟩
  · exact (next?_send htodo (hplaced.channels ▸ h.channel_of_key hkey)).2
  · have hlisteners := hwaits listeners value (by
      rw [waiting, htodo]
      exact List.mem_append_left _ (List.mem_append_left _ (List.mem_cons_self ..)))
    -- Every hearer is an input or a broadcast, so to deliver to it is to set the input or to send.
    obtain ⟨done, left, s', hsplit, hdone, hleft⟩ := comes_broadcast htodo
    have hcases : ∀ listener ∈ done ++ left, (∃ slot, listener = .input slot) ∨
        ∃ id, listener = .broadcast id := fun listener hl =>
      hearers_cases (hlisteners ▸ hsplit ▸ hl)
    rw [Engine.forM_receive fun l hl => hcases l (List.mem_append_left _ hl)] at hdone
    refine ⟨done, left, s', hlisteners ▸ hsplit, hdone, ?_⟩
    cases left with
    | nil => exact hleft
    | cons listener left =>
      obtain ⟨stop, s'', hfails, hcomes⟩ := hleft
      refine ⟨stop, s'', ?_, hcomes⟩
      rcases hcases listener (List.mem_append_right _ (List.mem_cons_self ..)) with
        ⟨slot, rfl⟩ | ⟨id, rfl⟩ <;> exact hfails
  · obtain ⟨node, hget, -, taps, houtputs⟩ := hplaced.made site (hproduces.mem hmem)
    obtain ⟨s', hnext⟩ := next?_emission htodo hget
    rw [houtputs, hproduces.outputs_eq] at hnext
    exact ⟨s', taps, hnext⟩
  -- No story begins with a delivery, so the broadcast that is due now was caused by an earlier moment.
  · have hstart : ∀ job ∈ (activation config wired).todo, job.delivery? = none := by
      intro job hjob
      obtain ⟨slot, -, rfl⟩ := List.mem_map.1 hjob
      rfl
    obtain ⟨ops', ds', before, hbefore, hcomes, hcauses⟩ :=
      hstory.exists_cause hstart (delivery?_begin _) hjob rfl
    obtain ⟨other, hother, hb, hcause⟩ := h.exists_component_of_causes hbefore hcauses
    obtain rfl := hunique other hother hb
    exact ⟨before, ⟨⟨ops', ds', hbefore⟩, hcomes⟩, hcause⟩

end Assembled

/-- **Broadcasts are heard as declared.** Each key is declared by one component, by one broadcast,
wherever it stands. Whatever is sent into the key's channel is received by the consumers of every
component that listens to the key, listener by listener in the order of wiring and in declared
order, up to the first delivery that fails; and it is sent exactly when a producer of the declaring
component emits it, or a listener of that component hears it. The moments are those of the graph:
each history is told by a story. -/
theorem broadcasts_heard_as_declared {config : Config} {root : SlotId} {scope : Scope}
    {wired : Wired π κ} (hassemble : assemble registry spec = .ok (root, scope, wired)) :
    (∃ plan declared,
      (Plan.declare registry.shape? spec).run ⟨.empty, .empty⟩ = .ok (plan, declared) ∧
        scope = declared.scope ∧ plan.Reads registry.shape? scope spec ∧
        (plan.heard 0).Perm (plan.layout.flatMap Site.listenings) ∧
        ∀ key, (key ∈ spec.declaredKeys ↔ ∃ id, scope.find? key = some id) ∧
          ∀ id, scope.find? key = some id → ∃ component ∈ plan.layout,
            component.targets.count (.broadcast id) = 1 ∧
            (∀ other ∈ plan.layout, other.plan.Broadcasts id → other = component) ∧
            (∀ heard, component.ListensTo heard → component.targets <:+: plan.hearers heard) ∧
            ∀ ops ds m, Story (begin root) (activation config wired) ops ds m →
              m.engine.channels.get? id = some ⟨key, plan.hearers key⟩ ∧
              m.Hearing plan scope key id component fun before =>
                (∃ ops ds, Story (begin root) (activation config wired) ops ds before) ∧
                  Comes before m) ∧
      ∀ g, build registry config spec = .ok g → ∀ ops, ∃ ds m,
        Story (begin root) (activation config wired) ops ds m ∧ m.todo = [] ∧
          m.engine = (g.operateAll ops).2.engine := by
  refine ⟨?_, fun g hbuild ops => (story_of_build hassemble hbuild ops).1⟩
  have hnodup := ((assemble_succeeds_iff registry spec).1 ⟨_, hassemble⟩).keys_nodup
  obtain ⟨plan, declared, hdeclare, rfl, hwire⟩ := assemble_eq_ok_iff.1 hassemble
  obtain ⟨h, rfl⟩ := assembled_of_declare hdeclare hwire
  refine ⟨plan, declared, hdeclare, rfl, h.reads, heard_perm 0 [.sink] plan, fun key =>
    ⟨(h.has_iff key).symm, fun id hkey => ?_⟩⟩
  obtain ⟨component, hmem, hcount, hunique⟩ := h.exists_declaring hnodup hkey
  have hunique' : ∀ other ∈ plan.layout, other.plan.Broadcasts id → other = component :=
    fun other hother hb => hunique other hother (mem_ownChannels.2 hb)
  refine ⟨component, hmem, ?_, hunique', fun heard => targets_infix_hearers hmem,
    fun ops ds m hstory => ⟨?_, h.hearing hstory hkey hmem hunique'⟩⟩
  · obtain ⟨consumers, producers, hplan, -⟩ :=
      mem_ownChannels.1 (List.count_pos_iff.1 (hcount ▸ Nat.one_pos))
    rw [Site.targets_eq hplan, count_targets _ consumers producers, ← hplan, hcount]
  · rw [((h.placed config).of_story hstory).channels]
    exact h.channel_of_key hkey

/-- A key is heard in a component that comes before its broadcast, and next to it: first by the inner
component's leaf, then by the inner component, and then it is sent again. -/
theorem broadcasts_heard_as_declared_in_turn :
    ∃ (root : SlotId) (scope : Scope) (wired : Wired CatalogueProcess CatalogueCondition),
      assemble Registry.catalogue SpecNode.heardBefore = .ok (root, scope, wired) ∧
        scope.find? "news" = some ⟨0⟩ ∧
        ∀ ops ds m, Story (begin root) (activation {} wired) ops ds m →
          ∀ listeners value, .deliver ⟨0⟩ listeners value ∈ m.waiting →
            listeners = [.input (slotAt 2), .input (slotAt 1), .broadcast ⟨0⟩] := by
  have hrun : (assemble Registry.catalogue SpecNode.heardBefore).toOption.map (fun r =>
      (r.2.1.find? "news", (r.2.2.channels.get? ⟨0⟩).map Channel.listeners)) =
        some (some ⟨0⟩, some [.input (slotAt 2), .input (slotAt 1), .broadcast ⟨0⟩]) := by
    decide +kernel
  cases hassemble : assemble (π := CatalogueProcess) (κ := CatalogueCondition) Registry.catalogue
      SpecNode.heardBefore with
  | error e =>
    rw [hassemble] at hrun
    cases hrun
  | ok r =>
    obtain ⟨root, scope, wired⟩ := r
    rw [hassemble] at hrun
    obtain ⟨hfind, hlisteners⟩ := Prod.mk.inj (Option.some.inj hrun)
    obtain ⟨⟨plan, declared, -, -, -, -, hkeys⟩, -⟩ :=
      @broadcasts_heard_as_declared _ _ _ _ _ _ {} _ _ _ hassemble
    obtain ⟨component, -, -, -, -, hmoments⟩ := (hkeys "news").2 ⟨0⟩ hfind
    have hhearers : plan.hearers "news" = [.input (slotAt 2), .input (slotAt 1), .broadcast ⟨0⟩] := by
      have hchannel : wired.channels.get? ⟨0⟩ = _ := (hmoments [] [] _ .start).1
      rw [hchannel] at hlisteners
      exact Option.some.inj hlisteners
    exact ⟨root, scope, wired, rfl, hfind, fun ops ds m hstory listeners value hwaits =>
      ((hmoments ops ds m hstory).2.waits listeners value hwaits).trans hhearers⟩

end Graph

end Dataflow
