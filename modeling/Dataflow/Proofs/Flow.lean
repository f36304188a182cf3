import Dataflow.Proofs.Endings
import Dataflow.Proofs.Hearing

/-!
# How values flow

The flow of a plan tells which nodes a node can make run and which keys it can make heard, and which
nodes and keys a key that is heard leads to in turn (`Flows`). It is a matter of the plan alone. Between
keys values ascend, so whatever circle there is leads through a key (`exists_key_of_circle`). If there
is none, nodes and keys have ranks that descend along the flow, and so have the tasks of an engine.

While a task is run, all that is delivered to and put off is of a lower rank than the task: this is
the reach `beneath`, which is closed under what deliveries lead to at once
(`Graph.Assembled.carries_beneath`) and which whatever a task delivers to lies within
(`Graph.Assembled.closed_descending`).
-/

namespace Dataflow

namespace Plan

/-- What values flow through: the nodes, by the numbers of their places, and the keys. -/
inductive Vertex where
  | node (number : Nat)
  | key (key : String)
  deriving DecidableEq

/-- Whether what a place puts out gets to the listener, passed on by outputs. -/
inductive Site.Reaches (root : Plan) : Site → Listener → Prop
  | listener {site : Site} {listener : Listener} (h : listener ∈ site.outputs) :
    Reaches root site listener
  | passedOn {site other : Site} {listener : Listener} (hother : other ∈ root.layout)
    (h : .output (slotAt other.number) ∈ site.outputs) (hreaches : Reaches root other listener) :
    Reaches root site listener

/-- The flow of a plan. Running the first node can run the second one, or can let a value be heard
under the key; and what is heard under the key can run the node, or be heard under another key. -/
inductive Flows (root : Plan) (scope : Scope) : Vertex → Vertex → Prop
  /-- A component runs its producers. -/
  | producer {component part : Site} (hmem : component ∈ root.layout) (h : part.Produces component) :
    Flows root scope (.node component.number) (.node part.number)
  /-- A conditional runs one branch or the other. -/
  | positive {site : Site} {conditions : List Plan} {positive : Plan} {negative? : Option Plan}
    (hmem : site ∈ root.layout) (hplan : site.plan = .conditional conditions positive negative?) :
    Flows root scope (.node site.number) (.node (site.number + 1))
  | negative {site : Site} {conditions : List Plan} {positive negative : Plan}
    (hmem : site ∈ root.layout)
    (hplan : site.plan = .conditional conditions positive (some negative)) :
    Flows root scope (.node site.number) (.node (site.number + 1 + positive.size))
  /-- What a leaf emits, at once or later, runs the nodes that it reaches. -/
  | emission {site : Site} {spec : SpecNode} {state? : Option Plan} {slot : SlotId}
    (hmem : site ∈ root.layout) (hplan : site.plan = .leaf spec state?)
    (h : site.Reaches root (.input slot)) : Flows root scope (.node site.number) (.node slot.index)
  /-- What a leaf emits, at once or later, is sent under the keys that it reaches. -/
  | send {site : Site} {spec : SpecNode} {state? : Option Plan} {id : ChannelId} {key : String}
    (hmem : site ∈ root.layout) (hplan : site.plan = .leaf spec state?)
    (h : site.Reaches root (.broadcast id)) (hkey : scope.find? key = some id) :
    Flows root scope (.node site.number) (.key key)
  /-- What a component hears runs its consumers. -/
  | heard {component : Site} {key : String} {slot : SlotId} (hmem : component ∈ root.layout)
    (hlistens : component.ListensTo key) (h : .input slot ∈ component.targets) :
    Flows root scope (.key key) (.node slot.index)
  /-- What a component hears is sent on under the keys of its own broadcasts. -/
  | sentOn {component : Site} {key other : String} {id : ChannelId} (hmem : component ∈ root.layout)
    (hlistens : component.ListensTo key) (h : .broadcast id ∈ component.targets)
    (hkey : scope.find? other = some id) : Flows root scope (.key key) (.key other)

/-- The nodes of a plan and the keys that are heard. -/
def vertices (root : Plan) : List Vertex :=
  root.layout.map (.node ·.number) ++ (root.layout.flatMap Site.listenings).map (.key ·.1)

variable {root : Plan} {scope : Scope} {v w : Vertex}

theorem Flows.mem_vertices (h : Flows root scope v w) : v ∈ root.vertices := by
  have hnode : ∀ {site : Site}, site ∈ root.layout → .node site.number ∈ root.vertices := fun hmem =>
    List.mem_append_left _ (List.mem_map.2 ⟨_, hmem, rfl⟩)
  have hkey : ∀ {component : Site} {key : String}, component ∈ root.layout →
      component.ListensTo key → .key key ∈ root.vertices := fun hmem hlistens =>
    List.mem_append_right _
      (List.mem_map.2 ⟨_, List.mem_flatMap.2 ⟨_, hmem, hlistens.mem_listenings⟩, rfl⟩)
  cases h with
  | producer hmem | positive hmem | negative hmem | emission hmem | send hmem => exact hnode hmem
  | heard hmem hlistens | sentOn hmem hlistens => exact hkey hmem hlistens

/-- Between keys values ascend, whether they are passed on at once or later. -/
theorem Site.Reaches.precedes {site : Site} {listener : Listener} (h : site.Reaches root listener)
    (hsite : site ∈ root.layout) :
    root.ranking.Precedes (root.ranking.output (slotAt site.number)) listener := by
  induction h with
  | listener h => exact precedes_of_feeds hsite (feeds_of_mem hsite _ h)
  | passedOn hother h _ ih =>
    exact (ih hother).of_lt (precedes_of_feeds hsite (feeds_of_mem hsite _ h))

theorem Flows.input_lt {n k : Nat} (h : root.Flows scope (.node n) (.node k)) :
    root.ranking.input (slotAt n) < root.ranking.input (slotAt k) := by
  cases h with
  | producer hmem h =>
    obtain ⟨consumers, producers, hplan, part, hpart, rfl⟩ := h
    have hchild := Site.producer_mem hpart
    rw [← hplan] at hchild
    exact input_lt_child hmem hchild
  | @positive site conditions positive negative? hmem hplan =>
    have hchild : _ ∈ Site.childrenOf site.number (.conditional conditions positive negative?) :=
      Site.positive_mem
    rw [← hplan] at hchild
    exact input_lt_child hmem hchild
  | @negative site conditions positive negative hmem hplan =>
    have hchild : _ ∈ Site.childrenOf site.number (.conditional conditions positive (some negative)) :=
      Site.negative_mem
    rw [← hplan] at hchild
    exact input_lt_child hmem hchild
  | emission hmem _ h => exact (input_lt_output hmem).trans (h.precedes hmem)

/-- What can be run from a node is run by way of a key, or has a later input. -/
theorem cases_of_transGen {n : Nat} (h : Relation.TransGen (root.Flows scope) (.node n) w) :
    (∃ key, Relation.TransGen (root.Flows scope) (.node n) (.key key) ∧
        Relation.ReflTransGen (root.Flows scope) (.key key) w) ∨
      ∃ k, w = .node k ∧ root.ranking.input (slotAt n) < root.ranking.input (slotAt k) := by
  induction h with
  | @single w hflows =>
    cases w with
    | key key => exact .inl ⟨key, .single hflows, .refl⟩
    | node k => exact .inr ⟨k, rfl, hflows.input_lt⟩
  | @tail u w hpath hflows ih =>
    rcases ih with ⟨key, hkey, hrest⟩ | ⟨k, rfl, hlt⟩
    · exact .inl ⟨key, hkey, hrest.tail hflows⟩
    · cases w with
      | key key => exact .inl ⟨key, hpath.tail hflows, .refl⟩
      | node l => exact .inr ⟨l, rfl, hlt.trans hflows.input_lt⟩

/-- **Whatever circle there is leads through a key.** -/
theorem exists_key_of_circle (h : Relation.TransGen (root.Flows scope) v v) :
    ∃ key, Relation.TransGen (root.Flows scope) (.key key) (.key key) := by
  cases v with
  | key key => exact ⟨key, h⟩
  | node n =>
    -- Off the keys every step goes to a later input, so a circle of nodes alone would come back to an
    -- input later than itself.
    rcases cases_of_transGen h with ⟨key, hkey, hback⟩ | ⟨k, hk, hlt⟩
    · exact ⟨key, .trans_right hback hkey⟩
    · cases hk
      exact absurd hlt (lt_irrefl _)

/-- The flow goes in no circle if ranks descend along it. -/
theorem acyclic_of_rank {rank : Vertex → ℕ} (h : ∀ v w, root.Flows scope v w → rank w < rank v)
    (v : Vertex) : ¬Relation.TransGen (root.Flows scope) v v :=
  not_transGen_self (S := (· > ·)) h v

/-- Ranks descend along the flow if no key leads back to itself. -/
theorem exists_rank_of_keys (h : ∀ key, ¬Relation.TransGen (root.Flows scope) (.key key) (.key key)) :
    ∃ rank : Vertex → ℕ, ∀ v w, root.Flows scope v w → rank w < rank v := by
  have hacyclic : ∀ v, ¬Relation.TransGen (root.Flows scope) v v := fun v hcircle => by
    obtain ⟨key, hkey⟩ := exists_key_of_circle hcircle
    exact h key hkey
  obtain ⟨rank, -, hrank⟩ := exists_rank root.vertices.toFinset
    (fun v w hflows => List.mem_toFinset.2 hflows.mem_vertices) hacyclic
  exact ⟨rank, hrank⟩

end Plan

open Plan

/-! ## Ranks of channels and tasks -/

/-- The rank of a channel's key. -/
def Channels.rank (channels : Channels) (rank : Vertex → ℕ) (id : ChannelId) : ℕ :=
  (channels.get? id).elim 0 fun channel => rank (.key channel.key)

/-- The rank of the node that emits, or of the key that is heard. -/
def Task.rank (channels : Channels) (rank : Vertex → ℕ) : Task → ℕ
  | .deliver id _ _ => channels.rank rank id
  | .emit slot _ => rank (.node slot.index)

/-! ## What lies below a rank -/

/-- What leads only to nodes and keys of ranks below the bound. -/
def Plan.beneath (root : Plan) (channels : Channels) (rank : Vertex → ℕ) (bound : ℕ) : Reach where
  delivers
    | .input slot => rank (.node slot.index) < bound
    | .broadcast id => channels.rank rank id < bound
    | .output slot => ∀ site ∈ root.layout, slot = slotAt site.number →
      (∀ other, site.Reaches root (.input other) → rank (.node other.index) < bound) ∧
        ∀ id, site.Reaches root (.broadcast id) → channels.rank rank id < bound
    | _ => True
  asks _ := True
  defers task := task.rank channels rank < bound

/-- What can be put off, if it only leads to what is of a lower rank than the task itself. -/
def Plan.descending (root : Plan) (channels : Channels) (rank : Vertex → ℕ) : Reach where
  delivers _ := True
  asks _ := True
  defers task := (root.beneath channels rank (task.rank channels rank)).Runs task

theorem Plan.drives_descending (root : Plan) (channels : Channels) (rank : Vertex → ℕ) :
    (root.descending channels rank).Drives := by
  intro task _
  cases task with
  | deliver id listeners value => exact fun _ _ => trivial
  | emit slot value => trivial

namespace Graph.Assembled

variable {π κ : Type} {registry : Registry π κ} {spec : SpecNode} {root : Plan}
  {declared : Declared} {wired : Wired π κ} (h : Assembled registry spec root declared wired)
  {rank : Vertex → ℕ} (hrank : ∀ v w, root.Flows declared.scope v w → rank w < rank v)

include h

/-- The rank of a channel is that of its key. -/
theorem rank_of_key {key : String} {id : ChannelId} (hkey : declared.scope.find? key = some id) :
    wired.channels.rank rank id = rank (.key key) := by
  rw [Channels.rank, h.channel_of_key hkey]
  rfl

/-- Every channel that a component broadcasts into has a key. -/
theorem exists_key_of_broadcasts {component : Site} (hmem : component ∈ root.layout) {id : ChannelId}
    (hb : component.plan.Broadcasts id) : ∃ key, declared.scope.find? key = some id := by
  obtain ⟨channel, hget⟩ := Option.isSome_iff_exists.1 (h.hasChannel hmem hb)
  obtain ⟨key, hkey, -⟩ := h.exists_key hget
  exact ⟨key, hkey⟩

/-- What a place can reach is a component's broadcast if it is a broadcast at all. -/
theorem exists_key_of_reaches {site : Site} (hsite : site ∈ root.layout) {id : ChannelId}
    (hreaches : site.Reaches root (.broadcast id)) : ∃ key, declared.scope.find? key = some id := by
  generalize hlistener : Listener.broadcast id = listener at hreaches
  induction hreaches with
  | listener hout =>
    subst hlistener
    obtain ⟨component, hmem, -, hb⟩ := produces_of_broadcast hsite hout
    exact h.exists_key_of_broadcasts hmem hb
  | passedOn hother _ _ ih => exact ih hother hlistener

include hrank

/-- What a leaf emits leads to lower ranks than its own. -/
theorem delivers_of_leaf {site : Site} (hsite : site ∈ root.layout) {s : SpecNode} {state? : Option Plan}
    (hplan : site.plan = .leaf s state?) {bound : ℕ} (hbound : rank (.node site.number) ≤ bound) :
    (root.beneath wired.channels rank bound).delivers (.output (slotAt site.number)) := by
  intro other hother hslot
  obtain rfl := site_unique hother hsite (slotAt_inj.1 hslot.symm)
  refine ⟨fun slot hreaches => ?_, fun id hreaches => ?_⟩
  · exact (hrank _ _ (.emission hsite hplan hreaches)).trans_le hbound
  · obtain ⟨key, hkey⟩ := h.exists_key_of_reaches hsite hreaches
    rw [h.rank_of_key hkey]
    exact (hrank _ _ (.send hsite hplan hreaches hkey)).trans_le hbound

/-- What the node of a place leads to has lower ranks than the place. -/
theorem covers_beneath {site : Site} (hsite : site ∈ root.layout) {kind : NodeKind π κ}
    (hkind : site.plan.kindAt registry site.number = .ok kind) {bound : ℕ}
    (hbound : rank (.node site.number) < bound) :
    (root.beneath wired.channels rank bound).Covers (slotAt site.number) kind := by
  cases hplan : site.plan with
  | component consumers producers =>
    rw [hplan] at hkind
    cases hkind
    intro producer hproducer
    rw [producerSlots_eq] at hproducer
    obtain ⟨part, hpart, rfl⟩ := List.mem_map.1 hproducer
    have hproduces : Site.Produces ⟨part.1, targets (site.number + 1) consumers, part.2⟩ site :=
      ⟨consumers, producers, hplan, part, hpart, rfl⟩
    exact (hrank _ _ (.producer hsite hproduces)).trans hbound
  | conditional conditions positive negative? =>
    rw [hplan] at hkind
    cases hkind
    refine ⟨fun _ _ => trivial, (hrank _ _ (.positive hsite hplan)).trans hbound,
      fun slot hslot => ?_⟩
    obtain ⟨negative, rfl, rfl⟩ := Option.map_eq_some_iff.1 hslot
    exact (hrank _ _ (.negative hsite hplan)).trans hbound
  | constant value =>
    rw [hplan] at hkind
    cases hkind
    trivial
  | leaf s state? =>
    have hdelivers := h.delivers_of_leaf hrank hsite hplan hbound.le
    rw [hplan] at hkind
    rcases makeLeaf_eq_ok hkind with ⟨-, leaf, rfl⟩ | ⟨-, leaf, rfl⟩
    · exact ⟨hdelivers, fun _ => hbound⟩
    · exact hdelivers

/-- Whatever leads to ranks below a bound only, leads to what does so as well. -/
theorem carries_beneath {s : Engine π κ} (hs : s.Placed registry root wired.channels) (bound : ℕ) :
    (root.beneath wired.channels rank bound).Carries s where
  entered hreach hget := by
    obtain ⟨site, hsite, rfl, ⟨kind, hkind, hwiring⟩, -⟩ := hs.exists_site hget
    exact (h.covers_beneath hrank hsite hkind hreach).of_wiring hwiring.symm
  relayed hreach hget listener hl := by
    obtain ⟨site, hsite, rfl, -, taps, houtputs⟩ := hs.exists_site hget
    obtain ⟨hinputs, hbroadcasts⟩ := hreach site hsite rfl
    rw [houtputs] at hl
    rcases List.mem_append.1 hl with hl | hl
    · cases listener with
      | input slot => exact hinputs slot (.listener hl)
      | broadcast id => exact hbroadcasts id (.listener hl)
      -- Passed on to the outputs of another node, the value reaches what those lead to: the reach of a
      -- site is closed under such hops.
      | output slot =>
        rintro other hother rfl
        exact ⟨fun slot hreaches => hinputs slot (.passedOn hother hl hreaches),
          fun id hreaches => hbroadcasts id (.passedOn hother hl hreaches)⟩
      | _ => trivial
    -- What was added after wiring are taps, and those lead into the output log only.
    · cases List.eq_of_mem_replicate hl
      trivial

/-- Whoever hears a key is of a lower rank than the key. -/
theorem delivers_hearers {key : String} {listener : Listener} (hl : listener ∈ root.hearers key) :
    (root.beneath wired.channels rank (rank (.key key))).delivers listener := by
  obtain ⟨component, hmem, hlistens, htargets⟩ := of_mem_hearers hl
  rcases Site.targets_cases htargets with ⟨slot, rfl⟩ | ⟨other, rfl, hb⟩
  · exact hrank _ _ (.heard hmem hlistens htargets)
  · obtain ⟨otherKey, hother⟩ := h.exists_key_of_broadcasts hmem hb
    show wired.channels.rank rank other < _
    rw [h.rank_of_key hother]
    exact hrank _ _ (.sentOn hmem hlistens htargets hother)

/-- Tasks of a wired graph lead to what is of a lower rank. -/
theorem closed_descending (config : Config) :
    (root.descending wired.channels rank).Closed (engineOf config wired) where
  entered _ hget := by
    obtain ⟨site, hsite, rfl, kind, hkind, rfl⟩ := h.exists_site hget
    cases hplan : site.plan with
    | component consumers producers =>
      rw [hplan] at hkind
      cases hkind
      exact fun _ _ => trivial
    | conditional conditions positive negative? =>
      rw [hplan] at hkind
      cases hkind
      exact ⟨fun _ _ => trivial, trivial, fun _ _ => trivial⟩
    | constant value =>
      rw [hplan] at hkind
      cases hkind
      trivial
    | leaf s state? =>
      have hdelivers := h.delivers_of_leaf hrank hsite hplan le_rfl
      rw [hplan] at hkind
      -- A process may put off an emission of its own, and what its node leads to is of lower ranks.
      rcases makeLeaf_eq_ok hkind with ⟨-, leaf, rfl⟩ | ⟨-, leaf, rfl⟩
      · exact ⟨trivial, fun _ => hdelivers⟩
      · trivial
  relayed _ _ _ _ := trivial
  heard _ hget value := by
    obtain ⟨key, hkey, rfl⟩ := h.exists_key hget
    show ∀ listener ∈ root.hearers key,
      (root.beneath wired.channels rank (wired.channels.rank rank _)).delivers listener
    rw [h.rank_of_key hkey]
    exact fun listener hl => h.delivers_hearers hrank hl
  queued task htask := by cases Array.not_mem_empty task htask
  pending timer htimer := by cases htimer

end Graph.Assembled

end Dataflow
