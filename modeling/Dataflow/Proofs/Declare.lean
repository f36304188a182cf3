import Dataflow.Proofs.WellFormed
import Mathlib.Data.List.Forall2

/-!
# What declaring yields

Declaring a specification succeeds exactly when every visited node is declarable, the declared keys
are pairwise distinct and none of them was declared before (`declare_eq_ok_iff`). The plan it yields
is a reading of the specification: the same tree, with the channel of its key in place of each
broadcast. What declaring leaves behind is described by the keys it has added.
-/

namespace Dataflow

/-- Every key of the first scope has the same channel in the second. -/
def Scope.Le (s s' : Scope) : Prop :=
  ∀ key channel, s.find? key = some channel → s'.find? key = some channel

/-! ## Acts on a state that may fail -/

section Runs

variable {σ ε α β : Type}

/-- A sequence of two acts succeeds when both do. -/
theorem run_bind_eq_ok_iff {x : StateT σ (Except ε) α} {f : α → StateT σ (Except ε) β} {s : σ}
    {r : β × σ} :
    (x >>= f).run s = .ok r ↔ ∃ a s', x.run s = .ok (a, s') ∧ (f a).run s' = .ok r := by
  rw [StateT.run_bind]
  cases hx : x.run s with
  | error e => simp [bind, Except.bind]
  | ok p =>
    obtain ⟨a, s'⟩ := p
    constructor
    · exact fun h => ⟨a, s', rfl, h⟩
    · rintro ⟨_, _, h, h'⟩
      cases h
      exact h'

/-- To return changes nothing. -/
theorem run_pure_eq_ok_iff {a : α} {s : σ} {r : α × σ} :
    (pure a : StateT σ (Except ε) α).run s = .ok r ↔ r = (a, s) := by
  constructor
  · intro h
    cases h
    rfl
  · rintro rfl
    rfl

/-- To throw is never to succeed. -/
theorem run_throw_ne_ok {e : ε} {s : σ} {r : α × σ} :
    (throw e : StateT σ (Except ε) α).run s ≠ .ok r := by
  intro h
  cases h

/-- A result from outside is taken as it is. -/
theorem run_lift_eq_ok_iff {x : Except ε α} {s : σ} {r : α × σ} :
    (liftM x : StateT σ (Except ε) α).run s = .ok r ↔ ∃ a, x = .ok a ∧ r = (a, s) := by
  cases x with
  | error e =>
    constructor
    · intro h
      cases h
    · rintro ⟨a, h, -⟩
      cases h
  | ok a =>
    constructor
    · intro h
      cases h
      exact ⟨a, rfl, rfl⟩
    · rintro ⟨_, h, rfl⟩
      cases h
      rfl

/-- To discard a result still takes the act to succeed. -/
theorem run_discard_eq_ok_iff {x : StateT σ (Except ε) α} {s s' : σ} {u : PUnit} :
    (discard x).run s = .ok (u, s') ↔ ∃ a, x.run s = .ok (a, s') := by
  have hbind : discard x = x >>= fun _ => pure PUnit.unit := rfl
  rw [hbind, run_bind_eq_ok_iff]
  constructor
  · rintro ⟨a, _, h, h'⟩
    cases run_pure_eq_ok_iff.1 h'
    exact ⟨a, h⟩
  · rintro ⟨a, h⟩
    exact ⟨a, s', h, rfl⟩

end Runs

namespace Plan

/-- A property that cannot be read is an error of declaring. -/
theorem run_property_eq_ok_iff {α : Type} {x : Except PropertyError α} {d : Declared}
    {r : α × Declared} : (property x).run d = .ok r ↔ ∃ a, x = .ok a ∧ r = (a, d) := by
  cases x with
  | error e => simp only [property, run_throw_ne_ok, reduceCtorEq, false_and, exists_false]
  | ok a => simp only [property, run_pure_eq_ok_iff, Except.ok.injEq, exists_eq_left']

/-- A broadcast is declared exactly when its key is new, and gets the next channel. -/
theorem run_declareBroadcast_eq_ok_iff {key : String} {d : Declared} {r : ChannelId × Declared} :
    (declareBroadcast key).run d = .ok r ↔
      d.scope.find? key = none ∧
        r = (d.channels.nextId,
          ⟨⟨Keyed.insert key d.channels.nextId d.scope.entries⟩, d.channels.create key⟩) := by
  obtain ⟨scope, channels⟩ := d
  cases h : scope.register key channels.nextId with
  | error e =>
    have hrun : (declareBroadcast key).run ⟨scope, channels⟩ = .error (.scope e) := by
      unfold declareBroadcast
      simp [h]
      rfl
    have hsome : scope.find? key ≠ none := by
      intro hnone
      simp [Scope.register, hnone] at h
    rw [hrun]
    simp [hsome]
  | ok scope' =>
    have hrun : (declareBroadcast key).run ⟨scope, channels⟩ =
        .ok (channels.nextId, ⟨scope', channels.create key⟩) := by
      unfold declareBroadcast
      simp [h]
      rfl
    obtain ⟨hnone, rfl⟩ := Scope.register_eq_ok_iff.1 h
    rw [hrun]
    simp [hnone, eq_comm]

/-- A check adds nothing. It succeeds exactly when the node can answer. -/
theorem run_checkCondition_eq_ok_iff {shape? : String → Option LeafShape} {s : SpecNode}
    {d : Declared} {r : Unit × Declared} :
    (checkCondition shape? s).run d = .ok r ↔ s.CanAnswer shape? ∧ r = ((), d) := by
  unfold checkCondition SpecNode.CanAnswer
  by_cases hk : s.Is .value
  · rw [if_pos hk, if_pos hk]
    simp only [run_bind_eq_ok_iff, run_property_eq_ok_iff]
    constructor
    · rintro ⟨v, _, ⟨_, hv, ⟨⟩⟩, hr⟩
      cases v with
      | bool b => exact ⟨⟨b, SpecNode.literal_eq_ok_iff.1 hv⟩, run_pure_eq_ok_iff.1 hr⟩
      | _ => exact absurd hr run_throw_ne_ok
    · rintro ⟨⟨b, hv⟩, rfl⟩
      exact ⟨_, _, ⟨_, SpecNode.literal_eq_ok_iff.2 hv, rfl⟩, rfl⟩
  · rw [if_neg hk, if_neg hk]
    split
    · rename_i hs
      simp only [hs, run_pure_eq_ok_iff, true_and]
    · rename_i hs
      simp only [hs, run_throw_ne_ok, false_iff]
      simp
    · rename_i hs
      split <;> simp only [hs, run_throw_ne_ok, reduceCtorEq, false_and]

/-! ## The keys that declaring adds -/

namespace Declared

/-- Declaring has added exactly the given keys, none of which was there before. -/
structure Adds (keys : List String) (d d' : Declared) : Prop where
  nodup : keys.Nodup
  fresh : ∀ k ∈ keys, d.scope.find? k = none
  found : ∀ k ∈ keys, ∃ channel, d'.scope.find? k = some channel
  kept : ∀ k, k ∉ keys → d'.scope.find? k = d.scope.find? k

/-- Keys stand in their order, keys and channels correspond, and nothing listens yet. -/
structure Consistent (d : Declared) : Prop where
  ordered : Keyed.Ordered d.scope.entries
  channel_of_key : ∀ {k id}, d.scope.find? k = some id → d.channels.get? id = some ⟨k, []⟩
  key_of_channel : ∀ {id c}, d.channels.get? id = some c → d.scope.find? c.key = some id

theorem Adds.refl (d : Declared) : Adds [] d d :=
  ⟨List.nodup_nil, by simp, by simp, fun _ _ => rfl⟩

/-- The order in which keys were added does not matter. -/
theorem Adds.perm {keys keys' : List String} {d d' : Declared} (h : Adds keys d d')
    (hp : keys.Perm keys') : Adds keys' d d' where
  nodup := hp.nodup_iff.1 h.nodup
  fresh k hk := h.fresh k (hp.mem_iff.2 hk)
  found k hk := h.found k (hp.mem_iff.2 hk)
  kept k hk := h.kept k fun hmem => hk (hp.mem_iff.1 hmem)

/-- What was declared stays declared, with its channel. -/
theorem Adds.le {keys : List String} {d d' : Declared} (h : Adds keys d d') :
    d.scope.Le d'.scope := by
  intro k channel hk
  have hmem : k ∉ keys := by
    intro hmem
    rw [h.fresh k hmem] at hk
    cases hk
  rw [h.kept k hmem, hk]

/-- What two acts add together are the keys of both, which have none in common. -/
theorem Adds.trans {keys keys' : List String} {d d' d'' : Declared} (h : Adds keys d d')
    (h' : Adds keys' d' d'') : Adds (keys ++ keys') d d'' where
  nodup := by
    refine List.nodup_append.2 ⟨h.nodup, h'.nodup, ?_⟩
    rintro k hk _ hk' rfl
    obtain ⟨channel, hfound⟩ := h.found k hk
    rw [h'.fresh k hk'] at hfound
    cases hfound
  fresh k hk := by
    rcases List.mem_append.1 hk with hk | hk
    · exact h.fresh k hk
    · by_cases hmem : k ∈ keys
      · exact h.fresh k hmem
      · rw [← h.kept k hmem, h'.fresh k hk]
  found k hk := by
    rcases List.mem_append.1 hk with hk | hk
    · obtain ⟨channel, hfound⟩ := h.found k hk
      exact ⟨channel, h'.le k channel hfound⟩
    · exact h'.found k hk
  kept k hk := by
    rw [List.mem_append, not_or] at hk
    rw [h'.kept k hk.2, h.kept k hk.1]

/-- A new key with a new channel. -/
theorem adds_declared {d : Declared} {k : String} (h : d.scope.find? k = none) :
    Adds [k] d ⟨⟨Keyed.insert k d.channels.nextId d.scope.entries⟩, d.channels.create k⟩ where
  nodup := by simp
  fresh k' hk' := by
    rw [List.mem_singleton.1 hk', h]
  found k' hk' := by
    rw [List.mem_singleton.1 hk']
    exact ⟨_, Keyed.lookup_insert_self k d.channels.nextId d.scope.entries⟩
  kept k' hk' :=
    Keyed.lookup_insert_of_ne (fun hne => hk' (List.mem_singleton.2 hne)) _ d.scope.entries

/-- Keys and channels still correspond once a new key has a new channel. -/
theorem Consistent.declared {d : Declared} {k : String} (h : d.Consistent)
    (hk : d.scope.find? k = none) :
    Consistent ⟨⟨Keyed.insert k d.channels.nextId d.scope.entries⟩, d.channels.create k⟩ where
  ordered := Keyed.ordered_insert h.ordered
  channel_of_key {k' id} hid := by
    by_cases hkk : k' = k
    · subst hkk
      have : id = d.channels.nextId := by
        simpa [Scope.find?, eq_comm] using hid
      subst this
      exact Channels.get?_create_self d.channels k'
    · have hid : d.scope.find? k' = some id := by
        simpa [Scope.find?, Keyed.lookup_insert_of_ne hkk] using hid
      have hget := h.channel_of_key hid
      -- A channel that is there does not have the next identifier.
      have hne : id ≠ d.channels.nextId := by
        rintro rfl
        simp [Channels.get?, Channels.nextId] at hget
      rw [Channels.get?_create_of_ne hne, hget]
  key_of_channel {id c} hid := by
    by_cases hne : id = d.channels.nextId
    · subst hne
      rw [Channels.get?_create_self] at hid
      cases hid
      exact Keyed.lookup_insert_self k d.channels.nextId d.scope.entries
    · rw [Channels.get?_create_of_ne hne] at hid
      have hkey := h.key_of_channel hid
      have hkk : c.key ≠ k := by
        rintro heq
        rw [heq, hk] at hkey
        cases hkey
      rw [Scope.find?, Keyed.lookup_insert_of_ne hkk]
      exact hkey

end Declared

/-! ## Readings -/

/-- Whether the plan is one of a node that can answer a condition. -/
def Answers (shape? : String → Option LeafShape) : Plan → Prop
  | .constant v => ∃ b, v = .bool b
  | .leaf spec _ => shape? spec.kind = some .condition
  | _ => False

section

variable (shape? : String → Option LeafShape) (scope : Scope)

mutual

/-- Whether the plan is the given specification with the channel of its key, as the scope has it, in
place of each broadcast. -/
def Reads : Plan → SpecNode → Prop
  | .component consumers producers, s =>
    s.Is .component ∧
      (∃ cs, s.nodes "consumers" = .ok cs ∧ ReadsConsumers consumers cs) ∧
      ∃ ps, s.nodes "producers" = .ok ps ∧ ReadsProducers producers ps
  | .conditional conditions positive negative?, s =>
    (∃ cs, s.nodes "conditions" = .ok cs ∧ ReadsAll conditions cs ∧
        ∀ plan ∈ conditions, plan.Answers shape?) ∧
      (∃ p, s.node "positive" = .ok p ∧ Reads positive p) ∧
      ∃ n?, ReadsOptional negative? n? ∧
        ((s.Is .gate ∧ n? = none) ∨ (s.Is .switch ∧ ∃ n, n? = some n ∧ s.node "negative" = .ok n))
  | .constant v, s => s.Is .value ∧ s.literal "value" = .ok v
  | .leaf spec state?, s =>
    spec = s ∧ Structure.ofName? s.kind = none ∧ (shape? s.kind).isSome ∧
      ∃ n?, s.state = .ok n? ∧ ReadsOptional state? n?

/-- `Reads` for a consumer of a component. -/
def ReadsConsumer : Consumer → SpecNode → Prop
  | .broadcast channel, c => c.Is .broadcast ∧ ∃ k, c.key = .ok k ∧ scope.find? k = some channel
  | .node plan, c => ¬c.Is .broadcast ∧ Reads plan c

/-- `Reads` for the consumers of a component. -/
def ReadsConsumers : List Consumer → List SpecNode → Prop
  | [], cs => cs = []
  | consumer :: rest, cs => ∃ c cs', cs = c :: cs' ∧ ReadsConsumer consumer c ∧ ReadsConsumers rest cs'

/-- `Reads` for a producer of a component. -/
def ReadsProducer : Producer → SpecNode → Prop
  | .listener key, p => p.Is .listener ∧ p.key = .ok key
  | .node plan, p => ¬p.Is .listener ∧ Reads plan p

/-- `Reads` for the producers of a component. -/
def ReadsProducers : List Producer → List SpecNode → Prop
  | [], ps => ps = []
  | producer :: rest, ps => ∃ p ps', ps = p :: ps' ∧ ReadsProducer producer p ∧ ReadsProducers rest ps'

/-- `Reads` for a list of plans. -/
def ReadsAll : List Plan → List SpecNode → Prop
  | [], ss => ss = []
  | plan :: rest, ss => ∃ s ss', ss = s :: ss' ∧ Reads plan s ∧ ReadsAll rest ss'

/-- `Reads` for a plan that may be absent. -/
def ReadsOptional : Option Plan → Option SpecNode → Prop
  | none, s? => s? = none
  | some plan, s? => ∃ s, s? = some s ∧ Reads plan s

end

end

/-! ## A calculus of declaring

`Declares act ok keys P` says when an act of declaring succeeds, what it adds, and what holds of its
result in every scope that has all the keys declared so far. Sequences and lists of acts are handled
by one rule each.
-/

/-- The act succeeds exactly if `ok` holds and the keys are new and pairwise distinct; it then adds
the keys, and its result satisfies `P` in every scope that goes on to contain them. -/
structure Declares {β : Type} (act : Declare β) (ok : Prop) (keys : List String)
    (P : Scope → β → Prop) : Prop where
  succeeds : ok → keys.Nodup → ∀ d : Declared, (∀ k ∈ keys, d.scope.find? k = none) →
    ∃ b d', act.run d = .ok (b, d')
  sound : ∀ {d b d'}, act.run d = .ok (b, d') → ok ∧ Declared.Adds keys d d' ∧
    (d.Consistent → d'.Consistent) ∧ ∀ scope, d'.scope.Le scope → P scope b

namespace Declares

variable {β γ : Type} {ok ok' : Prop} {keys keys' : List String}

/-- What declaring asks for can be put in other words, and what it yields can be weakened. -/
theorem mono {act : Declare β} {P P' : Scope → β → Prop} (h : Declares act ok keys P)
    (hok : ok ↔ ok') (hkeys : keys.Perm keys') (hP : ∀ scope b, P scope b → P' scope b) :
    Declares act ok' keys' P' where
  succeeds hok' hnodup d hfresh :=
    h.succeeds (hok.2 hok') (hkeys.nodup_iff.2 hnodup) d fun k hk => hfresh k (hkeys.mem_iff.1 hk)
  sound hrun := by
    obtain ⟨hok', hadds, hcons, hres⟩ := h.sound hrun
    exact ⟨hok.1 hok', hadds.perm hkeys, hcons, fun scope hle => hP scope _ (hres scope hle)⟩

theorem pure (b : β) : Declares (Pure.pure b) True [] fun _ b' => b' = b where
  succeeds _ _ d _ := ⟨b, d, rfl⟩
  sound hrun := by
    cases run_pure_eq_ok_iff.1 hrun
    exact ⟨trivial, .refl _, id, fun _ _ => rfl⟩

theorem throw (e : BuildError) (keys : List String) (P : Scope → β → Prop) :
    Declares (throw e) False keys P where
  succeeds h := h.elim
  sound hrun := (run_throw_ne_ok hrun).elim

/-- To read a property succeeds exactly when it can be read, and adds no key. -/
theorem property (x : Except PropertyError β) :
    Declares (Plan.property x) (∃ b, x = .ok b) [] fun _ b => x = .ok b where
  succeeds := by
    rintro ⟨b, hx⟩ - d -
    exact ⟨b, d, run_property_eq_ok_iff.2 ⟨b, hx, rfl⟩⟩
  sound hrun := by
    obtain ⟨b, hx, ⟨⟩⟩ := run_property_eq_ok_iff.1 hrun
    exact ⟨⟨_, hx⟩, .refl _, id, fun _ _ => hx⟩

/-- To declare a broadcast succeeds whenever its key is new. -/
theorem declareBroadcast (k : String) :
    Declares (Plan.declareBroadcast k) True [k] fun scope channel => scope.find? k = some channel where
  succeeds _ _ d hfresh :=
    ⟨_, _, run_declareBroadcast_eq_ok_iff.2 ⟨hfresh k (by simp), rfl⟩⟩
  sound hrun := by
    obtain ⟨hnone, ⟨⟩⟩ := run_declareBroadcast_eq_ok_iff.1 hrun
    refine ⟨trivial, Declared.adds_declared hnone, fun hcons => hcons.declared hnone, ?_⟩
    intro scope hle
    exact hle k _ (Keyed.lookup_insert_self k _ _)

/-- To check a condition adds no key. -/
theorem checkCondition (shape? : String → Option LeafShape) (s : SpecNode) :
    Declares (Plan.checkCondition shape? s) (s.CanAnswer shape?) [] fun _ _ => s.CanAnswer shape? where
  succeeds hok _ d _ := ⟨(), d, run_checkCondition_eq_ok_iff.2 ⟨hok, rfl⟩⟩
  sound hrun := by
    obtain ⟨hok, ⟨⟩⟩ := run_checkCondition_eq_ok_iff.1 hrun
    exact ⟨hok, .refl _, id, fun _ _ => hok⟩

/-- In sequence both acts have to succeed, and their keys are to be distinct from each other. -/
theorem bind {act : Declare β} {f : β → Declare γ} {P : Scope → β → Prop}
    {Q : β → Scope → γ → Prop} (h : Declares act ok keys P)
    (hf : ∀ b, (∃ scope, P scope b) → Declares (f b) ok' keys' (Q b)) :
    Declares (act >>= f) (ok ∧ ok') (keys ++ keys') fun scope c => ∃ b, P scope b ∧ Q b scope c where
  succeeds := by
    rintro ⟨hok, hok'⟩ hnodup d hfresh
    obtain ⟨hn, hn', hdisj⟩ := List.nodup_append.1 hnodup
    obtain ⟨b, d₁, hrun⟩ := h.succeeds hok hn d fun k hk => hfresh k (by simp [hk])
    obtain ⟨-, hadds, -, hres⟩ := h.sound hrun
    -- The keys of the second act are still new after the first, as the two have none in common.
    have hfresh' : ∀ k ∈ keys', d₁.scope.find? k = none := by
      intro k hk
      rw [hadds.kept k fun hk₀ => hdisj k hk₀ k hk rfl]
      exact hfresh k (by simp [hk])
    obtain ⟨c, d₂, hrun'⟩ :=
      (hf b ⟨_, hres d₁.scope fun _ _ => id⟩).succeeds hok' hn' d₁ hfresh'
    exact ⟨c, d₂, run_bind_eq_ok_iff.2 ⟨b, d₁, hrun, hrun'⟩⟩
  sound hrun := by
    obtain ⟨b, d₁, hrun, hrun'⟩ := run_bind_eq_ok_iff.1 hrun
    obtain ⟨hok, hadds, hcons, hres⟩ := h.sound hrun
    obtain ⟨hok', hadds', hcons', hres'⟩ := (hf b ⟨_, hres d₁.scope fun _ _ => id⟩).sound hrun'
    -- The first result holds in every later scope, as keys are only ever added.
    refine ⟨⟨hok, hok'⟩, hadds.trans hadds', fun hd => hcons' (hcons hd), fun scope hle => ?_⟩
    exact ⟨b, hres scope fun k c hk => hle k c (hadds'.le k c hk), hres' scope hle⟩

/-- A list is declared if each member is, all keys being distinct. -/
theorem mapM {f : SpecNode → Declare β} {ok : SpecNode → Prop} {keys : SpecNode → List String}
    {P : SpecNode → Scope → β → Prop} {cs : List SpecNode}
    (h : ∀ c ∈ cs, Declares (f c) (ok c) (keys c) (P c)) :
    Declares (cs.mapM f) (∀ c ∈ cs, ok c) (cs.flatMap keys)
      fun scope bs => List.Forall₂ (fun c b => P c scope b) cs bs := by
  induction cs with
  | nil =>
    rw [List.mapM_nil]
    refine (Declares.pure []).mono (by simp) (.refl _) ?_
    rintro _ _ rfl
    exact .nil
  | cons c cs ih =>
    rw [List.mapM_cons]
    have hrest := ih fun c' hc' => h c' (by simp [hc'])
    refine ((h c (by simp)).bind fun b _ => hrest.bind fun bs _ => Declares.pure (b :: bs)).mono
      ?_ ?_ ?_
    · simp
    · simp
    · rintro scope _ ⟨b, hb, bs, hbs, rfl⟩
      exact .cons hb hbs

end Declares

/-! ## Declaring a specification -/

variable {shape? : String → Option LeafShape}

/-- Declares a consumer of a component. -/
def declareConsumer (shape? : String → Option LeafShape) (c : SpecNode) : Declare Consumer :=
  if c.Is .broadcast then do return .broadcast (← declareBroadcast (← property c.key))
  else do return .node (← declare shape? c)

/-- Declares a producer of a component. -/
def declareProducer (shape? : String → Option LeafShape) (p : SpecNode) : Declare Producer :=
  if p.Is .listener then do return .listener (← property p.key)
  else do return .node (← declare shape? p)

/-- Declares a condition. -/
def declareCondition (shape? : String → Option LeafShape) (c : SpecNode) : Declare Plan := do
  checkCondition shape? c
  declare shape? c

/-- Declares the subtrees of a property. -/
def forNodes {β : Type} (s : SpecNode) (name : String) (f : SpecNode → Declare β) :
    Declare (List β) := do (← property (s.nodes name)).mapM f

/-- Declares the subtree of a property. -/
def forNode {β : Type} (s : SpecNode) (name : String) (f : SpecNode → Declare β) : Declare β := do
  f (← property (s.node name))

/-- Declares the state subtree of a leaf. -/
def forState {β : Type} (s : SpecNode) (f : SpecNode → Declare β) : Declare (Option β) := do
  (← property s.state).mapM f

/-- The nodes of a list, without the proofs that they are smaller. -/
theorem nodes_eq_map (s : SpecNode) (name : String) :
    s.nodes name = (s.childNodes name).map (List.map Subtype.val) := by
  unfold SpecNode.childNodes
  split
  · rename_i ns hns
    rw [Except.map, List.attachWith_map_subtype_val, hns]
  · rename_i e he
    rw [Except.map, he]

/-- The node of a property, without the proof that it is smaller. -/
theorem node_eq_map (s : SpecNode) (name : String) :
    s.node name = (s.childNode name).map Subtype.val := by
  unfold SpecNode.childNode
  split
  · rename_i n hn
    exact hn
  · rename_i e he
    exact he

/-- The state of a leaf, without the proof that it is smaller. -/
theorem state_eq_map (s : SpecNode) : s.state = s.childState.map (Option.map Subtype.val) := by
  unfold SpecNode.childState
  split
  · rename_i n hn
    exact hn
  · rename_i hn
    exact hn
  · rename_i e he
    exact he

theorem property_map {α β : Type} (f : α → β) (x : Except PropertyError α) :
    property (x.map f) = f <$> property x := by
  cases x <;> rfl

/-- A component is declared consumers first. -/
theorem declare_of_component {s : SpecNode} (h : s.Is .component) :
    declare shape? s = do
      let consumers ← forNodes s "consumers" (declareConsumer shape?)
      let producers ← forNodes s "producers" (declareProducer shape?)
      return .component consumers producers := by
  rw [declare, SpecNode.ofName?_eq_some_iff.2 h]
  simp only [forNodes, nodes_eq_map, property_map, bind_map_left, List.mapM_map, bind_assoc]
  rfl

/-- A gate is declared conditions first. -/
theorem declare_of_gate {s : SpecNode} (h : s.Is .gate) :
    declare shape? s = do
      let conditions ← forNodes s "conditions" (declareCondition shape?)
      let positive ← forNode s "positive" (declare shape?)
      return .conditional conditions positive none := by
  rw [declare, SpecNode.ofName?_eq_some_iff.2 h]
  simp only [forNodes, forNode, nodes_eq_map, node_eq_map, property_map, bind_map_left,
    List.mapM_map, bind_assoc]
  rfl

/-- A switch is declared conditions first, and its positive branch before the negative one. -/
theorem declare_of_switch {s : SpecNode} (h : s.Is .switch) :
    declare shape? s = do
      let conditions ← forNodes s "conditions" (declareCondition shape?)
      let positive ← forNode s "positive" (declare shape?)
      let negative ← forNode s "negative" (declare shape?)
      return .conditional conditions positive (some negative) := by
  rw [declare, SpecNode.ofName?_eq_some_iff.2 h]
  simp only [forNodes, forNode, nodes_eq_map, node_eq_map, property_map, bind_map_left,
    List.mapM_map, bind_assoc]
  rfl

/-- A leaf of a known kind is declared with its state. -/
theorem declare_of_leaf {s : SpecNode} (h : Structure.ofName? s.kind = none)
    (hk : (shape? s.kind).isSome) :
    declare shape? s = do
      let state? ← forState s (declare shape?)
      return .leaf s state? := by
  have hk' : (shape? s.kind).isNone = false := by
    cases hs : shape? s.kind <;> simp_all
  rw [declare, h, hk', forState, bind_assoc, state_eq_map, property_map, bind_map_left]
  simp only [Bool.false_eq_true, if_false]
  congr 1
  funext state?
  cases state? with
  | none => rfl
  | some n =>
    simp only [Option.map_some, Option.mapM_some, map_eq_pure_bind, bind_assoc, pure_bind]

namespace Declares

variable {β : Type} {s : SpecNode} {f : SpecNode → Declare β} {ok : SpecNode → Prop}
  {keys : SpecNode → List String} {P : SpecNode → Scope → β → Prop}

/-- A list of nodes is declared member by member, in order. -/
theorem forNodes (s : SpecNode) (name : String)
    (h : ∀ c ∈ s.nodesOf name, Declares (f c) (ok c) (keys c) (P c)) :
    Declares (Plan.forNodes s name f) (s.HasNodes name ∧ ∀ c ∈ s.nodesOf name, ok c)
      ((s.nodesOf name).flatMap keys)
      fun scope bs => ∃ cs, s.nodes name = .ok cs ∧ List.Forall₂ (fun c b => P c scope b) cs bs := by
  rw [SpecNode.hasNodes_iff]
  refine (Declares.property (s.nodes name)).bind fun cs hcs => ?_
  obtain ⟨-, hcs⟩ := hcs
  rw [SpecNode.nodesOf_of_nodes hcs] at h ⊢
  exact Declares.mapM h

/-- A node that has to be there is declared if it is. -/
theorem forNode {name : String}
    (h : ∀ n ∈ s.nodeOf name, Declares (f n) (ok n) (keys n) (P n)) :
    Declares (Plan.forNode s name f) (s.HasNode name ∧ ∀ n ∈ s.nodeOf name, ok n)
      ((s.nodeOf name).flatMap keys) fun scope b => ∃ n, s.node name = .ok n ∧ P n scope b := by
  rw [SpecNode.hasNode_iff]
  refine (Declares.property (s.node name)).bind fun n hn => ?_
  obtain ⟨-, hn⟩ := hn
  rw [SpecNode.nodeOf_of_node hn] at h ⊢
  exact (h n (by simp)).mono (by simp) (by simp) fun _ _ => id

/-- A state may be left out, which declares nothing. -/
theorem forState (h : ∀ n ∈ s.nodeOf "state", Declares (f n) (ok n) (keys n) (P n)) :
    Declares (Plan.forState s f) (s.HasState ∧ ∀ n ∈ s.nodeOf "state", ok n)
      ((s.nodeOf "state").flatMap keys)
      fun scope b? => ∃ n?, s.state = .ok n? ∧ Option.Rel (fun n b => P n scope b) n? b? := by
  rw [SpecNode.hasState_iff]
  refine (Declares.property s.state).bind fun n? hn => ?_
  obtain ⟨-, hn⟩ := hn
  rw [SpecNode.nodeOf_of_state hn] at h ⊢
  cases n? with
  | none =>
    refine (Declares.pure none).mono (by simp) (by simp) ?_
    rintro scope _ rfl
    exact .none
  | some n =>
    rw [Option.mapM_some, map_eq_pure_bind]
    refine ((h n (by simp)).bind fun b _ => Declares.pure (some b)).mono (by simp) (by simp) ?_
    rintro scope _ ⟨b, hb, rfl⟩
    exact .some hb

end Declares

/-! The lists of a reading, element by element. -/

section

variable {scope : Scope}

/-- Consumers are read one by one. -/
theorem readsConsumers_iff {consumers : List Consumer} {cs : List SpecNode} :
    ReadsConsumers shape? scope consumers cs ↔
      List.Forall₂ (fun c consumer => ReadsConsumer shape? scope consumer c) cs consumers := by
  induction consumers generalizing cs with
  | nil => simp [ReadsConsumers]
  | cons consumer rest ih =>
    simp only [ReadsConsumers, ih, List.forall₂_cons_right_iff]
    grind

/-- Producers are read one by one. -/
theorem readsProducers_iff {producers : List Producer} {ps : List SpecNode} :
    ReadsProducers shape? scope producers ps ↔
      List.Forall₂ (fun p producer => ReadsProducer shape? scope producer p) ps producers := by
  induction producers generalizing ps with
  | nil => simp [ReadsProducers]
  | cons producer rest ih =>
    simp only [ReadsProducers, ih, List.forall₂_cons_right_iff]
    grind

theorem readsAll_iff {plans : List Plan} {ss : List SpecNode} :
    ReadsAll shape? scope plans ss ↔
      List.Forall₂ (fun s plan => Reads shape? scope plan s) ss plans := by
  induction plans generalizing ss with
  | nil => simp [ReadsAll]
  | cons plan rest ih =>
    simp only [ReadsAll, ih, List.forall₂_cons_right_iff]
    grind

theorem readsOptional_iff {plan? : Option Plan} {s? : Option SpecNode} :
    ReadsOptional shape? scope plan? s? ↔
      Option.Rel (fun s plan => Reads shape? scope plan s) s? plan? := by
  cases plan? with
  | none => cases s? <;> simp [ReadsOptional]
  | some plan => cases s? <;> simp [ReadsOptional]

/-- The plan of a node that can answer answers. -/
theorem Reads.answers {plan : Plan} {s : SpecNode}
    (hshape : ∀ kind, isStructural kind = true → shape? kind = none)
    (h : Reads shape? scope plan s) (hs : s.CanAnswer shape?) : plan.Answers shape? := by
  unfold SpecNode.CanAnswer at hs
  by_cases hv : s.Is .value
  · rw [if_pos hv] at hs
    obtain ⟨b, hb⟩ := hs
    cases plan with
    | component => exact absurd (hv.unique h.1) (by decide)
    | conditional =>
      obtain ⟨-, -, _, -, ⟨hg, -⟩ | ⟨hg, -⟩⟩ := h
      · exact absurd (hv.unique hg) (by decide)
      · exact absurd (hv.unique hg) (by decide)
    | constant v =>
      obtain ⟨-, hlit⟩ := h
      rw [SpecNode.literal_eq_ok_iff, hb] at hlit
      cases hlit
      exact ⟨b, rfl⟩
    | leaf =>
      obtain ⟨-, hnone, -⟩ := h
      rw [SpecNode.ofName?_eq_some_iff.2 hv] at hnone
      cases hnone
  · rw [if_neg hv] at hs
    have hne : ∀ k, ¬s.Is k := by
      intro k hk
      rw [hshape _ (SpecNode.isStructural_of_is hk)] at hs
      cases hs
    cases plan with
    | component => exact absurd h.1 (hne _)
    | conditional =>
      obtain ⟨-, -, _, -, ⟨hg, -⟩ | ⟨hg, -⟩⟩ := h
      · exact absurd hg (hne _)
      · exact absurd hg (hne _)
    | constant => exact absurd h.1 (hne _)
    | leaf =>
      obtain ⟨rfl, -⟩ := h
      exact hs

end

/-- What declaring is to do for one specification. -/
abbrev DeclaresSpec (shape? : String → Option LeafShape) (s : SpecNode) : Prop :=
  Declares (declare shape? s) (∀ t ∈ s.visited, t.Declarable shape?) s.declaredKeys
    fun scope plan => Reads shape? scope plan s

/-- A consumer is a broadcast, which declares its key, or a node. -/
theorem declares_consumer {c : SpecNode} (ih : DeclaresSpec shape? c) :
    Declares (declareConsumer shape? c)
      ((c.Is .broadcast → c.HasKey) ∧
        (¬c.Is .broadcast → ∀ t ∈ c.visited, t.Declarable shape?))
      (if c.Is .broadcast then c.keyOf else c.declaredKeys)
      fun scope consumer => ReadsConsumer shape? scope consumer c := by
  unfold declareConsumer
  by_cases hc : c.Is .broadcast
  · rw [if_pos hc, if_pos hc]
    cases hk : c.key with
    | error e =>
      refine (Declares.throw (.property e) _ _).mono ?_ (.refl _) fun _ _ => id
      simp [hc, SpecNode.hasKey_iff, hk]
    | ok k =>
      refine ((Declares.declareBroadcast k).bind fun channel _ =>
        Declares.pure (Consumer.broadcast channel)).mono
          (by simp [hc, SpecNode.hasKey_iff, hk]) (by simp [SpecNode.keyOf_of_key hk]) ?_
      rintro scope _ ⟨channel, hfind, rfl⟩
      exact ⟨hc, k, hk, hfind⟩
  · rw [if_neg hc, if_neg hc]
    refine (ih.bind fun plan _ => Declares.pure (Consumer.node plan)).mono (by simp [hc]) (by simp) ?_
    rintro scope _ ⟨plan, hplan, rfl⟩
    exact ⟨hc, hplan⟩

/-- A producer is a listener, whose key is declared elsewhere, or a node. -/
theorem declares_producer {p : SpecNode} (ih : DeclaresSpec shape? p) :
    Declares (declareProducer shape? p)
      ((p.Is .listener → p.HasKey) ∧
        (¬p.Is .listener → ∀ t ∈ p.visited, t.Declarable shape?))
      (if p.Is .listener then [] else p.declaredKeys)
      fun scope producer => ReadsProducer shape? scope producer p := by
  unfold declareProducer
  rw [SpecNode.hasKey_iff]
  by_cases hp : p.Is .listener
  · rw [if_pos hp, if_pos hp]
    refine ((Declares.property p.key).bind fun k _ => Declares.pure (Producer.listener k)).mono
      ⟨fun h => ⟨fun _ => h.1, absurd hp⟩, fun h => ⟨h.1 hp, trivial⟩⟩ (by simp) ?_
    rintro scope _ ⟨k, hk, rfl⟩
    exact ⟨hp, hk⟩
  · rw [if_neg hp, if_neg hp]
    refine (ih.bind fun plan _ => Declares.pure (Producer.node plan)).mono (by simp [hp]) (by simp) ?_
    rintro scope _ ⟨plan, hplan, rfl⟩
    exact ⟨hp, hplan⟩

/-- A condition is checked before it is declared. -/
theorem declares_condition {c : SpecNode}
    (hshape : ∀ kind, isStructural kind = true → shape? kind = none) (ih : DeclaresSpec shape? c) :
    Declares (declareCondition shape? c)
      (c.CanAnswer shape? ∧ ∀ t ∈ c.visited, t.Declarable shape?) c.declaredKeys
      fun scope plan => Reads shape? scope plan c ∧ plan.Answers shape? := by
  refine ((Declares.checkCondition shape? c).bind fun _ _ => ih).mono (.refl _) (by simp) ?_
  rintro scope plan ⟨-, hc, hplan⟩
  exact ⟨hplan, hplan.answers hshape hc⟩

/-- The declared keys of a list, some of whose members are treated apart, the latter's first. -/
theorem flatMap_ite_perm {α β : Type} (p : α → Prop) [DecidablePred p] (f g : α → List β)
    (xs : List α) :
    (xs.flatMap fun x => if p x then f x else g x).Perm
      ((xs.filter fun x => p x).flatMap f ++ (xs.filter fun x => ¬p x).flatMap g) := by
  induction xs with
  | nil => simp
  | cons x xs ih =>
    by_cases hx : p x
    · simp only [List.flatMap_cons, hx, if_true, not_true, decide_true, decide_false,
        List.filter_cons_of_pos, Bool.false_eq_true, not_false_iff, List.filter_cons_of_neg,
        List.append_assoc]
      exact ih.append_left (f x)
    · simp only [List.flatMap_cons, hx, if_false, decide_false, Bool.false_eq_true,
        not_false_iff, List.filter_cons_of_neg, decide_true, List.filter_cons_of_pos]
      exact (ih.append_left (g x)).trans (by
        rw [← List.append_assoc, ← List.append_assoc]
        exact List.perm_append_comm.append_right _)

section

variable {s : SpecNode}

/-- A component declares the keys of its broadcasts and of its parts. -/
theorem declares_component (h : s.Is .component) (ih : ∀ t, t.size < s.size → DeclaresSpec shape? t) :
    DeclaresSpec shape? s := by
  have hconsumers := Declares.forNodes s "consumers" fun c hc =>
    declares_consumer (ih c (SpecNode.size_lt_of_mem_nodesOf hc))
  have hproducers := Declares.forNodes s "producers" fun p hp =>
    declares_producer (ih p (SpecNode.size_lt_of_mem_nodesOf hp))
  rw [DeclaresSpec, declare_of_component h]
  refine (hconsumers.bind fun consumers _ => hproducers.bind fun producers _ =>
    Declares.pure (Plan.component consumers producers)).mono ?_ ?_ ?_
  · rw [SpecNode.forall_visited_iff, SpecNode.declarable_of_component h,
      SpecNode.parts_of_component h, SpecNode.soundComponent_iff]
    -- What is asked of parts and of channels comes mixed in the order of declaring, and is sorted here.
    simp only [List.mem_append, List.mem_filter, decide_eq_true_eq, and_true]
    grind
  -- The keys come in the order of declaring, those of broadcasts among those of parts.
  · have hlisteners := flatMap_ite_perm (·.Is .listener) (fun _ => []) SpecNode.declaredKeys
      (s.nodesOf "producers")
    rw [List.flatMap_eq_nil_iff.2 fun _ _ => rfl, List.nil_append] at hlisteners
    rw [SpecNode.declaredKeys_eq, SpecNode.parts_of_component h, SpecNode.broadcastKeys, if_pos h,
      List.flatMap_append, List.append_nil, ← List.append_assoc]
    exact (flatMap_ite_perm (fun c : SpecNode => c.Is .broadcast) _ _ _).append hlisteners
  · rintro scope _ ⟨consumers, ⟨cs, hcs, hc⟩, producers, ⟨ps, hps, hp⟩, rfl⟩
    exact ⟨h, ⟨cs, hcs, readsConsumers_iff.2 hc⟩, ps, hps, readsProducers_iff.2 hp⟩

/-- What the conditions of a gate or a switch yield. -/
theorem declares_conditions (hshape : ∀ kind, isStructural kind = true → shape? kind = none)
    (ih : ∀ t, t.size < s.size → DeclaresSpec shape? t) :
    Declares (forNodes s "conditions" (declareCondition shape?))
      (s.HasNodes "conditions" ∧ ∀ c ∈ s.nodesOf "conditions",
        c.CanAnswer shape? ∧ ∀ t ∈ c.visited, t.Declarable shape?)
      ((s.nodesOf "conditions").flatMap SpecNode.declaredKeys)
      fun scope plans => ∃ cs, s.nodes "conditions" = .ok cs ∧ ReadsAll shape? scope plans cs ∧
        ∀ plan ∈ plans, plan.Answers shape? := by
  refine (Declares.forNodes s "conditions" fun c hc =>
    declares_condition hshape (ih c (SpecNode.size_lt_of_mem_nodesOf hc))).mono .rfl (.refl _) ?_
  rintro scope plans ⟨cs, hcs, hplans⟩
  obtain ⟨hanswers, -⟩ :=
    (List.forall₂_and_left plans cs).1 (hplans.flip.imp fun _ _ h => ⟨h.2, h.1⟩)
  exact ⟨cs, hcs, readsAll_iff.2 (hplans.imp fun _ _ h => h.1), hanswers⟩

/-- What a branch of a gate or a switch yields. -/
theorem declares_branch (name : String) (ih : ∀ t, t.size < s.size → DeclaresSpec shape? t) :
    Declares (forNode s name (declare shape?))
      (s.HasNode name ∧ ∀ n ∈ s.nodeOf name, ∀ t ∈ n.visited, t.Declarable shape?)
      ((s.nodeOf name).flatMap SpecNode.declaredKeys)
      fun scope plan => ∃ n, s.node name = .ok n ∧ Reads shape? scope plan n :=
  Declares.forNode fun n hn => ih n (SpecNode.size_lt_of_mem_nodeOf hn)

/-- A gate declares the keys of its branch and its conditions. -/
theorem declares_gate (hshape : ∀ kind, isStructural kind = true → shape? kind = none)
    (h : s.Is .gate) (ih : ∀ t, t.size < s.size → DeclaresSpec shape? t) :
    DeclaresSpec shape? s := by
  have hne : ¬s.Is .component := fun hc => absurd (h.unique hc) (by decide)
  have hns : ¬s.Is .switch := fun hc => absurd (h.unique hc) (by decide)
  rw [DeclaresSpec, declare_of_gate h]
  refine ((declares_conditions hshape ih).bind fun conditions _ =>
    (declares_branch "positive" ih).bind fun positive _ =>
      Declares.pure (Plan.conditional conditions positive none)).mono ?_ ?_ ?_
  · rw [SpecNode.forall_visited_iff, SpecNode.declarable_of_gate h, SpecNode.parts_of_gate h,
      SpecNode.soundConditional_iff]
    simp only [List.mem_append, hns, false_imp_iff, and_true]
    grind
  · rw [SpecNode.declaredKeys_eq, SpecNode.parts_of_gate h,
      SpecNode.broadcastKeys_of_not_component hne, List.flatMap_append, List.append_nil]
    -- Conditions are declared first, but visited last.
    exact List.perm_append_comm
  · rintro scope _ ⟨conditions, hconditions, positive, hpositive, rfl⟩
    exact ⟨hconditions, hpositive, none, rfl, .inl ⟨h, rfl⟩⟩

/-- A switch declares the keys of both branches and its conditions. -/
theorem declares_switch (hshape : ∀ kind, isStructural kind = true → shape? kind = none)
    (h : s.Is .switch) (ih : ∀ t, t.size < s.size → DeclaresSpec shape? t) :
    DeclaresSpec shape? s := by
  have hne : ¬s.Is .component := fun hc => absurd (h.unique hc) (by decide)
  rw [DeclaresSpec, declare_of_switch h]
  refine ((declares_conditions hshape ih).bind fun conditions _ =>
    (declares_branch "positive" ih).bind fun positive _ =>
      (declares_branch "negative" ih).bind fun negative _ =>
        Declares.pure (Plan.conditional conditions positive (some negative))).mono ?_ ?_ ?_
  · rw [SpecNode.forall_visited_iff, SpecNode.declarable_of_switch h, SpecNode.parts_of_switch h,
      SpecNode.soundConditional_iff]
    simp only [List.mem_append]
    grind
  · rw [SpecNode.declaredKeys_eq, SpecNode.parts_of_switch h,
      SpecNode.broadcastKeys_of_not_component hne, List.flatMap_append, List.flatMap_append,
      List.append_nil]
    exact List.perm_append_comm
  · rintro scope _ ⟨conditions, hconditions, positive, hpositive, negative, ⟨n, hn, hread⟩, rfl⟩
    exact ⟨hconditions, hpositive, some n, ⟨n, rfl, hread⟩, .inr ⟨h, n, rfl, hn⟩⟩

/-- A leaf declares the keys of its state, if its kind is known. -/
theorem declares_leaf (h : Structure.ofName? s.kind = none)
    (ih : ∀ t, t.size < s.size → DeclaresSpec shape? t) : DeclaresSpec shape? s := by
  by_cases hs : (shape? s.kind).isSome
  · rw [DeclaresSpec, declare_of_leaf h hs]
    refine ((Declares.forState fun n hn => ih n (SpecNode.size_lt_of_mem_nodeOf hn)).bind
      fun state? _ => Declares.pure (Plan.leaf s state?)).mono ?_ ?_ ?_
    · rw [SpecNode.forall_visited_iff, SpecNode.declarable_of_leaf h, SpecNode.parts_of_leaf h]
      simp [hs]
    · rw [SpecNode.declaredKeys_eq, SpecNode.parts_of_leaf h,
        SpecNode.broadcastKeys_of_not_component (SpecNode.not_is_of_ofName?_eq_none h _)]
      simp
    · rintro scope _ ⟨state?, ⟨n?, hn, hrel⟩, rfl⟩
      exact ⟨rfl, h, hs, n?, hn, readsOptional_iff.2 hrel⟩
  -- An unknown kind is an error before the state is looked at.
  · have hthrow : declare shape? s = throw (.unknownKind s.kind) := by
      rw [declare, h]
      simp only [Option.isNone_iff_eq_none.2 (Option.not_isSome_iff_eq_none.1 hs), if_true]
      rfl
    rw [DeclaresSpec, hthrow]
    refine (Declares.throw _ _ _).mono ?_ (.refl _) fun _ _ => id
    rw [SpecNode.forall_visited_iff, SpecNode.declarable_of_leaf h]
    simp [hs]

/-- A broadcast or a listener that is visited as a node of its own is misplaced. -/
theorem declares_misplaced (h : s.Is .broadcast ∨ s.Is .listener) : DeclaresSpec shape? s := by
  have hthrow : ∃ e, declare shape? s = throw e := by
    rcases h with h | h
    · exact ⟨_, by rw [declare, SpecNode.ofName?_eq_some_iff.2 h]⟩
    · exact ⟨_, by rw [declare, SpecNode.ofName?_eq_some_iff.2 h]⟩
  have hnot : ¬s.Declarable shape? := by
    rcases h with h | h
    · rw [SpecNode.Declarable, SpecNode.ofName?_eq_some_iff.2 h]
      exact id
    · rw [SpecNode.Declarable, SpecNode.ofName?_eq_some_iff.2 h]
      exact id
  obtain ⟨e, hthrow⟩ := hthrow
  rw [DeclaresSpec, hthrow]
  refine (Declares.throw e _ _).mono ?_ (.refl _) fun _ _ => id
  rw [SpecNode.forall_visited_iff]
  simp [hnot]

/-- A value declares no key. -/
theorem declares_value (h : s.Is .value) : DeclaresSpec shape? s := by
  have hdeclare : declare shape? s = do return .constant (← property (s.literal "value")) := by
    rw [declare, SpecNode.ofName?_eq_some_iff.2 h]
  have hne : ¬s.Is .component := fun hc => absurd (h.unique hc) (by decide)
  rw [DeclaresSpec, hdeclare]
  refine ((Declares.property (s.literal "value")).bind fun v _ =>
    Declares.pure (Plan.constant v)).mono ?_ ?_ ?_
  · rw [SpecNode.forall_visited_iff, SpecNode.declarable_of_value h, SpecNode.parts_of_value h]
    simp [SpecNode.literal_eq_ok_iff]
  · rw [SpecNode.declaredKeys_eq, SpecNode.parts_of_value h,
      SpecNode.broadcastKeys_of_not_component hne]
    simp
  · rintro scope _ ⟨v, hv, rfl⟩
    exact ⟨h, hv⟩

end

/-- **Declaring.** Declaring a specification succeeds exactly if every visited node is declarable and
the declared keys are new and pairwise distinct; the plan is then a reading of the specification. -/
theorem declares (hshape : ∀ kind, isStructural kind = true → shape? kind = none) (s : SpecNode) :
    DeclaresSpec shape? s := by
  have ih : ∀ t, t.size < s.size → DeclaresSpec shape? t := fun t _ => declares hshape t
  cases hk : Structure.ofName? s.kind with
  | none => exact declares_leaf hk ih
  | some k =>
    have h := SpecNode.ofName?_eq_some_iff.1 hk
    cases k with
    | component => exact declares_component h ih
    | gate => exact declares_gate hshape h ih
    | switch => exact declares_switch hshape h ih
    | value => exact declares_value h
    | broadcast => exact declares_misplaced (.inl h)
    | listener => exact declares_misplaced (.inr h)
termination_by s.size

end Plan

end Dataflow
