import Dataflow.Arena.Lemmas
import Dataflow.Proofs.Declare

/-!
# The layout of a wired plan

Wiring numbers the nodes of a plan from the number it starts with, each node before its parts and
the parts in the order of wiring. So the number of every node, the listeners it is given and the
slots it names are known beforehand: `sites` lists them, and `heard` lists what is added to channels.
`lays_wire` says that wiring makes exactly these nodes, and when it succeeds.
-/

namespace Dataflow

/-! ## Arenas from which nothing was removed -/

/-- The slot of the node with the given number. -/
def slotAt (i : Nat) : SlotId := ⟨i, 0⟩

@[simp] theorem slotAt_inj {i j : Nat} : slotAt i = slotAt j ↔ i = j := by simp [slotAt]

namespace Arena

variable {ν : Type}

/-- An arena with the given number of nodes, from which no node was ever removed. -/
structure Dense (a : Arena ν) (n : Nat) : Prop where
  free_eq : a.free = []
  live_eq : a.live = n
  size_eq : a.entries.size = n
  entry : ∀ i, i < n → ∃ node, a.entries[i]? = some ⟨0, some node⟩

namespace Dense

variable {a : Arena ν} {n : Nat}

protected theorem empty : (empty : Arena ν).Dense 0 := ⟨rfl, rfl, rfl, by simp⟩

/-- Nothing is free in a dense arena, so its list of free entries is in order. -/
theorem wellFormed (h : a.Dense n) : a.WellFormed where
  free_nodup := by simp [h.free_eq]
  mem_free_iff i := by
    rw [h.free_eq]
    constructor
    · simp
    · rintro ⟨e, he, hnone⟩
      obtain ⟨hi, -⟩ := Array.getElem?_eq_some_iff.1 he
      obtain ⟨node, hnode⟩ := h.entry i (h.size_eq ▸ hi)
      rw [hnode] at he
      cases he
      cases hnone
  live_eq := by
    -- Every entry has a node, so as many are in use as there are.
    rw [h.live_eq, ← h.size_eq, eq_comm, Array.countP_eq_size]
    intro e he
    obtain ⟨i, hi, rfl⟩ := Array.mem_iff_getElem.1 he
    obtain ⟨node, hnode⟩ := h.entry i (h.size_eq ▸ hi)
    rw [Array.getElem?_eq_getElem hi, Option.some.injEq] at hnode
    rw [hnode]
    rfl

/-- Exactly the slots of the first numbers are in use. -/
theorem get?_isSome_iff (h : a.Dense n) {slot : SlotId} :
    (a.get? slot).isSome ↔ ∃ i, i < n ∧ slot = slotAt i := by
  rw [Option.isSome_iff_exists]
  constructor
  · rintro ⟨node, hnode⟩
    have he := get?_eq_some_iff.1 hnode
    obtain ⟨hi, -⟩ := Array.getElem?_eq_some_iff.1 he
    have hi : slot.index < n := h.size_eq ▸ hi
    obtain ⟨other, hother⟩ := h.entry slot.index hi
    rw [he] at hother
    refine ⟨slot.index, hi, ?_⟩
    obtain ⟨index, generation⟩ := slot
    simp_all [slotAt]
  · rintro ⟨i, hi, rfl⟩
    obtain ⟨node, hnode⟩ := h.entry i hi
    exact ⟨node, get?_eq_some_iff.2 hnode⟩

/-- The next node gets the next number. -/
theorem nextSlot (h : a.Dense n) : a.nextSlot = slotAt n := by
  simp [Arena.nextSlot, h.free_eq, h.size_eq, slotAt]

/-- A node that is added takes the next number. -/
theorem alloc (h : a.Dense n) (node : ν) : (a.alloc node).Dense (n + 1) := by
  have hentries : (a.alloc node).entries = a.entries.push ⟨0, some node⟩ := by
    simp [Arena.alloc, h.free_eq]
  refine ⟨by simp [Arena.alloc, h.free_eq], by simp [Arena.alloc, h.free_eq, h.live_eq],
    by simp [hentries, h.size_eq], fun i hi => ?_⟩
  rw [hentries, Array.getElem?_push, h.size_eq]
  by_cases hin : i = n
  · exact ⟨node, by simp [hin]⟩
  · rw [if_neg hin]
    exact h.entry i (by omega)

/-- To replace a node leaves the arena dense. -/
theorem set (h : a.Dense n) (slot : SlotId) (node : ν) : (a.set slot node).Dense n := by
  unfold Arena.set
  split
  · refine ⟨h.free_eq, h.live_eq, by simp [setNode, h.size_eq], fun i hi => ?_⟩
    obtain ⟨old, hold⟩ := h.entry i hi
    simp only [setNode, Array.getElem?_modify, hold, Option.map_some]
    split
    · exact ⟨node, rfl⟩
    · exact ⟨old, rfl⟩
  · exact h

/-- Earlier numbers keep their nodes when one is added. -/
theorem get?_alloc_of_lt (h : a.Dense n) {i : Nat} (hi : i < n) (node : ν) :
    (a.alloc node).get? (slotAt i) = a.get? (slotAt i) := by
  refine get?_alloc_of_ne h.wellFormed ?_ node
  rw [h.nextSlot, ne_eq, slotAt_inj]
  omega

theorem get?_alloc_last (h : a.Dense n) (node : ν) : (a.alloc node).get? (slotAt n) = some node := by
  rw [← h.nextSlot]
  exact get?_alloc_self h.wellFormed node

end Dense

end Arena

namespace Plan

/-! ## Induction on plans -/

/-- What holds of a plan if it holds of its parts holds of every plan. -/
@[elab_as_elim]
theorem induct {motive : Plan → Prop}
    (component : ∀ consumers producers, (∀ plan, Consumer.node plan ∈ consumers → motive plan) →
      (∀ plan, Producer.node plan ∈ producers → motive plan) →
      motive (.component consumers producers))
    (conditional : ∀ conditions positive negative?, (∀ plan ∈ conditions, motive plan) →
      motive positive → (∀ plan, negative? = some plan → motive plan) →
      motive (.conditional conditions positive negative?))
    (constant : ∀ value, motive (.constant value))
    (leaf : ∀ spec state?, (∀ plan, state? = some plan → motive plan) → motive (.leaf spec state?)) :
    ∀ plan, motive plan
  | .component consumers producers =>
    component consumers producers
      (fun plan h =>
        have := List.sizeOf_lt_of_mem h
        induct component conditional constant leaf plan)
      (fun plan h =>
        have := List.sizeOf_lt_of_mem h
        induct component conditional constant leaf plan)
  | .conditional conditions positive negative? =>
    conditional conditions positive negative?
      (fun plan h =>
        have := List.sizeOf_lt_of_mem h
        induct component conditional constant leaf plan)
      (induct component conditional constant leaf positive)
      (fun plan _ => induct component conditional constant leaf plan)
  | .constant value => constant value
  | .leaf spec state? =>
    leaf spec state? (fun plan _ => induct component conditional constant leaf plan)
termination_by plan => sizeOf plan
decreasing_by all_goals (subst_vars; simp_all; try omega)

/-! ## Numbers -/

mutual

/-- The number of nodes of a plan. -/
def size : Plan → Nat
  | .component consumers producers => 1 + consumersSize consumers + producersSize producers
  | .conditional conditions positive negative? =>
    1 + positive.size + optionalSize negative? + listSize conditions
  | .constant _ => 1
  | .leaf _ state? => 1 + optionalSize state?

/-- The number of nodes of consumers. -/
def consumersSize : List Consumer → Nat
  | [] => 0
  | .broadcast _ :: rest => consumersSize rest
  | .node plan :: rest => plan.size + consumersSize rest

/-- The number of nodes of producers. -/
def producersSize : List Producer → Nat
  | [] => 0
  | .listener _ :: rest => producersSize rest
  | .node plan :: rest => plan.size + producersSize rest

/-- The number of nodes of a list of plans. -/
def listSize : List Plan → Nat
  | [] => 0
  | plan :: rest => plan.size + listSize rest

/-- The number of nodes of a plan that may be absent. -/
def optionalSize : Option Plan → Nat
  | none => 0
  | some plan => plan.size

end

/-- The listeners of a component's consumers, numbered from the given number. -/
def targets (i : Nat) : List Consumer → List Listener
  | [] => []
  | .broadcast channel :: rest => .broadcast channel :: targets i rest
  | .node plan :: rest => .input (slotAt i) :: targets (i + plan.size) rest

/-- The slots of a component's producers, numbered from the given number. -/
def producerSlots (i : Nat) : List Producer → List SlotId
  | [] => []
  | .listener _ :: rest => producerSlots i rest
  | .node plan :: rest => slotAt i :: producerSlots (i + plan.size) rest

/-- The slots of a list of plans, numbered from the given number. -/
def slotsOf (i : Nat) : List Plan → List SlotId
  | [] => []
  | plan :: rest => slotAt i :: slotsOf (i + plan.size) rest

/-- A place of a plan: its number, where its output goes, and the plan from there on. -/
structure Site where
  number : Nat
  outputs : List Listener
  plan : Plan

mutual

/-- The places of a plan that is numbered from the given number, in that order. -/
def sites (i : Nat) (outputs : List Listener) : Plan → List Site
  | .component consumers producers =>
    ⟨i, outputs, .component consumers producers⟩ ::
      (consumerSites (i + 1) i consumers ++
        producerSites (i + 1 + consumersSize consumers) (targets (i + 1) consumers) producers)
  | .conditional conditions positive negative? =>
    ⟨i, outputs, .conditional conditions positive negative?⟩ ::
      (sites (i + 1) [.output (slotAt i)] positive ++
        optionalSites (i + 1 + positive.size) [.output (slotAt i)] negative? ++
        listSites (i + 1 + positive.size + optionalSize negative?) conditions)
  | .constant value => [⟨i, outputs, .constant value⟩]
  | .leaf spec state? =>
    ⟨i, outputs, .leaf spec state?⟩ :: optionalSites (i + 1) [.state (slotAt i)] state?

/-- The places of the consumers of a component. -/
def consumerSites (i owner : Nat) : List Consumer → List Site
  | [] => []
  | .broadcast _ :: rest => consumerSites i owner rest
  | .node plan :: rest =>
    sites i [.output (slotAt owner)] plan ++ consumerSites (i + plan.size) owner rest

/-- The places of the producers of a component. -/
def producerSites (i : Nat) (outputs : List Listener) : List Producer → List Site
  | [] => []
  | .listener _ :: rest => producerSites i outputs rest
  | .node plan :: rest => sites i outputs plan ++ producerSites (i + plan.size) outputs rest

/-- The places of conditions. -/
def listSites (i : Nat) : List Plan → List Site
  | [] => []
  | plan :: rest => sites i [] plan ++ listSites (i + plan.size) rest

/-- The places of a plan that may be absent. -/
def optionalSites (i : Nat) (outputs : List Listener) : Option Plan → List Site
  | none => []
  | some plan => sites i outputs plan

end

mutual

/-- What the listeners of a plan hear, in the order of wiring: the key and who hears it. -/
def heard (i : Nat) : Plan → List (String × List Listener)
  | .component consumers producers =>
    consumersHeard (i + 1) consumers ++
      producersHeard (i + 1 + consumersSize consumers) (targets (i + 1) consumers) producers
  | .conditional conditions positive negative? =>
    heard (i + 1) positive ++ optionalHeard (i + 1 + positive.size) negative? ++
      listHeard (i + 1 + positive.size + optionalSize negative?) conditions
  | .constant _ => []
  | .leaf _ state? => optionalHeard (i + 1) state?

/-- `heard` for the consumers of a component. -/
def consumersHeard (i : Nat) : List Consumer → List (String × List Listener)
  | [] => []
  | .broadcast _ :: rest => consumersHeard i rest
  | .node plan :: rest => heard i plan ++ consumersHeard (i + plan.size) rest

/-- `heard` for the producers of a component. -/
def producersHeard (i : Nat) (outputs : List Listener) :
    List Producer → List (String × List Listener)
  | [] => []
  | .listener key :: rest => (key, outputs) :: producersHeard i outputs rest
  | .node plan :: rest => heard i plan ++ producersHeard (i + plan.size) outputs rest

/-- `heard` for a list of plans. -/
def listHeard (i : Nat) : List Plan → List (String × List Listener)
  | [] => []
  | plan :: rest => heard i plan ++ listHeard (i + plan.size) rest

/-- `heard` for a plan that may be absent. -/
def optionalHeard (i : Nat) : Option Plan → List (String × List Listener)
  | none => []
  | some plan => heard i plan

end

mutual

/-- A plan has as many places as it has nodes. -/
theorem length_sites (i : Nat) (outputs : List Listener) :
    ∀ plan : Plan, (sites i outputs plan).length = plan.size
  | .component consumers producers => by
    rw [sites, size, List.length_cons, List.length_append, length_consumerSites,
      length_producerSites]
    omega
  | .conditional conditions positive negative? => by
    rw [sites, size, List.length_cons, List.length_append, List.length_append, length_sites,
      length_optionalSites, length_listSites]
    omega
  | .constant _ => rfl
  | .leaf _ state? => by
    rw [sites, size, List.length_cons, length_optionalSites, Nat.add_comm]

theorem length_consumerSites (i owner : Nat) :
    ∀ consumers, (consumerSites i owner consumers).length = consumersSize consumers
  | [] => rfl
  | .broadcast _ :: rest => by
    rw [consumerSites, consumersSize, length_consumerSites]
  | .node plan :: rest => by
    rw [consumerSites, consumersSize, List.length_append, length_sites, length_consumerSites]

theorem length_producerSites (i : Nat) (outputs : List Listener) :
    ∀ producers, (producerSites i outputs producers).length = producersSize producers
  | [] => rfl
  | .listener _ :: rest => by
    rw [producerSites, producersSize, length_producerSites]
  | .node plan :: rest => by
    rw [producerSites, producersSize, List.length_append, length_sites, length_producerSites]

theorem length_listSites (i : Nat) : ∀ plans, (listSites i plans).length = listSize plans
  | [] => rfl
  | plan :: rest => by
    rw [listSites, listSize, List.length_append, length_sites, length_listSites]

theorem length_optionalSites (i : Nat) (outputs : List Listener) :
    ∀ plan?, (optionalSites i outputs plan?).length = optionalSize plan?
  | none => rfl
  | some plan => by
    rw [optionalSites, optionalSize, length_sites]

end

/-! ## What wiring makes -/

section Lays

variable {π κ : Type} (registry : Registry π κ) (scope : Scope)

/-- The kind of the node that wiring makes of a plan with the given number. -/
def kindAt (i : Nat) : Plan → Except BuildError (NodeKind π κ)
  | .component consumers producers =>
    .ok (.composite (producerSlots (i + 1 + consumersSize consumers) producers))
  | .conditional conditions positive negative? =>
    .ok (.conditional (slotsOf (i + 1 + positive.size + optionalSize negative?) conditions)
      (slotAt (i + 1)) (negative?.map fun _ => slotAt (i + 1 + positive.size)))
  | .constant value => .ok (.constant value)
  | .leaf spec _ => makeLeaf registry spec

/-- Whether an arena has at a place the node that wiring makes there. -/
def Site.Made (a : Arena (Node π κ)) (site : Site) : Prop :=
  ∃ kind, site.plan.kindAt registry site.number = .ok kind ∧
    a.get? (slotAt site.number) = some (.fresh kind site.outputs)

/-- The slots of the constants among places. -/
def constantSlots (sites : List Site) : List SlotId :=
  sites.filterMap fun site =>
    match site.plan with
    | .constant _ => some (slotAt site.number)
    | _ => none

/-- Adds what is heard to the channels of the keys. -/
def hear (channels : Channels) (hears : List (String × List Listener)) : Channels :=
  hears.foldl (fun channels (key, listeners) =>
    (scope.find? key).elim channels (channels.listen · listeners)) channels

/-- Whether every leaf can be made and every key that is heard is known. -/
def Makable (sites : List Site) (hears : List (String × List Listener)) : Prop :=
  (∀ site ∈ sites, ∃ kind, site.plan.kindAt registry site.number = .ok kind) ∧
    ∀ h ∈ hears, ∃ channel, scope.find? h.1 = some channel

/-- Wiring has gone on from the given number, made the places and added what is heard, and left
everything else as it was. -/
structure Laid (n : Nat) (sites : List Site) (hears : List (String × List Listener))
    (w w' : Wired π κ) : Prop where
  dense : w'.arena.Dense (n + sites.length)
  kept : ∀ i, i < n → w'.arena.get? (slotAt i) = w.arena.get? (slotAt i)
  made : ∀ site ∈ sites, site.Made registry w'.arena
  constants : w'.constants = w.constants ++ constantSlots sites
  channels : w'.channels = hear scope w.channels hears

/-- The places are numbered from the given number on. -/
def Numbered (n : Nat) (sites : List Site) : Prop :=
  ∀ site ∈ sites, n ≤ site.number ∧ site.number < n + sites.length

/-- An act of wiring that starts with the given number succeeds exactly if it can make its places
and hear its keys, and then does so. -/
structure Lays {β : Type} (act : Wire π κ β) (n : Nat) (b : β) (sites : List Site)
    (hears : List (String × List Listener)) : Prop where
  numbered : Numbered n sites
  succeeds : Makable registry scope sites hears → ∀ w : Wired π κ, w.arena.Dense n →
    ∃ c w', act.run w = .ok (c, w')
  sound : ∀ {w c w'}, w.arena.Dense n → act.run w = .ok (c, w') →
    Makable registry scope sites hears ∧ c = b ∧ Laid registry scope n sites hears w w'

variable {registry scope}

/-- Places can be made and keys heard together if they can be apart. -/
theorem makable_append {sites sites' : List Site} {hears hears' : List (String × List Listener)} :
    Makable registry scope (sites ++ sites') (hears ++ hears') ↔
      Makable registry scope sites hears ∧ Makable registry scope sites' hears' := by
  simp only [Makable, List.mem_append]
  grind

/-- Places that follow on each other are numbered on. -/
theorem Numbered.append {n : Nat} {sites sites' : List Site} (h : Numbered n sites)
    (h' : Numbered (n + sites.length) sites') : Numbered n (sites ++ sites') := by
  intro site hsite
  rw [List.length_append]
  rcases List.mem_append.1 hsite with hsite | hsite
  · have := h site hsite
    omega
  · have := h' site hsite
    omega

theorem Laid.refl {n : Nat} {w : Wired π κ} (h : w.arena.Dense n) :
    Laid registry scope n [] [] w w where
  dense := h
  kept _ _ := rfl
  made := by simp
  constants := by simp [constantSlots]
  channels := rfl

/-- What is laid later starts where the first has ended, and touches nothing of it. -/
theorem Laid.trans {n : Nat} {sites sites' : List Site}
    {hears hears' : List (String × List Listener)} {w w' w'' : Wired π κ}
    (hn : Numbered n sites) (h : Laid registry scope n sites hears w w')
    (h' : Laid registry scope (n + sites.length) sites' hears' w' w'') :
    Laid registry scope n (sites ++ sites') (hears ++ hears') w w'' where
  dense := by
    rw [List.length_append, ← Nat.add_assoc]
    exact h'.dense
  kept i hi := (h'.kept i (by omega)).trans (h.kept i hi)
  made site hsite := by
    rcases List.mem_append.1 hsite with hmem | hmem
    · obtain ⟨kind, hkind, hget⟩ := h.made site hmem
      exact ⟨kind, hkind, (h'.kept _ (hn site hmem).2).trans hget⟩
    · exact h'.made site hmem
  constants := by
    rw [h'.constants, h.constants, List.append_assoc, constantSlots, constantSlots, constantSlots,
      List.filterMap_append]
  channels := by
    rw [h'.channels, h.channels, hear, hear, hear, List.foldl_append]

namespace Lays

variable {β γ : Type}

theorem pure (n : Nat) (b : β) : Lays registry scope (Pure.pure b) n b [] [] where
  numbered := by simp [Numbered]
  succeeds _ w _ := ⟨b, w, rfl⟩
  sound hdense hrun := by
    cases run_pure_eq_ok_iff.1 hrun
    exact ⟨⟨by simp, by simp⟩, rfl, .refl hdense⟩

/-- Acts of wiring follow on each other: the second starts with the number that the first has reached. -/
theorem bind {act : Wire π κ β} {f : β → Wire π κ γ} {n : Nat} {b : β} {c : γ}
    {sites sites' : List Site} {hears hears' : List (String × List Listener)}
    (h : Lays registry scope act n b sites hears)
    (h' : Lays registry scope (f b) (n + sites.length) c sites' hears') :
    Lays registry scope (act >>= f) n c (sites ++ sites') (hears ++ hears') where
  numbered := h.numbered.append h'.numbered
  succeeds hmakable w hdense := by
    obtain ⟨hm, hm'⟩ := makable_append.1 hmakable
    -- The first act comes to a known result, so the second starts with the number it is laid out for.
    obtain ⟨_, w₁, hrun⟩ := h.succeeds hm w hdense
    obtain ⟨-, rfl, hlaid⟩ := h.sound hdense hrun
    obtain ⟨c, w₂, hrun'⟩ := h'.succeeds hm' w₁ hlaid.dense
    exact ⟨c, w₂, run_bind_eq_ok_iff.2 ⟨_, w₁, hrun, hrun'⟩⟩
  sound hdense hrun := by
    obtain ⟨_, w₁, hrun, hrun'⟩ := run_bind_eq_ok_iff.1 hrun
    obtain ⟨hm, rfl, hlaid⟩ := h.sound hdense hrun
    obtain ⟨hm', rfl, hlaid'⟩ := h'.sound hlaid.dense hrun'
    exact ⟨makable_append.2 ⟨hm, hm'⟩, rfl, hlaid.trans h.numbered hlaid'⟩

/-- The result of an act, under a function. -/
theorem map {act : Wire π κ β} {n : Nat} {b : β} {sites : List Site}
    {hears : List (String × List Listener)} (h : Lays registry scope act n b sites hears)
    (f : β → γ) :
    Lays registry scope (do return f (← act)) n (f b) sites hears := by
  have := Lays.bind (f := fun b => Pure.pure (f b)) h (Lays.pure (n + sites.length) (f b))
  rwa [List.append_nil, List.append_nil] at this

/-- To listen makes no place, and fails only if the key is not known. -/
theorem listen (n : Nat) (key : String) (listeners : List Listener) :
    Lays registry scope (Plan.listen scope key listeners) n () [] [(key, listeners)] where
  numbered := by simp [Numbered]
  succeeds hmakable w hdense := by
    obtain ⟨channel, hfind⟩ := hmakable.2 _ (List.mem_singleton.2 rfl)
    simp only [Plan.listen, Scope.lookup, hfind]
    exact ⟨_, _, rfl⟩
  sound {w c w'} hdense hrun := by
    cases hfind : scope.find? key with
    | none =>
      simp only [Plan.listen, Scope.lookup, hfind] at hrun
      exact (run_throw_ne_ok hrun).elim
    | some channel =>
      simp only [Plan.listen, Scope.lookup, hfind] at hrun
      cases hrun
      refine ⟨⟨by simp, by simp [hfind]⟩, rfl, hdense, fun _ _ => rfl, by simp,
        by simp [constantSlots], ?_⟩
      simp [hear, hfind]

end Lays

/-- A node that takes its slot before its parts do and has its kind in the end. -/
theorem Laid.around {n : Nat} {plan : Plan} {kind₀ kind : NodeKind π κ} {outputs : List Listener}
    {sites : List Site} {hears : List (String × List Listener)} {w w₁ w' : Wired π κ}
    (hdense : w.arena.Dense n) (hn : Numbered (n + 1) sites)
    (h : Laid registry scope (n + 1) sites hears
      { w with arena := w.arena.alloc (.fresh kind₀ outputs) } w₁)
    (hkind : plan.kindAt registry n = .ok kind) (hplan : ∀ v, plan ≠ .constant v)
    (hdense' : w'.arena.Dense (n + 1 + sites.length))
    (hself : w'.arena.get? (slotAt n) = some (.fresh kind outputs))
    (hothers : ∀ i, i ≠ n → w'.arena.get? (slotAt i) = w₁.arena.get? (slotAt i))
    (hconstants : w'.constants = w₁.constants) (hchannels : w'.channels = w₁.channels) :
    Laid registry scope n (⟨n, outputs, plan⟩ :: sites) hears w w' where
  dense := by
    rw [List.length_cons, ← Nat.add_assoc, Nat.add_right_comm]
    exact hdense'
  kept i hi := by
    rw [hothers i (by omega), h.kept i (by omega)]
    exact hdense.get?_alloc_of_lt hi _
  made site hsite := by
    rcases List.mem_cons.1 hsite with rfl | hsite
    · exact ⟨kind, hkind, hself⟩
    · obtain ⟨k, hk, hget⟩ := h.made site hsite
      refine ⟨k, hk, ?_⟩
      rw [hothers site.number (by have := hn site hsite; omega), hget]
  constants := by
    rw [hconstants, h.constants]
    cases plan with
    | constant v => exact absurd rfl (hplan v)
    | _ => rfl
  channels := hchannels.trans h.channels

/-- A node that is made first has the number before those of its inner nodes. -/
theorem Numbered.cons {n : Nat} {sites : List Site} (h : Numbered (n + 1) sites)
    (outputs : List Listener) (plan : Plan) : Numbered n (⟨n, outputs, plan⟩ :: sites) := by
  intro site hsite
  rw [List.length_cons]
  rcases List.mem_cons.1 hsite with rfl | hsite
  · dsimp only
    omega
  · have := h site hsite
    omega

/-- Whether places can be made does not depend on a node that can be. -/
theorem makable_cons {n : Nat} {outputs : List Listener} {plan : Plan} {kind : NodeKind π κ}
    {sites : List Site} {hears : List (String × List Listener)}
    (hkind : plan.kindAt registry n = .ok kind) :
    Makable registry scope (⟨n, outputs, plan⟩ :: sites) hears ↔
      Makable registry scope sites hears := by
  simp [Makable, hkind]

theorem run_setKind {slot : SlotId} (kind : NodeKind π κ) {w : Wired π κ} {node : Node π κ}
    (h : w.arena.get? slot = some node) :
    (setKind slot kind).run w =
      .ok ((), { w with arena := w.arena.set slot { node with kind } }) := by
  show Except.ok ((), _) = _
  dsimp only
  rw [h]

namespace Lays

variable {β : Type} {n : Nat} {b : β} {plan : Plan} {outputs : List Listener} {sites : List Site}
  {hears : List (String × List Listener)}

/-- A node whose kind is set when its parts are there. -/
theorem around (plan : Plan) (kindOf : β → NodeKind π κ) (inner : SlotId → Wire π κ β)
    (outputs : List Listener)
    (h : Lays registry scope (inner (slotAt n)) (n + 1) b sites hears)
    (hkind : plan.kindAt registry n = .ok (kindOf b)) (hplan : ∀ v, plan ≠ .constant v) :
    Lays registry scope (do
        let slot ← Plan.alloc .placeholder outputs
        let b ← inner slot
        Plan.setKind slot (kindOf b)
        return slot)
      n (slotAt n) (⟨n, outputs, plan⟩ :: sites) hears := by
  -- Wiring the parts leaves the placeholder in its slot.
  have hself : ∀ {w w₁ : Wired π κ}, w.arena.Dense n →
      Laid registry scope (n + 1) sites hears
        { w with arena := w.arena.alloc (.fresh .placeholder outputs) } w₁ →
      w₁.arena.get? (slotAt n) = some (.fresh .placeholder outputs) := by
    intro w w₁ hdense hlaid
    rw [hlaid.kept n (by omega)]
    exact hdense.get?_alloc_last _
  refine ⟨h.numbered.cons outputs plan, fun hmakable w hdense => ?_, fun {w c w'} hdense hrun => ?_⟩
  · obtain ⟨c, w₁, hrun⟩ := h.succeeds ((makable_cons hkind).1 hmakable)
      { w with arena := w.arena.alloc (.fresh .placeholder outputs) } (hdense.alloc _)
    obtain ⟨-, -, hlaid⟩ := h.sound (hdense.alloc _) hrun
    have hset := run_setKind (kindOf c) (hself hdense hlaid)
    rw [← hdense.nextSlot] at hrun hset
    exact ⟨_, _, run_bind_eq_ok_iff.2 ⟨_, _, rfl, run_bind_eq_ok_iff.2 ⟨c, w₁, hrun,
      run_bind_eq_ok_iff.2 ⟨(), _, hset, run_pure_eq_ok_iff.2 rfl⟩⟩⟩⟩
  · obtain ⟨_, _, halloc, hrun⟩ := run_bind_eq_ok_iff.1 hrun
    cases halloc
    rw [hdense.nextSlot] at hrun
    obtain ⟨_, w₁, hrun₁, hrun⟩ := run_bind_eq_ok_iff.1 hrun
    obtain ⟨hmakable, rfl, hlaid⟩ := h.sound (hdense.alloc _) hrun₁
    obtain ⟨_, _, hset, hrun⟩ := run_bind_eq_ok_iff.1 hrun
    rw [run_setKind _ (hself hdense hlaid)] at hset
    cases hset
    cases run_pure_eq_ok_iff.1 hrun
    refine ⟨(makable_cons hkind).2 hmakable, rfl,
      .around hdense h.numbered hlaid hkind hplan (hlaid.dense.set _ _) ?_ ?_ rfl rfl⟩
    · exact Arena.get?_set_self (hself hdense hlaid) _
    · intro i hi
      exact Arena.get?_set_of_ne (by rwa [ne_eq, slotAt_inj]) _

/-- A leaf is made first, and then the nodes of its state, whose values go to its cell. -/
theorem leaf {spec : SpecNode} {state? : Option Plan} (inner : SlotId → Wire π κ β)
    (outputs : List Listener)
    (h : Lays registry scope (inner (slotAt n)) (n + 1) b sites hears) :
    Lays registry scope (do
        let kind ← makeLeaf registry spec
        let slot ← Plan.alloc kind outputs
        discard (inner slot)
        return slot)
      n (slotAt n) (⟨n, outputs, .leaf spec state?⟩ :: sites) hears := by
  refine ⟨h.numbered.cons outputs _, fun hmakable w hdense => ?_, fun {w c w'} hdense hrun => ?_⟩
  -- The leaf has to be made before its state is wired.
  · obtain ⟨kind, hkind⟩ := hmakable.1 _ (List.mem_cons_self ..)
    obtain ⟨c, w₁, hrun⟩ := h.succeeds ((makable_cons hkind).1 hmakable)
      { w with arena := w.arena.alloc (.fresh kind outputs) } (hdense.alloc _)
    rw [← hdense.nextSlot] at hrun
    exact ⟨_, _, run_bind_eq_ok_iff.2 ⟨kind, w, run_lift_eq_ok_iff.2 ⟨kind, hkind, rfl⟩,
      run_bind_eq_ok_iff.2 ⟨_, _, rfl, run_bind_eq_ok_iff.2 ⟨(), w₁,
        run_discard_eq_ok_iff.2 ⟨c, hrun⟩, run_pure_eq_ok_iff.2 rfl⟩⟩⟩⟩
  · obtain ⟨kind, _, hlift, hrun⟩ := run_bind_eq_ok_iff.1 hrun
    obtain ⟨_, hmake, ⟨⟩⟩ := run_lift_eq_ok_iff.1 hlift
    have hkind : (Plan.leaf spec state?).kindAt registry n = .ok kind := hmake
    obtain ⟨_, _, halloc, hrun⟩ := run_bind_eq_ok_iff.1 hrun
    cases halloc
    rw [hdense.nextSlot] at hrun
    obtain ⟨_, w₁, hinner, hrun⟩ := run_bind_eq_ok_iff.1 hrun
    obtain ⟨_, hrun₁⟩ := run_discard_eq_ok_iff.1 hinner
    cases run_pure_eq_ok_iff.1 hrun
    obtain ⟨hmakable, -, hlaid⟩ := h.sound (hdense.alloc _) hrun₁
    refine ⟨(makable_cons hkind).2 hmakable, rfl,
      .around hdense h.numbered hlaid hkind (by simp) hlaid.dense ?_ (fun _ _ => rfl) rfl rfl⟩
    rw [hlaid.kept n (by omega)]
    exact hdense.get?_alloc_last _

/-- A constant is made, and noted as one that is to be sent out. -/
theorem constant (outputs : List Listener) (v : Value) :
    Lays registry scope (do
        let slot ← Plan.alloc (.constant v) outputs
        modify fun w => { w with constants := w.constants ++ [slot] }
        return slot)
      n (slotAt n) [⟨n, outputs, .constant v⟩] [] where
  numbered := by simp [Numbered]
  succeeds _ w _ := ⟨_, _, rfl⟩
  sound {w c w'} hdense hrun := by
    cases hrun
    refine ⟨⟨by simp [kindAt], by simp⟩, hdense.nextSlot, hdense.alloc _, ?_, ?_, ?_, rfl⟩
    · exact fun i hi => hdense.get?_alloc_of_lt hi _
    · intro site hsite
      cases List.mem_singleton.1 hsite
      exact ⟨_, rfl, hdense.get?_alloc_last _⟩
    · rw [hdense.nextSlot]
      rfl

end Lays

/-! ## The layout of a plan -/

/-- What wiring is to do for a plan. -/
abbrev LaysPlan (registry : Registry π κ) (scope : Scope) (plan : Plan) : Prop :=
  ∀ outputs n, Lays registry scope (wire registry scope outputs plan) n (slotAt n)
    (sites n outputs plan) (heard n plan)

/-- Consumers are laid in order, and their outputs go to the component. -/
theorem lays_wireConsumers {consumers : List Consumer}
    (ih : ∀ plan, .node plan ∈ consumers → LaysPlan registry scope plan) (owner n : Nat) :
    Lays registry scope (wireConsumers registry scope (slotAt owner) consumers) n
      (targets n consumers) (consumerSites n owner consumers) (consumersHeard n consumers) := by
  induction consumers generalizing n with
  | nil => exact .pure n []
  | cons consumer rest ihr =>
    have ihr := ihr fun plan hplan => ih plan (List.mem_cons_of_mem _ hplan)
    cases consumer with
    | broadcast channel => exact (Lays.pure n _).bind ((ihr n).map _)
    | node plan =>
      have hplan := ih plan (List.mem_cons_self ..) [.output (slotAt owner)] n
      refine (hplan.map Listener.input).bind (Lays.map ?_ _)
      rw [length_sites]
      exact ihr _

/-- Producers are laid in order, and a listener among them hears its key for the component's targets. -/
theorem lays_wireProducers {producers : List Producer}
    (ih : ∀ plan, .node plan ∈ producers → LaysPlan registry scope plan)
    (outputs : List Listener) (n : Nat) :
    Lays registry scope (wireProducers registry scope outputs producers) n
      (producerSlots n producers) (producerSites n outputs producers)
      (producersHeard n outputs producers) := by
  induction producers generalizing n with
  | nil => exact .pure n []
  | cons producer rest ihr =>
    have ihr := ihr fun plan hplan => ih plan (List.mem_cons_of_mem _ hplan)
    cases producer with
    | listener key =>
      have hlisten : Lays registry scope (wireProducer registry scope outputs (.listener key)) n
          none [] [(key, outputs)] := (Lays.listen n key outputs).bind (Lays.pure n none)
      exact hlisten.bind ((ihr n).map _)
    | node plan =>
      have hplan := ih plan (List.mem_cons_self ..) outputs n
      refine (hplan.map some).bind (Lays.map ?_ _)
      rw [length_sites]
      exact ihr _

/-- Conditions are laid in order, and their outputs go nowhere. -/
theorem lays_wireAll {plans : List Plan} (ih : ∀ plan ∈ plans, LaysPlan registry scope plan)
    (n : Nat) :
    Lays registry scope (wireAll registry scope [] plans) n (slotsOf n plans) (listSites n plans)
      (listHeard n plans) := by
  induction plans generalizing n with
  | nil => exact .pure n []
  | cons plan rest ihr =>
    have hplan := ih plan (List.mem_cons_self ..) [] n
    refine hplan.bind (Lays.map ?_ _)
    rw [length_sites]
    exact ihr (fun plan hplan => ih plan (List.mem_cons_of_mem _ hplan)) _

/-- A plan that may be absent is laid if it is there. -/
theorem lays_wireOptional {plan? : Option Plan}
    (ih : ∀ plan, plan? = some plan → LaysPlan registry scope plan)
    (outputs : List Listener) (n : Nat) :
    Lays registry scope (wireOptional registry scope outputs plan?) n
      (plan?.map fun _ => slotAt n) (optionalSites n outputs plan?) (optionalHeard n plan?) := by
  cases plan? with
  | none => exact .pure n none
  | some plan => exact (ih plan rfl outputs n).map some

/-- **Wiring.** Wiring a plan makes the places of its layout and adds what they hear, and succeeds
exactly if it can. -/
theorem lays_wire (plan : Plan) : LaysPlan registry scope plan := by
  induction plan using Plan.induct with
  | component consumers producers ihc ihp =>
    intro outputs n
    have hc := lays_wireConsumers ihc n (n + 1)
    have hp := lays_wireProducers ihp (targets (n + 1) consumers)
      (n + 1 + (consumerSites (n + 1) n consumers).length)
    have h := Lays.around (.component consumers producers) .composite
      (fun slot => do
        let targets ← wireConsumers registry scope slot consumers
        wireProducers registry scope targets producers) outputs (hc.bind hp)
    -- The act of `wire` is the one above, up to the nesting of its binds.
    rw [length_consumerSites] at h
    simp only [bind_assoc] at h
    rw [wire, sites, heard]
    exact h rfl (by simp)
  | conditional conditions positive negative? ihs ihp ihn =>
    intro outputs n
    have hp := ihp [.output (slotAt n)] (n + 1)
    have hn := lays_wireOptional ihn [.output (slotAt n)]
      (n + 1 + (sites (n + 1) [.output (slotAt n)] positive).length)
    have hs := lays_wireAll ihs (n + 1 + (sites (n + 1) [.output (slotAt n)] positive).length +
      (optionalSites (n + 1 + (sites (n + 1) [.output (slotAt n)] positive).length)
        [.output (slotAt n)] negative?).length)
    have h := Lays.around (.conditional conditions positive negative?)
      (fun b => .conditional b.2.2 b.1 b.2.1)
      (fun slot => do
        let positive ← wire registry scope [.output slot] positive
        let negative? ← wireOptional registry scope [.output slot] negative?
        let conditions ← wireAll registry scope [] conditions
        return (positive, negative?, conditions)) outputs
      (hp.bind (hn.bind (hs.map fun slots => (_, _, slots))))
    rw [length_optionalSites, length_sites] at h
    simp only [bind_assoc, pure_bind, ← List.append_assoc] at h
    rw [wire, sites, heard]
    exact h rfl (by simp)
  | constant value => exact fun outputs n => .constant outputs value
  | leaf spec state? ih =>
    intro outputs n
    exact Lays.leaf (fun slot => wireOptional registry scope [.state slot] state?) outputs
      (lays_wireOptional ih [.state (slotAt n)] (n + 1))

end Lays

end Plan

end Dataflow
