import Mathlib
import Dataflow.Leaf.Catalogue
import Dataflow.Proofs.Tracing
import Dataflow.Proofs.Watching
import Dataflow.Proofs.Wired

/-!
# State is bound before it is read

Activating sends out the constants one by one, and what a constant sends out may set values going in a
graph where other states are not there yet. Still no leaf finds its state missing. Outputs go back
(`Plan.feeds_of_mem`), so the constant of number `c` reaches only what was numbered before it
(`Plan.Before`), and an input runs only nodes all of whose parts come before it; the literal of such a
leaf was sent out already.

The invariant is `Bound`: whatever is numbered before `c` has its state as a watch expects it. It is
kept by every step that the constant of number `c` can lead to, and sending that constant out makes it
hold for `c + 1`.
-/

namespace Dataflow

/-! ## What a step can do to a node -/

namespace Engine

variable {π κ : Type} [Process π]

/-- What becomes of a node in a step. -/
inductive NodeStep (r : Reach) (slot : SlotId) (node node' : Node π κ) : Prop
  | kept (hkind : node'.kind = node.kind) (hstate : node'.state? = node.state?)
  | bound (hreach : r.delivers (.state slot)) (hkind : node'.kind = node.kind)
  | ran {kind : String} {leaf : π} (input : Value) (hreach : r.delivers (.input slot))
    (hkind : node.kind = .process kind leaf) (hnode : node' = ranNode node kind leaf input)

/-- After a step every node is one that was there, as the step has left it. -/
theorem Step.node {r : Reach} {s s' : Engine π κ} (h : Step r s s') {slot : SlotId}
    {node' : Node π κ} (hget' : s'.arena.get? slot = some node') :
    ∃ node, s.arena.get? slot = some node ∧ NodeStep r slot node node' := by
  -- A step overwrites one node at most.
  have hset : ∀ {other : SlotId} {old new : Node π κ}, s.arena.get? other = some old →
      (s.arena.set other new).get? slot = some node' → NodeStep r other old new →
      ∃ node, s.arena.get? slot = some node ∧ NodeStep r slot node node' := by
    intro other old new hold hnew hstep
    by_cases ho : slot = other
    · subst ho
      rw [Arena.get?_set_self hold] at hnew
      cases hnew
      exact ⟨old, hold, hstep⟩
    · rw [Arena.get?_set_of_ne ho] at hnew
      exact ⟨node', hnew, .kept rfl rfl⟩
  cases h with
  | noted value hreach hget => exact hset hget hget' (.kept rfl rfl)
  | bound value hreach hget => exact hset hget hget' (.bound hreach rfl)
  | ran input hreach hget hkind => exact hset hget hget' (.ran input hreach hkind rfl)
  | _ => exact ⟨node', hget', .kept rfl rfl⟩

end Engine

/-! ## What comes before a constant -/

namespace Plan

/-- Whether the plan is a constant. -/
def IsConstant : Plan → Prop
  | .constant _ => True
  | _ => False

/-- A constant has its value. -/
theorem IsConstant.exists_value {plan : Plan} (h : plan.IsConstant) :
    ∃ value, plan = .constant value := by
  cases plan with
  | constant value => exact ⟨value, rfl⟩
  | _ => exact h.elim

/-- A constant is sent out in its turn. -/
theorem constantSlots_cons_of_eq {site : Site} {value : Value} (h : site.plan = .constant value)
    (rest : List Site) :
    constantSlots (site :: rest) = slotAt site.number :: constantSlots rest := by
  simp [constantSlots, h]

/-- What is no constant is passed over. -/
theorem constantSlots_cons_of_not {site : Site} (h : ¬site.plan.IsConstant) (rest : List Site) :
    constantSlots (site :: rest) = constantSlots rest := by
  cases hplan : site.plan with
  | constant value =>
    rw [hplan] at h
    exact absurd trivial h
  | _ => simp [constantSlots, hplan]

/-- Whether the listener is within reach of the constant of the given number: inputs of what was
numbered before it together with all parts, outputs of what is no constant, and states that are no
constants, save for its own output and the state that it is. -/
def Before (root : Plan) (c : Nat) : Listener → Prop
  | .input slot => ∃ site ∈ root.layout, slot = slotAt site.number ∧ site.stop ≤ c
  | .output slot => ∃ site ∈ root.layout, slot = slotAt site.number ∧ site.number ≤ c ∧
    (site.plan.IsConstant → site.number = c)
  | .state slot => ∃ leaf ∈ root.layout, slot = slotAt leaf.number ∧
    ∀ spec literal, leaf.plan = .leaf spec (some (.constant literal)) → leaf.number + 1 = c
  | .broadcast _ | .sink => True

/-- The reach of the constant of the given number. What is put off can wait until all constants have
been sent out. -/
def reachBefore (root : Plan) (c : Nat) : Reach where
  delivers := root.Before c
  asks slot := root.Before c (.input slot)
  defers
    | .deliver _ listeners _ => ∀ listener ∈ listeners, root.Before root.size listener
    | .emit slot _ => root.Before root.size (.output slot)

/-- When all constants were sent out, whatever was put off may be run. -/
theorem drives_reachBefore (root : Plan) : (root.reachBefore root.size).Drives := by
  intro task htask
  cases task <;> exact htask

/-- The parts of a place that ends before a number are within reach of it. -/
theorem before_child {root : Plan} {parent child : Site} {c : Nat} (hmem : parent ∈ root.layout)
    (hstop : parent.stop ≤ c) (hchild : child ∈ parent.children) :
    root.Before c (.input (slotAt child.number)) :=
  ⟨child, child_mem hmem hchild, rfl, Nat.le_trans (Site.child_bounds hchild).2 hstop⟩

/-- What the constant of a number feeds on is within its reach, and so is what was numbered before it. -/
theorem before_of_feeds {root : Plan} {site : Site} {c : Nat} (hnumber : site.number ≤ c)
    (hconstant : site.plan.IsConstant → site.number = c) {listener : Listener}
    (h : Feeds root site listener) : root.Before c listener := by
  cases h with
  | sink => trivial
  | broadcast hmem hbroadcasts => trivial
  | output hmem hinner hchild =>
    rename_i parent
    have hlt := (Site.child_bounds hchild).1
    refine ⟨parent, hmem, rfl, by omega, fun hparent => ?_⟩
    cases hplan : parent.plan <;> rw [hplan] at hinner hparent <;>
      first | exact hinner.elim | exact hparent.elim
  | state hmem hplan hstate =>
    refine ⟨_, hmem, rfl, fun spec literal hleaf => ?_⟩
    rw [hplan, leaf.injEq, Option.some.injEq] at hleaf
    rw [← hstate]
    exact hconstant (by rw [hleaf.2]; trivial)
  | input hmem hstop => exact ⟨_, hmem, rfl, Nat.le_trans hstop hnumber⟩

end Plan

namespace Graph.Assembled

open Plan

variable {π κ : Type} {registry : Registry π κ} {spec : SpecNode} {root : Plan}
  {declared : Declared} {wired : Wired π κ} (h : Assembled registry spec root declared wired)
  (config : Config)

include h

omit h in
/-- What the node of a place leads to is within reach if the place and its parts are. -/
theorem covers_before {site : Site} {c : Nat} (hsite : site ∈ root.layout) (hstop : site.stop ≤ c)
    {kind : NodeKind π κ} (hkind : site.plan.kindAt registry site.number = .ok kind) :
    (root.reachBefore c).Covers (slotAt site.number) kind := by
  have hchild : ∀ child ∈ Site.childrenOf site.number site.plan,
      root.Before c (.input (slotAt child.number)) := fun child => before_child hsite hstop
  have hlt := site.number_lt_stop
  have hout : ∀ {c}, site.stop ≤ c → ¬site.plan.IsConstant →
      root.Before c (.output (slotAt site.number)) := fun hstop hconstant =>
    ⟨site, hsite, rfl, by omega, fun hc => absurd hc hconstant⟩
  have hsize : site.stop ≤ root.size := by
    have := (sites_bounds hsite).2
    omega
  cases hplan : site.plan <;> rw [hplan] at hkind hout hchild
  case component consumers producers =>
    cases hkind
    intro producer hp
    rw [producerSlots_eq] at hp
    obtain ⟨part, hpart, rfl⟩ := List.mem_map.1 hp
    exact hchild _ (Site.producer_mem hpart)
  case conditional conditions positive negative? =>
    cases hkind
    refine ⟨fun condition hcondition => ?_, ?_, fun negative hnegative => ?_⟩
    · rw [slotsOf_eq] at hcondition
      obtain ⟨part, hpart, rfl⟩ := List.mem_map.1 hcondition
      exact hchild _ (Site.condition_mem hpart)
    · exact hchild _ Site.positive_mem
    · obtain ⟨plan, rfl, rfl⟩ := Option.map_eq_some_iff.1 hnegative
      exact hchild _ Site.negative_mem
  case constant value =>
    cases hkind
    trivial
  case leaf t state? =>
    rcases makeLeaf_eq_ok hkind with ⟨-, leaf, rfl⟩ | ⟨-, leaf, rfl⟩
    · exact ⟨hout hstop id, fun _ => hout hsize id⟩
    · exact hout hstop id

/-- What a constant leads to in a wired graph is within its reach. -/
theorem closed_before (c : Nat) : (root.reachBefore c).Closed (engineOf config wired) where
  entered {slot node} hreach hget := by
    obtain ⟨site, hsite, rfl, hstop⟩ := hreach
    obtain ⟨kind, hkind, hnode⟩ := h.get?_of_mem hsite
    rw [show (engineOf config wired).arena.get? (slotAt site.number) = _ from hnode] at hget
    cases hget
    exact covers_before hsite hstop hkind
  relayed {slot node} hreach hget listener hl := by
    obtain ⟨site, hsite, rfl, hnumber, hconstant⟩ := hreach
    obtain ⟨kind, hkind, hnode⟩ := h.get?_of_mem hsite
    rw [show (engineOf config wired).arena.get? (slotAt site.number) = _ from hnode] at hget
    cases hget
    exact before_of_feeds hnumber hconstant (feeds_of_mem hsite listener hl)
  heard _ hget _ listener hl := by
    -- A broadcast is delivered in a later tick, so its listeners may be anywhere.
    rcases h.listener_cases hget hl with ⟨channel, rfl, -⟩ | ⟨consumer, hmem, rfl⟩
    · trivial
    · refine ⟨consumer, hmem, rfl, ?_⟩
      have := (sites_bounds hmem).2
      omega
  queued task ht := by simp [engineOf, Engine.initial] at ht
  pending timer ht := by simp [engineOf, Engine.initial, Clock.initial] at ht

end Graph.Assembled

/-! ## Leaves and what they were made from -/

/-- The process is what runs have made of the given one. -/
inductive Descends {π : Type} [Process π] (made : π) : π → Prop
  | made : Descends made made
  | run {leaf : π} (h : Descends made leaf) (input : Value) (state? : Option Value) :
    Descends made (Process.run leaf input state?).next

section

variable {π κ : Type} [Process π] [Condition κ]

/-- The leaf of a node was made from the specification and put under watch. -/
inductive Stems (registry : Registry π κ) (t : SpecNode) : NodeKind (Watched π) (Watched κ) → Prop
  | process {make : SpecNode → Except LeafError π} {made : π} {w : Watched π}
    (hfind : registry.find? t.kind = some (.process make)) (hmake : make t = .ok made)
    (hleaf : Descends made w.leaf) (hliteral : w.literal? = t.stateLiteral?) :
    Stems registry t (.process t.kind w)
  | condition {make : SpecNode → Except LeafError κ} {w : Watched κ}
    (hfind : registry.find? t.kind = some (.condition make)) (hmake : make t = .ok w.leaf)
    (hliteral : w.literal? = t.stateLiteral?) : Stems registry t (.condition t.kind w)

omit [Condition κ] in
/-- A leaf that was made under watch was made from its specification. -/
theorem stems_of_makeLeaf {registry : Registry π κ} {alarm : LeafError} {t : SpecNode}
    {kind : NodeKind (Watched π) (Watched κ)}
    (h : Plan.makeLeaf (registry.watched alarm) t = .ok kind) : Stems registry t kind := by
  unfold Plan.makeLeaf at h
  rw [Registry.find?_watched] at h
  cases hfind : registry.find? t.kind with
  | none =>
    rw [hfind] at h
    cases h
  | some factory =>
    rw [hfind] at h
    cases factory with
    | process make =>
      simp only [Option.map_some, Factory.watched, Factory.make] at h
      cases hmake : make t with
      | error e =>
        rw [hmake] at h
        cases h
      | ok made =>
        rw [hmake] at h
        cases h
        exact .process hfind hmake .made rfl
    | condition make =>
      simp only [Option.map_some, Factory.watched, Factory.make] at h
      cases hmake : make t with
      | error e =>
        rw [hmake] at h
        cases h
      | ok made =>
        rw [hmake] at h
        cases h
        exact .condition hfind hmake rfl

/-- Whether the leaf of the node, if it is one, expects the node's state. -/
def Node.Expected (node : Node (Watched π) (Watched κ)) : Prop :=
  match node.kind with
  | .process _ w => w.Expects node.state?
  | .condition _ w => w.Expects node.state?
  | _ => True

omit [Process π] [Condition κ] in
/-- What is expected of a node depends on its kind and its state alone. -/
theorem Node.Expected.congr {node node' : Node (Watched π) (Watched κ)} (h : node.Expected)
    (hkind : node'.kind = node.kind) (hstate : node'.state? = node.state?) : node'.Expected := by
  unfold Node.Expected at h ⊢
  rw [hkind, hstate]
  exact h

omit [Condition κ] in
/-- The leaf expects any state if the specification has no literal for it, and the literal if it has
one. -/
theorem Stems.expected {registry : Registry π κ} {t : SpecNode} {node : Node (Watched π) (Watched κ)}
    (h : Stems registry t node.kind)
    (hstate : ∀ literal, t.stateLiteral? = some literal → node.state? = some literal) :
    node.Expected := by
  obtain ⟨kind, input?, state?, outputs⟩ := node
  cases h with
  | process hfind hmake hleaf hliteral =>
    intro literal hsome
    exact ⟨literal, hstate literal (hliteral ▸ hsome), fun _ => rfl⟩
  | condition hfind hmake hliteral =>
    intro literal hsome
    exact ⟨literal, hstate literal (hliteral ▸ hsome), fun _ => rfl⟩

/-- The reading of a `value` node is the constant of its literal. -/
theorem Plan.Reads.eq_constant {shape? : String → Option LeafShape} {scope : Scope} {n : SpecNode}
    {plan : Plan} (h : plan.Reads shape? scope n) (hvalue : n.Is .value) {literal : Value}
    (hliteral : (n.literal "value").toOption = some literal) : plan = .constant literal := by
  cases plan with
  | component consumers producers => cases h.1.unique hvalue
  | conditional conditions positive negative? =>
    obtain ⟨-, -, -, -, ⟨hgate, -⟩ | ⟨hswitch, -⟩⟩ := h
    · cases hgate.unique hvalue
    · cases hswitch.unique hvalue
  | constant value =>
    have hread : n.literal "value" = .ok value := h.2
    rw [hread] at hliteral
    cases hliteral
    rfl
  | leaf spec state? => exact absurd hvalue (SpecNode.not_is_of_ofName?_eq_none h.2.1 .value)

/-- The literal of a leaf's state is that of the constant that reads the state. -/
theorem Plan.Reads.state_eq {shape? : String → Option LeafShape} {scope : Scope} {t spec : SpecNode}
    {state? : Option Plan} (h : (Plan.leaf spec state?).Reads shape? scope t) {literal : Value}
    (hliteral : t.stateLiteral? = some literal) : state? = some (.constant literal) := by
  obtain ⟨-, -, -, n?, hn, hstate⟩ := h
  unfold SpecNode.stateLiteral? at hliteral
  cases hproperty : t.property? "state" with
  | none =>
    rw [hproperty] at hliteral
    cases hliteral
  | some property =>
    rw [hproperty] at hliteral
    cases property with
    | node n =>
      have hread : t.state = .ok (some n) := by rw [SpecNode.state, SpecNode.optionalNode, hproperty]
      rw [hread] at hn
      cases hn
      obtain ⟨plan, rfl⟩ : ∃ plan, state? = some plan := by
        cases state? with
        | none => cases hstate
        | some plan => exact ⟨plan, rfl⟩
      obtain ⟨_, ⟨⟩, hplan⟩ := hstate
      by_cases hvalue : n.Is .value
      · dsimp only at hliteral
        rw [if_pos hvalue] at hliteral
        rw [hplan.eq_constant hvalue hliteral]
      · dsimp only at hliteral
        rw [if_neg hvalue] at hliteral
        cases hliteral
    | _ => cases hliteral

omit [Process π] [Condition κ] in
/-- Of what is no leaf nothing is expected. -/
theorem Node.expected_of_not_isLeaf {node : Node (Watched π) (Watched κ)} (h : ¬node.kind.IsLeaf) :
    node.Expected := by
  obtain ⟨kind, input?, state?, outputs⟩ := node
  cases kind <;> first | trivial | exact absurd trivial h

end

/-! ## The invariant -/

section

open Plan

variable {π κ : Type} [Process π] [Condition κ]

/-- The leaf of a node at the given place comes from the specification, and its state is the constant
next to it if there is a literal for it. -/
def StemsAt (registry : Registry π κ) (spec : SpecNode) (site : Site)
    (node : Node (Watched π) (Watched κ)) : Prop :=
  ∃ t ∈ spec.visited, Stems registry t node.kind ∧ ∃ state?, site.plan = .leaf t state? ∧
    ∀ literal, t.stateLiteral? = some literal → state? = some (.constant literal)

/-- What holds of watched leaves while the constant of the given number is sent out: leaves with a
smaller number, and a state that is numbered before it too, have the states that they expect. -/
structure Bound (registry : Registry π κ) (spec : SpecNode) (root : Plan) (c : Nat)
    (s : Engine (Watched π) (Watched κ)) : Prop where
  closed : (root.reachBefore c).Closed s
  placed : ∀ {slot node}, s.arena.get? slot = some node →
    ∃ site ∈ root.layout, slot = slotAt site.number
  stems : ∀ site ∈ root.layout, ∀ {node}, s.arena.get? (slotAt site.number) = some node →
    node.kind.IsLeaf → StemsAt registry spec site node
  expected : ∀ site ∈ root.layout, site.number + 1 < c → ∀ {node},
    s.arena.get? (slotAt site.number) = some node → node.Expected

variable {registry : Registry π κ} {spec : SpecNode} {root : Plan} {c : Nat}
  {s s' : Engine (Watched π) (Watched κ)}

namespace Bound

omit [Condition κ] in
/-- Leaves within reach have the states that they expect. -/
theorem expected_of_before (h : Bound registry spec root c s) {slot : SlotId}
    (hreach : root.Before c (.input slot)) {node : Node (Watched π) (Watched κ)}
    (hget : s.arena.get? slot = some node) : node.Expected := by
  obtain ⟨site, hsite, rfl, hstop⟩ := hreach
  by_cases hbefore : site.number + 1 < c
  · exact h.expected site hsite hbefore hget
  · by_cases hleaf : node.kind.IsLeaf
    · obtain ⟨t, -, hstems, state?, hplan, hliteral⟩ := h.stems site hsite hget hleaf
      refine hstems.expected fun literal hsome => ?_
      -- A leaf with a literal is followed by a constant, which would be within reach as well.
      have hsize : site.plan.size = 2 := by
        rw [hplan, hliteral literal hsome]
        rfl
      simp only [Site.stop] at hstop
      omega
    · exact Node.expected_of_not_isLeaf hleaf

omit [Condition κ] in
/-- Every step that the constant can lead to keeps the states bound. -/
theorem step (h : Bound registry spec root c s) (hstep : Engine.Step (root.reachBefore c) s s') :
    Bound registry spec root c s' where
  closed := h.closed.of_step hstep
  placed hget' := by
    obtain ⟨node, hget, -⟩ := hstep.node hget'
    exact h.placed hget
  stems site hsite node' hget' hleaf := by
    obtain ⟨node, hget, hnode⟩ := hstep.node hget'
    have hold := h.stems site hsite hget
    cases hnode with
    | kept hkind hstate =>
      rw [StemsAt, hkind]
      exact hold (hkind ▸ hleaf)
    | bound hreach hkind =>
      rw [StemsAt, hkind]
      exact hold (hkind ▸ hleaf)
    | @ran kind w input hreach hkind hran =>
      -- The state is as expected, so the watched leaf ran as the leaf does, without the alarm.
      have hexpected := h.expected_of_before hreach hget
      obtain ⟨t, ht, hstems, hplan⟩ := hold (by rw [hkind]; trivial)
      refine ⟨t, ht, ?_, hplan⟩
      rw [Node.Expected, hkind] at hexpected
      rw [hkind] at hstems
      rw [hran, Engine.ranNode, Watched.run_of_expects hexpected]
      cases hstems with
      | process hfind hmake hdescends hliteral =>
        exact .process hfind hmake (hdescends.run input node.state?) hliteral
  expected site hsite hbefore node' hget' := by
    obtain ⟨node, hget, hnode⟩ := hstep.node hget'
    have hold := h.expected site hsite hbefore hget
    cases hnode with
    | kept hkind hstate => exact hold.congr hkind hstate
    | bound hreach hkind =>
      -- A state that is delivered to is no constant, so there is no literal for it.
      by_cases hleaf : node'.kind.IsLeaf
      · obtain ⟨t, -, hstems, state?, hplan, hliteral⟩ := h.stems site hsite hget (hkind ▸ hleaf)
        refine Stems.expected (hkind ▸ hstems) fun literal hsome => ?_
        obtain ⟨leaf, hmem, hslot, hconstant⟩ := hreach
        obtain rfl := site_unique hsite hmem (slotAt_inj.1 hslot)
        rw [hliteral literal hsome] at hplan
        have := hconstant t literal hplan
        omega
      · exact Node.expected_of_not_isLeaf hleaf
    | @ran kind w input hreach hkind hran =>
      rw [Node.Expected, hkind] at hold
      rw [hran, Engine.ranNode, Watched.run_of_expects hold]
      exact Watched.Expects.after hold _ _

omit [Condition κ] in
/-- Steps keep the states bound. -/
theorem steps (h : Bound registry spec root c s) (hsteps : Engine.Steps (root.reachBefore c) s s') :
    Bound registry spec root c s' := by
  induction hsteps with
  | refl => exact h
  | tail _ hstep ih => exact ih.step hstep

omit [Condition κ] in
/-- Operations keep the states bound. -/
theorem move (h : Bound registry spec root c s) {op : Operation}
    (hmove : Graph.Move (root.reachBefore c) s op s') :
    Bound registry spec root c s' := by
  have hclosed := hmove.closed h.closed trivial
  cases hmove with
  | steps hsteps => exact h.steps hsteps
  | @tapped slot tappedNode htapped =>
    refine ⟨hclosed, fun hget' => ?_, fun site hsite node' hget' hleaf => ?_,
      fun site hsite hlt node' hget' => ?_⟩
    · obtain ⟨node, hget, -⟩ := Graph.get?_tapped htapped hget'
      exact h.placed hget
    · obtain ⟨node, hget, hkind, -⟩ := Graph.get?_tapped htapped hget'
      rw [StemsAt, hkind]
      exact h.stems site hsite hget (hkind ▸ hleaf)
    · obtain ⟨node, hget, hkind, hstate, -⟩ := Graph.get?_tapped htapped hget'
      exact (h.expected site hsite hlt hget).congr hkind hstate
  | _ => exact ⟨hclosed, h.placed, h.stems, h.expected⟩

omit [Condition κ] in
/-- Sending out what has the number `c` binds what is numbered before it. -/
theorem next {site : Site} (h : Bound registry spec root site.number s) (hsite : site ∈ root.layout)
    (hclosed : (root.reachBefore (site.number + 1)).Closed s)
    (hstate : ∀ leaf ∈ root.layout, ∀ t literal, site = ⟨leaf.number + 1,
      [.state (slotAt leaf.number)], .constant literal⟩ → leaf.plan = .leaf t (some site.plan) →
      ∀ {node}, s.arena.get? (slotAt leaf.number) = some node → node.state? = some literal) :
    Bound registry spec root (site.number + 1) s where
  closed := hclosed
  placed := h.placed
  stems := h.stems
  expected leaf hleaf hbefore node hget := by
    by_cases hold : leaf.number + 1 < site.number
    · exact h.expected leaf hleaf hold hget
    by_cases hkind : node.kind.IsLeaf
    · obtain ⟨t, -, hstems, state?, hplan, hliteral⟩ := h.stems leaf hleaf hget hkind
      refine hstems.expected fun literal hsome => ?_
      -- The constant of the literal comes right after its leaf, so it is what was sent out.
      rw [hliteral literal hsome] at hplan
      have hchild : (⟨leaf.number + 1, [.state (slotAt leaf.number)], .constant literal⟩ : Site) ∈
          root.layout := by
        refine child_mem hleaf ?_
        rw [Site.children, hplan]
        exact Site.state_mem
      have hnumber : leaf.number + 1 = site.number := by omega
      obtain rfl := site_unique hchild hsite hnumber
      exact hstate leaf hleaf t literal rfl hplan hget
    · exact Node.expected_of_not_isLeaf hkind

end Bound

/-- Nothing of the watch is to be seen where what is within reach is bound. -/
theorem faithful_unwatched :
    (View.unwatched π κ).Faithful (root.reachBefore c) (Bound registry spec root c) where
  closed h := h.closed
  step h hstep := h.step hstep
  run {s slot node kind w} h hreach hget hkind input := by
    have hexpected := h.expected_of_before hreach hget
    rw [Node.Expected, hkind] at hexpected
    rw [Watched.run_of_expects hexpected]
    rfl
  test {s slot node kind w} h hreach hget hkind input := by
    have hexpected := h.expected_of_before (hreach.elim id id) hget
    rw [Node.Expected, hkind] at hexpected
    rw [Watched.test_of_expects hexpected]
    rfl

/-! ## Blame -/

/-- A leaf made for the specification refuses for that reason, and if the specification has a literal
for the state, the state is set. -/
inductive Blames (registry : Registry π κ) (t : SpecNode) (cause : LeafError) : Prop
  | process {make : SpecNode → Except LeafError π} {made leaf : π} {input : Value}
    {state? : Option Value} (hfind : registry.find? t.kind = some (.process make))
    (hmake : make t = .ok made) (hleaf : Descends made leaf)
    (hstate : t.stateLiteral?.isSome → state?.isSome)
    (hrefuses : (Process.run leaf input state?).outcome = .error cause)
  | condition {make : SpecNode → Except LeafError κ} {leaf : κ} {input : Value}
    {state? : Option Value} (hfind : registry.find? t.kind = some (.condition make))
    (hmake : make t = .ok leaf) (hstate : t.stateLiteral?.isSome → state?.isSome)
    (hrefuses : Condition.test leaf input state? = .error cause)

/-- Some leaf of the specification is to blame if this is a failure of a leaf. -/
def Blamed (registry : Registry π κ) (spec : SpecNode) (stop : Stop) : Prop :=
  ∀ kind cause, stop = .failed (.leaf kind cause) →
    ∃ t ∈ spec.visited, t.kind = kind ∧ Blames registry t cause

/-- A state that a literal is expected of is there. -/
theorem Watched.Expects.isSome {α : Type} {w : Watched α} {t : SpecNode} {state? : Option Value}
    (h : w.Expects state?) (hliteral : w.literal? = t.stateLiteral?)
    (hsome : t.stateLiteral?.isSome) : state?.isSome := by
  obtain ⟨literal, hliteral'⟩ := Option.isSome_iff_exists.1 hsome
  obtain ⟨value, rfl, -⟩ := h literal (hliteral.trans hliteral')
  rfl

/-- A leaf that refuses has the state that was specified for it. -/
theorem Bound.blamed_of_refuses (h : Bound registry spec root c s) {kind : String}
    {cause : LeafError} (hrefuses : Engine.Refuses (root.reachBefore c) s kind cause) :
    ∃ t ∈ spec.visited, t.kind = kind ∧ Blames registry t cause := by
  have hstemsOf : ∀ {slot node}, root.Before c (.input slot) → s.arena.get? slot = some node →
      node.kind.IsLeaf → ∃ t ∈ spec.visited, Stems registry t node.kind := by
    rintro _ node ⟨site, hsite, rfl, -⟩ hget hleaf
    obtain ⟨t, ht, hstems, -⟩ := h.stems site hsite hget hleaf
    exact ⟨t, ht, hstems⟩
  cases hrefuses with
  | @process slot node w input hreach hget hkind hrefuses =>
    have hexpected := h.expected_of_before hreach hget
    obtain ⟨t, ht, hstems⟩ := hstemsOf hreach hget (by rw [hkind]; trivial)
    rw [Node.Expected, hkind] at hexpected
    rw [Watched.run_of_expects hexpected] at hrefuses
    rw [hkind] at hstems
    cases hstems with
    | process hfind hmake hdescends hliteral =>
      exact ⟨t, ht, rfl, .process hfind hmake hdescends (hexpected.isSome hliteral) hrefuses⟩
  | @condition slot node w input hreach hget hkind hrefuses =>
    have hreach := hreach.elim id id
    have hexpected := h.expected_of_before hreach hget
    obtain ⟨t, ht, hstems⟩ := hstemsOf hreach hget (by rw [hkind]; trivial)
    rw [Node.Expected, hkind] at hexpected
    rw [Watched.test_of_expects hexpected] at hrefuses
    rw [hkind] at hstems
    cases hstems with
    | condition hfind hmake hliteral =>
      exact ⟨t, ht, rfl, .condition hfind hmake (hexpected.isSome hliteral) hrefuses⟩

/-- If a bound graph stops for a leaf, the leaf is to blame. -/
theorem Bound.blamed (h : Bound registry spec root c s) {stop : Stop}
    (hhalts : Engine.Halts (root.reachBefore c) s stop) : Blamed registry spec stop := by
  rintro kind cause rfl
  obtain ⟨s', hsteps, hrefuses⟩ := hhalts
  exact (h.steps hsteps).blamed_of_refuses hrefuses

end

/-! ## Activating -/

section

open Plan

variable {π κ : Type} [Process π] [Condition κ]

/-- What a constant sends to a state arrives there. -/
theorem Graph.sendConstant_state {s s' : Engine π κ} {slot target : SlotId} {node node' : Node π κ}
    {value : Value} (hget : s.arena.get? slot = some node) (hkind : node.kind = .constant value)
    (houtputs : node.outputs = [.state target]) {a : Unit} (hsend : sendConstant slot s = .ok a s')
    (hget' : s'.arena.get? target = some node') : node'.state? = some value := by
  rw [sendConstant_eq hget hkind, houtputs] at hsend
  generalize Hop.output slot node.kind.name value = hop at hsend
  have hset : (Engine.setState target value >>= fun _ => pure PUnit.unit) (s.traced hop) = .ok a s' :=
    hsend
  have harena : (s.traced hop).arena = s.arena := Engine.traced_arena hop s
  -- A node that is not there gets no state, and none is there afterwards.
  cases htarget : s.arena.get? target with
  | none =>
    have hwarn : Engine.setState target value (s.traced hop) =
        Engine.warn (.stateDropped target) (s.traced hop) := by
      unfold Engine.setState
      rw [Engine.node?_bind, harena, htarget]
    rw [Engine.bind_of_ok hwarn] at hset
    cases hset
    change (s.traced hop).arena.get? target = some node' at hget'
    rw [harena, htarget] at hget'
    cases hget'
  | some old =>
    have hwrite : Engine.setState target value (s.traced hop) =
        Engine.setNode target { old with state? := some value }
          ((s.traced hop).traced (.state target old.kind.name value)) := by
      unfold Engine.setState
      rw [Engine.node?_bind, harena, htarget]
      dsimp only
      rw [Engine.trace_bind]
    rw [Engine.bind_of_ok hwrite] at hset
    cases hset
    rw [Arena.get?_set_self (by rw [Engine.traced_arena, harena, htarget])] at hget'
    cases hget'
    rfl

variable {registry : Registry π κ} {spec : SpecNode} {root : Plan} {alarm : LeafError}
  {declared : Declared} {wired : Wired (Watched π) (Watched κ)} (config : Config)

omit [Condition κ] in
/-- Before the first constant, nothing has to be bound. -/
theorem bound_wired
    (h : Graph.Assembled (registry.watched alarm) spec root declared wired) :
    Bound registry spec root 0 (Graph.engineOf config wired) where
  closed := h.closed_before config 0
  placed hget := by
    obtain ⟨site, hsite, hslot, -⟩ := h.exists_site hget
    exact ⟨site, hsite, hslot⟩
  stems site hsite node hget hleaf := by
    obtain ⟨kind, hkind, hnode⟩ := h.get?_of_mem hsite
    rw [show (Graph.engineOf config wired).arena.get? (slotAt site.number) = _ from hnode] at hget
    cases hget
    obtain ⟨t, ht, hreads⟩ := h.reads_of_mem hsite
    cases hplan : site.plan <;> rw [hplan] at hkind hreads
    case leaf t' state? =>
      obtain rfl := hreads.1
      exact ⟨t', ht, stems_of_makeLeaf hkind, state?, hplan, fun literal => hreads.state_eq⟩
    all_goals
      cases hkind
      exact hleaf.elim
  expected site _ hbefore := by omega

/-- What activating watched leaves comes to: it looks as without the watch, and whether it succeeds or
not, no leaf was run or asked without the state that it expects. -/
structure Activating (registry : Registry π κ) (spec : SpecNode) (root : Plan)
    (constants : List SlotId) (s : Engine (Watched π) (Watched κ)) : Prop where
  sees : (View.unwatched π κ).Sees (Graph.activate constants) (Graph.activate constants) s
  bound : ∀ {a s'}, Graph.activate constants s = .ok a s' → Bound registry spec root root.size s'
  blamed : ∀ {stop s'}, Graph.activate constants s = .error stop s' → Blamed registry spec stop

/-- One constant is sent out, and then the rest. -/
theorem activating_cons {s : Engine (Watched π) (Watched κ)} {slot : SlotId} {rest : List SlotId}
    {c : Nat} (hs : Bound registry spec root c s) (hreach : root.Before c (.output slot))
    (hrest : ∀ a s', Graph.sendConstant slot s = .ok a s' → Bound registry spec root c s' →
      Engine.SameWiring s s' → Activating registry spec root rest s') :
    Activating registry spec root (slot :: rest) s := by
  have hsequence : (Graph.activate (slot :: rest) : Act (Watched π) (Watched κ) Unit) =
      Graph.sendConstant slot >>= fun _ => Graph.activate rest := rfl
  have hleads := Engine.leads_constant hs.closed hreach
  have hsees := View.sees_sendConstant faithful_unwatched hs hreach
  -- If the constant fails, the rest is not sent out, and a leaf within its reach is to blame.
  cases hsend : Graph.sendConstant slot s with
  | ok a s₁ =>
    rw [hsend] at hleads
    have hrest := hrest a s₁ hsend (hs.steps hleads.1) (Engine.Steps.sameWiring hleads.1)
    refine ⟨hsees.bind fun _ s₂ hsend' => ?_, ?_, ?_⟩
    · rw [hsend] at hsend'
      cases hsend'
      exact hrest.sees
    · rw [hsequence, Engine.bind_of_ok hsend]
      exact hrest.bound
    · rw [hsequence, Engine.bind_of_ok hsend]
      exact hrest.blamed
  | error stop s₁ =>
    rw [hsend] at hleads
    refine ⟨hsees.bind fun _ s₂ hsend' => ?_, ?_, ?_⟩
    · rw [hsend] at hsend'
      cases hsend'
    · intro a s' h
      rw [hsequence, Engine.bind_of_error hsend] at h
      cases h
    · intro stop' s' h
      rw [hsequence, Engine.bind_of_error hsend] at h
      cases h
      exact hs.blamed hleads.2.2

/-- **Activating in order.** By induction on the places still to come, each of which finds all states
bound that are numbered before it. -/
theorem activating (h : Graph.Assembled (registry.watched alarm) spec root declared wired)
    (before after : List Site) (hlayout : before ++ after = root.layout)
    {s : Engine (Watched π) (Watched κ)} (hwired : Engine.SameWiring (Graph.engineOf config wired) s)
    (hs : Bound registry spec root before.length s) :
    Activating registry spec root (constantSlots after) s := by
  induction after generalizing before s with
  | nil =>
    have hall : before.length = root.size := by
      rw [List.append_nil] at hlayout
      rw [hlayout, length_sites]
    refine ⟨View.sees_pure _, fun hok => ?_, fun herror => ?_⟩
    · cases hok
      exact hall ▸ hs
    · cases herror
  | cons site rest ih =>
    have hsite : site ∈ root.layout := hlayout ▸ List.mem_append_right _ (List.mem_cons_self ..)
    have hnumber : before.length = site.number := by
      have := number_of_append hlayout
      omega
    rw [hnumber] at hs
    have hnext : ∀ {s'}, Engine.SameWiring (Graph.engineOf config wired) s' →
        Bound registry spec root (site.number + 1) s' →
        Activating registry spec root (constantSlots rest) s' := fun hwired' hs' => by
      refine ih (before ++ [site]) (by rw [List.append_assoc]; exact hlayout) hwired' ?_
      rwa [List.length_append, List.length_singleton, hnumber]
    have hclosed : ∀ {s'}, Engine.SameWiring (Graph.engineOf config wired) s' →
        Bound registry spec root site.number s' → (root.reachBefore (site.number + 1)).Closed s' :=
      fun hwired' hs' => (h.closed_before config (site.number + 1)).of_sameWiring hwired'
        hs'.closed.queued hs'.closed.pending
    -- A place that is no constant sends nothing out, and no state ends with it.
    by_cases hconstant : site.plan.IsConstant
    · obtain ⟨value, hplan⟩ := hconstant.exists_value
      rw [constantSlots_cons_of_eq hplan]
      refine activating_cons hs ⟨site, hsite, rfl, Nat.le_refl _, fun _ => rfl⟩
        fun a s' hsend hs' hsame => ?_
      have hwired' := hwired.trans hsame
      refine hnext hwired' (hs'.next hsite (hclosed hwired' hs') ?_)
      rintro leaf hleaf t literal rfl - node hget
      obtain ⟨kind, hkind, hnode⟩ := h.get?_of_mem hsite
      cases hkind
      obtain ⟨sent, hsent, hwiring, houtputs⟩ := hwired.exists_node hnode
      exact Graph.sendConstant_state hsent (NodeKind.eq_of_wiring hwiring id) houtputs hsend hget
    · rw [constantSlots_cons_of_not hconstant]
      refine hnext hwired (hs.next hsite (hclosed hwired hs) ?_)
      rintro leaf hleaf t literal rfl
      exact absurd trivial hconstant

end

/-! ## Builds and histories -/

namespace Graph

open Plan

variable {π κ : Type} [Process π] [Condition κ] {registry : Registry π κ} {config : Config}
  {spec : SpecNode} {alarm : LeafError}

/-- The answers of a history of a build, and the graph after it. -/
def buildAndOperate (registry : Registry π κ) (config : Config) (spec : SpecNode)
    (ops : List Operation) : Except BuildStop (List (Except Stop Answer) × Graph π κ) :=
  (build registry config spec).map fun g => g.operateAll ops

/-- Activating a specification, or an operation of a history after that, stops for the reason. -/
def StopsWith (registry : Registry π κ) (config : Config) (spec : SpecNode) (stop : Stop) : Prop :=
  (∃ root scope wired engine, assemble registry spec = .ok (root, scope, wired) ∧
      activate wired.constants (engineOf config wired) = .error stop engine) ∨
    ∃ g ops, build registry config spec = .ok g ∧ .error stop ∈ (g.operateAll ops).1

omit [Process π] [Condition κ] in
/-- Watching a registry changes nothing of what is assembled but the leaves. -/
theorem assemble_watched (registry : Registry π κ) (alarm : LeafError) (spec : SpecNode) :
    assemble registry spec = (assemble (registry.watched alarm) spec).map
      fun r => (r.1, r.2.1, (View.unwatched π κ).wired r.2.2) :=
  View.assemble_view (Registry.seesLeaves_watched alarm registry)
    (fun kind => (Registry.shape?_watched alarm registry kind).symm) spec

/-- Activating what was assembled under watch. -/
theorem activating_of_assemble {root : SlotId} {scope : Scope} {wired : Wired (Watched π) (Watched κ)}
    (h : assemble (registry.watched alarm) spec = .ok (root, scope, wired)) (config : Config) :
    root = slotAt 0 ∧
      ∃ plan, Activating registry spec plan wired.constants (engineOf config wired) := by
  obtain ⟨plan, declared, hassembled, -, rfl⟩ := assembled_of_assemble h
  refine ⟨rfl, plan, ?_⟩
  rw [hassembled.constants_eq]
  exact activating config hassembled [] plan.layout rfl (.refl _) (bound_wired config hassembled)

/-- A build is the build under watch without the watch. -/
theorem build_watched (registry : Registry π κ) (config : Config) (spec : SpecNode)
    (alarm : LeafError) :
    build registry config spec =
      (build (registry.watched alarm) config spec).map (View.unwatched π κ).graph := by
  unfold build
  rw [assemble_watched registry alarm spec]
  cases hassemble : assemble (registry.watched alarm) spec with
  | error e => rfl
  | ok assembled =>
    obtain ⟨root, scope, wired⟩ := assembled
    obtain ⟨-, plan, hactivating⟩ := activating_of_assemble hassemble config
    have hsees := hactivating.sees
    rw [View.Sees, View.engine_engineOf _ rfl] at hsees
    dsimp only [Except.map]
    rw [show ((View.unwatched π κ).wired wired).constants = wired.constants from rfl, hsees]
    cases activate wired.constants (engineOf config wired) with
    | ok _ s => rfl
    | error stop s => cases stop <;> rfl

/-- What a build under watch comes to. -/
theorem bound_of_build {g : Graph (Watched π) (Watched κ)}
    (h : build (registry.watched alarm) config spec = .ok g) :
    g.root = slotAt 0 ∧ ∃ plan, Bound registry spec plan plan.size g.engine := by
  obtain ⟨wired, hassemble, hactivate⟩ := build_eq_ok_iff.1 h
  obtain ⟨hroot, plan, hactivating⟩ := activating_of_assemble hassemble config
  exact ⟨hroot, plan, hactivating.bound hactivate⟩

/-- The root and all its parts come before the end. -/
theorem before_root (root : Plan) : root.Before root.size (.input (slotAt 0)) :=
  ⟨_, mem_sites_self 0 [.sink] root, rfl, by simp [Site.stop]⟩

/-- A history is the history under watch without the watch. -/
theorem operateAll_watched {g : Graph (Watched π) (Watched κ)}
    (h : build (registry.watched alarm) config spec = .ok g) (ops : List Operation) :
    ((View.unwatched π κ).graph g).operateAll ops =
      ((g.operateAll ops).1, (View.unwatched π κ).graph (g.operateAll ops).2) := by
  obtain ⟨hroot, plan, hbound⟩ := bound_of_build h
  exact View.operateAll_graph faithful_unwatched (drives_reachBefore plan)
    (fun hs hmove => hs.move hmove) hbound (hroot ▸ before_root plan) ops

/-- Every reachable state under watch is as the watch expects it. -/
theorem expected_of_history {g : Graph (Watched π) (Watched κ)}
    (h : build (registry.watched alarm) config spec = .ok g) (ops : List Operation) {slot : SlotId}
    {node : Node (Watched π) (Watched κ)}
    (hget : (g.operateAll ops).2.engine.arena.get? slot = some node) : node.Expected := by
  obtain ⟨hroot, plan, hbound⟩ := bound_of_build h
  have hkeep := operateAll_invariant (g := g) (P := fun s => Bound registry spec plan plan.size s)
    (Q := fun _ => True) ops (fun g' hg' hs op _ => ⟨hs.move (operate_moves (drives_reachBefore plan)
      hs.closed (hg' ▸ hroot ▸ before_root plan) op).move, trivial⟩) hbound
  obtain ⟨site, hsite, rfl⟩ := hkeep.1.placed hget
  refine hkeep.1.expected_of_before ⟨site, hsite, rfl, ?_⟩ hget
  have := (sites_bounds hsite).2
  omega

/-- A history is the history under watch without the watch, from the build on. -/
theorem buildAndOperate_watched (registry : Registry π κ) (config : Config) (spec : SpecNode)
    (alarm : LeafError) (ops : List Operation) :
    buildAndOperate registry config spec ops =
      (buildAndOperate (registry.watched alarm) config spec ops).map
        fun r => (r.1, (View.unwatched π κ).graph r.2) := by
  unfold buildAndOperate
  rw [build_watched registry config spec alarm]
  cases hbuild : build (registry.watched alarm) config spec with
  | error stop => rfl
  | ok g => exact congrArg Except.ok (operateAll_watched hbuild ops)

/-- What stops without the watch stops under watch, for the same reason. -/
theorem StopsWith.watched {stop : Stop} (h : StopsWith registry config spec stop)
    (alarm : LeafError) : StopsWith (registry.watched alarm) config spec stop := by
  rcases h with ⟨root, scope, wired, engine, hassemble, hactivate⟩ | ⟨g, ops, hbuild, hstop⟩
  · rw [assemble_watched registry alarm spec] at hassemble
    cases hassemble' : assemble (registry.watched alarm) spec with
    | error e =>
      rw [hassemble'] at hassemble
      cases hassemble
    | ok assembled =>
      obtain ⟨root', scope', wired'⟩ := assembled
      rw [hassemble'] at hassemble
      cases hassemble
      obtain ⟨-, plan, hactivating⟩ := activating_of_assemble hassemble' config
      have hsees := hactivating.sees
      rw [View.Sees, View.engine_engineOf _ rfl] at hsees
      rw [show ((View.unwatched π κ).wired wired').constants = wired'.constants from rfl,
        hsees] at hactivate
      cases hactivate' : activate wired'.constants (engineOf config wired') with
      | ok a s =>
        rw [hactivate'] at hactivate
        cases hactivate
      | error stop' s =>
        rw [hactivate'] at hactivate
        cases hactivate
        exact .inl ⟨_, _, wired', s, hassemble', hactivate'⟩
  · rw [build_watched registry config spec alarm] at hbuild
    cases hbuild' : build (registry.watched alarm) config spec with
    | error stop' =>
      rw [hbuild'] at hbuild
      cases hbuild
    | ok g' =>
      rw [hbuild'] at hbuild
      cases hbuild
      rw [operateAll_watched hbuild' ops] at hstop
      exact .inr ⟨g', ops, hbuild', hstop⟩

/-- Whenever a leaf fails under watch, some leaf of the specification is to blame. -/
theorem StopsWith.blamed_of_watched {stop : Stop}
    (h : StopsWith (registry.watched alarm) config spec stop) : Blamed registry spec stop := by
  rcases h with ⟨root, scope, wired, engine, hassemble, hactivate⟩ | ⟨g, ops, hbuild, hstop⟩
  · obtain ⟨-, plan, hactivating⟩ := activating_of_assemble hassemble config
    exact hactivating.blamed hactivate
  · obtain ⟨hroot, plan, hbound⟩ := bound_of_build hbuild
    have hkeep := operateAll_invariant (g := g) (P := fun s => Bound registry spec plan plan.size s)
      (Q := fun answer => ∀ stop, answer = .error stop → Blamed registry spec stop)
      ops (fun g' hg' hs op _ => ?_) hbound
    · exact hkeep.2 _ hstop stop rfl
    · have hmoves := operate_moves (drives_reachBefore plan) hs.closed
        (hg' ▸ hroot ▸ before_root plan) op
      exact ⟨hs.move hmoves.move, fun stop hanswer => hs.blamed (hmoves.halts stop hanswer)⟩

end Graph

/-! ## The catalogue -/

/-- The leaf types have the catalogue's leaves among them. -/
structure HostsCatalogue {π κ : Type} [Process π] [Condition κ] (ofProcess : CatalogueProcess → π)
    (ofCondition : CatalogueCondition → κ) : Prop where
  run : ∀ p input state?, Process.run (ofProcess p) input state? =
    (Process.run p input state?).map ofProcess
  test : ∀ c input state?, Condition.test (ofCondition c) input state? =
    Condition.test c input state?

/-- A process of the catalogue misses its state only if there is none. -/
theorem CatalogueProcess.state?_eq_none {p : CatalogueProcess} {input : Value}
    {state? : Option Value} {leaf : String}
    (h : p.effects input state? = .error (.missingState leaf)) : state? = none := by
  cases state? with
  | none => rfl
  | some state =>
    cases p with
    | add => cases input <;> cases state <;> cases h
    | delay =>
      cases state with
      | number milliseconds =>
        simp only [CatalogueProcess.effects, requireState, requireNumber] at h
        dsimp only [bind, Except.bind] at h
        cases hspan : Duration.ofSeconds? (milliseconds / 1000) with
        | some span =>
          rw [hspan] at h
          cases h
        | none =>
          rw [hspan] at h
          cases h
      | _ => cases h
    | _ => cases h

/-- A catalogue condition misses a state only if there is none. -/
theorem CatalogueCondition.state?_eq_none {c : CatalogueCondition} {input : Value}
    {state? : Option Value} {leaf : String}
    (h : c.holds input state? = .error (.missingState leaf)) : state? = none := by
  cases state? with
  | none => rfl
  | some state =>
    cases c with
    | under => cases input <;> cases state <;> cases h

section

variable {π κ : Type} [Process π] [Condition κ] {ofProcess : CatalogueProcess → π}
  {ofCondition : CatalogueCondition → κ} (hosts : HostsCatalogue ofProcess ofCondition)

include hosts

/-- Processes of the catalogue stay what they are. -/
theorem HostsCatalogue.eq_of_descends {p : CatalogueProcess} {leaf : π}
    (h : Descends (ofProcess p) leaf) : leaf = ofProcess p := by
  induction h with
  | made => rfl
  | run h input state? ih =>
    subst ih
    rw [hosts.run]
    rfl

/-- A leaf of the catalogue that misses its state is one without a literal for it. -/
theorem HostsCatalogue.stateLiteral?_eq_none {registry : Registry π κ} {t : SpecNode}
    {entry : String × Factory CatalogueProcess CatalogueCondition}
    (hentry : entry ∈ Registry.catalogueFactories)
    (hfind : registry.find? t.kind = some (entry.2.map ofProcess ofCondition)) {leaf : String}
    (h : Blames registry t (.missingState leaf)) : t.stateLiteral? = none := by
  by_contra hliteral
  rw [← ne_eq, Option.ne_none_iff_isSome] at hliteral
  cases h with
  | @process make made l input state? hfind' hmake hleaf hstate hrefuses =>
    obtain ⟨p, rfl⟩ : ∃ p, made = ofProcess p := by
      rw [hfind] at hfind'
      rcases List.mem_append.1 hentry with hentry | hentry
      · obtain ⟨p, -, rfl⟩ := List.mem_map.1 hentry
        cases hfind'
        cases hmake
        exact ⟨p, rfl⟩
      · obtain ⟨c, -, rfl⟩ := List.mem_map.1 hentry
        cases hfind'
    obtain rfl := hosts.eq_of_descends hleaf
    rw [hosts.run] at hrefuses
    have hnone := CatalogueProcess.state?_eq_none hrefuses
    rw [hnone] at hstate
    cases hstate hliteral
  | @condition make l input state? hfind' hmake hstate hrefuses =>
    obtain ⟨c, rfl⟩ : ∃ c, l = ofCondition c := by
      rw [hfind] at hfind'
      rcases List.mem_append.1 hentry with hentry | hentry
      · obtain ⟨p, -, rfl⟩ := List.mem_map.1 hentry
        cases hfind'
      · obtain ⟨c, -, rfl⟩ := List.mem_map.1 hentry
        cases hfind'
        cases hmake
        exact ⟨c, rfl⟩
    rw [hosts.test] at hrefuses
    have hnone := CatalogueCondition.state?_eq_none hrefuses
    rw [hnone] at hstate
    cases hstate hliteral

end

namespace Graph

/-- **State is bound before it is read.** Whatever the alarm, a graph under watch does what the graph
does without the watch, and no leaf stops with the alarm that does not give it by itself. So a leaf
that is run or asked, while constants are sent out or later, finds the literal of its state there, or
what it has written over it. So it is in all states between operations, too. In particular, when a
leaf of the catalogue misses its state, its specification has no literal for it. -/
theorem state_bound_before_read {π κ : Type} [Process π] [Condition κ] (registry : Registry π κ)
    (config : Config) (spec : SpecNode) :
    (∀ alarm ops, buildAndOperate registry config spec ops =
      (buildAndOperate (registry.watched alarm) config spec ops).map
        fun r => (r.1, (View.unwatched π κ).graph r.2)) ∧
    (∀ alarm, (∀ t ∈ spec.visited, ¬Blames registry t alarm) → ∀ kind,
      ¬StopsWith (registry.watched alarm) config spec (.failed (.leaf kind alarm))) ∧
    (∀ alarm g, build (registry.watched alarm) config spec = .ok g → ∀ ops slot node,
      (g.operateAll ops).2.engine.arena.get? slot = some node → node.Expected) ∧
    ∀ ofProcess ofCondition, HostsCatalogue (π := π) (κ := κ) ofProcess ofCondition →
      ∀ entry ∈ Registry.catalogueFactories,
        registry.find? entry.1 = some (entry.2.map ofProcess ofCondition) →
        ∀ leaf, StopsWith registry config spec (.failed (.leaf entry.1 (.missingState leaf))) →
          ∃ t ∈ spec.visited, t.kind = entry.1 ∧ t.stateLiteral? = none ∧
            Blames registry t (.missingState leaf) := by
  refine ⟨fun alarm ops => buildAndOperate_watched registry config spec alarm ops,
    fun alarm halarm kind hstops => ?_,
    fun alarm g h ops slot node hget => expected_of_history h ops hget, ?_⟩
  · obtain ⟨t, ht, -, hblames⟩ := hstops.blamed_of_watched kind alarm rfl
    exact halarm t ht hblames
  intro ofProcess ofCondition hosts entry hentry hfind leaf hstops
  -- Any alarm will do: it is not given.
  obtain ⟨t, ht, hkind, hblames⟩ := (hstops.watched (.other "")).blamed_of_watched _ _ rfl
  exact ⟨t, ht, hkind, hosts.stateLiteral?_eq_none hentry (hkind ▸ hfind) hblames, hblames⟩

/-- The leaf of the feedback, whose state is a literal, does not miss it. -/
theorem state_bound_in_feedback :
    (∀ alarm, ∃ g, build (Registry.catalogue.watched alarm) {} SpecNode.feedback = .ok g ∧
      ∀ slot node, (g.operateAll [.push .unit, .tick]).2.engine.arena.get? slot = some node →
        node.Expected) ∧
    ¬StopsWith Registry.catalogue {} SpecNode.feedback (.failed (.leaf "set" (.missingState "set"))) := by
  obtain ⟨-, -, hexpected, hmissing⟩ := state_bound_before_read Registry.catalogue {} SpecNode.feedback
  refine ⟨fun alarm => ?_, fun hstops => ?_⟩
  · have hok : (build Registry.catalogue {} SpecNode.feedback).isOk = true := by cbv
    rw [build_watched Registry.catalogue {} SpecNode.feedback alarm] at hok
    cases h : build (Registry.catalogue.watched alarm) {} SpecNode.feedback with
    | error stop =>
      rw [h] at hok
      cases hok
    | ok g => exact ⟨g, rfl, hexpected alarm g h [.push .unit, .tick]⟩
  · obtain ⟨t, ht, hkind, hnone, -⟩ := hmissing id id ⟨fun _ _ _ => rfl, fun _ _ _ => rfl⟩
      ("set", .process fun _ => .ok .set) (by simp [Registry.catalogueFactories,
        CatalogueProcess.all, CatalogueProcess.kind]) rfl "set" hstops
    have hliterals : (SpecNode.feedback.visited.all fun t =>
        t.kind != "set" || t.stateLiteral?.isSome) = true := by cbv
    have hliteral := List.all_eq_true.1 hliterals t ht
    simp [hkind, hnone] at hliteral

end Graph

end Dataflow
