import Dataflow.Proofs.Wired
import Mathlib.Data.Prod.Lex

/-!
# Values ascend

Within one propagation a value goes down into the producers of a component and the branches of a
conditional, sideways from producers to consumers, and up through outputs to any ancestor. Still
there is an order of all inputs and outputs of a built graph that it always follows: an input comes
before the inputs of the parts and before the output of its node, and an output before whatever
listens to it (`Graph.Assembled.ascends`).

In terms of the numbers of places (`Dataflow.Proofs.Positions`), where consumers come before
producers: outputs come in the reverse order of numbers, and the input of a place stands where the
output of its last descendant does, or just before; among inputs that stand at the same output,
ancestors come first.
-/

namespace Dataflow

variable {π κ : Type}

/-- The nodes that a node of the kind passes its input to. -/
def NodeKind.Enters : NodeKind π κ → SlotId → Prop
  | .composite producers, part => part ∈ producers
  | .conditional _ positive negative?, part => part = positive ∨ negative? = some part
  | _, _ => False

/-- What a node passes its input to is a matter of its wiring. -/
theorem NodeKind.enters_of_wiring {kind kind' : NodeKind π κ} {part : SlotId}
    (h : kind.wiring = kind'.wiring) (henters : kind'.Enters part) : kind.Enters part := by
  cases kind <;> cases kind' <;> cases h <;> exact henters

/-- A rank of every input and every output. -/
structure Ranking where
  input : SlotId → ℕ ×ₗ ℕ
  output : SlotId → ℕ ×ₗ ℕ

namespace Ranking

/-- Whether the listener passes a value on to a higher rank, if it passes it on at once. -/
def Precedes (rk : Ranking) (rank : ℕ ×ₗ ℕ) : Listener → Prop
  | .input slot => rank < rk.input slot
  | .output slot => rank < rk.output slot
  | _ => True

/-- What precedes from a rank precedes from every lower one. -/
theorem Precedes.of_lt {rk : Ranking} {rank rank' : ℕ ×ₗ ℕ} (h : rank < rank') {listener : Listener}
    (hl : rk.Precedes rank' listener) : rk.Precedes rank listener := by
  cases listener with
  | input slot => exact h.trans hl
  | output slot => exact h.trans hl
  | _ => trivial

/-- Ranks ascend wherever a value is passed on at once. -/
structure Ascends (rk : Ranking) (s : Engine π κ) : Prop where
  enters : ∀ {slot part node}, s.arena.get? slot = some node → node.kind.Enters part →
    rk.input slot < rk.input part
  emits : ∀ {slot node}, s.arena.get? slot = some node → rk.input slot < rk.output slot
  feeds : ∀ {slot node}, s.arena.get? slot = some node → ∀ listener ∈ node.outputs,
    rk.Precedes (rk.output slot) listener

end Ranking

/-! ## The ranking of a plan -/

namespace Plan

/-- The first number behind the place of a number and its descendants. -/
def stopAt (root : Plan) (number : Nat) : Nat :=
  ((root.layout.find? fun site => site.number = number).map Site.stop).getD 0

/-- Outputs in the reverse order of numbers, each input before the output of the last descendant. -/
def ranking (root : Plan) : Ranking where
  input slot := toLex (root.size - root.stopAt slot.index, slot.index + 1)
  output slot := toLex (root.size - slot.index, 0)

variable {root : Plan} {site other : Site}

/-- There is one place of each number, so it is the one that is found. -/
theorem stopAt_of_mem (h : site ∈ root.layout) : root.stopAt site.number = site.stop := by
  unfold stopAt
  cases hfind : root.layout.find? fun other => other.number = site.number with
  | none =>
    have hnot := List.find?_eq_none.1 hfind site h
    exact absurd (decide_eq_true rfl) hnot
  | some found =>
    have hnumber : found.number = site.number := by simpa using List.find?_some hfind
    rw [site_unique (List.mem_of_find?_eq_some hfind) h hnumber]
    rfl

/-- The rank of an input, by where its place ends and begins. -/
theorem input_eq (h : site ∈ root.layout) :
    root.ranking.input (slotAt site.number) = toLex (root.size - site.stop, site.number + 1) :=
  congrArg (fun stop => toLex (root.size - stop, site.number + 1)) (stopAt_of_mem h)

/-- The rank of an output, by where its place begins. -/
theorem output_eq (root : Plan) (number : Nat) :
    root.ranking.output (slotAt number) = toLex (root.size - number, 0) := rfl

/-- The places of a whole plan end within it. -/
theorem stop_le (h : site ∈ root.layout) : site.stop ≤ root.size := by
  have := (sites_bounds h).2
  omega

/-- A part begins later than its place, and ends no later. -/
theorem input_lt_child (h : site ∈ root.layout) {child : Site} (hchild : child ∈ site.children) :
    root.ranking.input (slotAt site.number) < root.ranking.input (slotAt child.number) := by
  obtain ⟨hnumber, hstop⟩ := Site.child_bounds hchild
  rw [input_eq h, input_eq (child_mem h hchild), Prod.Lex.toLex_lt_toLex]
  dsimp only
  omega

/-- An input comes before the output of its own place. -/
theorem input_lt_output (h : site ∈ root.layout) :
    root.ranking.input (slotAt site.number) < root.ranking.output (slotAt site.number) := by
  have hlt := site.number_lt_stop
  have hle := stop_le h
  -- The place ends behind where it begins, so the first component is smaller already.
  rw [input_eq h, output_eq, Prod.Lex.toLex_lt_toLex]
  dsimp only
  omega

/-- The output of a place is passed on to higher ranks: to its parent, which begins earlier, or to a
consumer, which has ended when the place begins. -/
theorem precedes_of_feeds (h : site ∈ root.layout) {listener : Listener}
    (hfeeds : Feeds root site listener) :
    root.ranking.Precedes (root.ranking.output (slotAt site.number)) listener := by
  cases hfeeds with
  | @output parent hmem hinner hchild =>
    have hnumber := (Site.child_bounds hchild).1
    have hlt := site.number_lt_stop
    have hle := stop_le h
    show root.ranking.output _ < root.ranking.output _
    rw [output_eq, output_eq, Prod.Lex.toLex_lt_toLex]
    dsimp only
    omega
  | @input consumer hmem hstop =>
    show root.ranking.output _ < root.ranking.input _
    rw [output_eq, input_eq hmem, Prod.Lex.toLex_lt_toLex]
    dsimp only
    omega
  | _ => trivial

end Plan

/-! ## Built graphs -/

namespace Graph.Assembled

open Plan

variable {registry : Registry π κ} {spec : SpecNode} {root : Plan} {declared : Declared}
  {wired : Wired π κ}

/-- The nodes that the node of a place passes its input to are those of its parts. -/
theorem exists_child_of_enters {site : Site} {kind : NodeKind π κ} {part : SlotId}
    (hkind : site.plan.kindAt registry site.number = .ok kind) (h : kind.Enters part) :
    ∃ child ∈ site.children, part = slotAt child.number := by
  obtain ⟨i, outputs, plan⟩ := site
  cases plan with
  | component consumers producers =>
    cases hkind
    have h : part ∈ producerSlots (i + 1 + consumersSize consumers) producers := h
    rw [producerSlots_eq] at h
    obtain ⟨part, hpart, rfl⟩ := List.mem_map.1 h
    exact ⟨_, Site.producer_mem hpart, rfl⟩
  | conditional conditions positive negative? =>
    cases hkind
    rcases h with rfl | h
    · exact ⟨_, Site.positive_mem, rfl⟩
    · obtain ⟨negative, rfl, rfl⟩ := Option.map_eq_some_iff.1 h
      exact ⟨_, Site.negative_mem, rfl⟩
  | constant value =>
    cases hkind
    exact h.elim
  | leaf spec state? =>
    rcases makeLeaf_eq_ok hkind with ⟨-, _, rfl⟩ | ⟨-, _, rfl⟩ <;> exact h.elim

/-- **Values ascend** in a wired graph. -/
theorem ascends (h : Assembled registry spec root declared wired) (config : Config) :
    root.ranking.Ascends (engineOf config wired) where
  enters hget henters := by
    obtain ⟨site, hsite, rfl, kind, hkind, rfl⟩ := h.exists_site hget
    obtain ⟨child, hchild, rfl⟩ := exists_child_of_enters hkind henters
    exact input_lt_child hsite hchild
  emits hget := by
    obtain ⟨site, hsite, rfl, -⟩ := h.exists_site hget
    exact input_lt_output hsite
  feeds hget listener hl := by
    obtain ⟨site, hsite, rfl, kind, -, rfl⟩ := h.exists_site hget
    exact precedes_of_feeds hsite (feeds_of_mem hsite listener hl)

end Graph.Assembled

end Dataflow
