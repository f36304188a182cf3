import Dataflow.Arena.Lemmas
import Dataflow.Clock.Lemmas
import Dataflow.Engine.Drive
import Mathlib.Logic.Relation

/-!
# What acts can do

Every act of propagation and every drive changes the engine by a sequence of steps, and `Step` lists
these once and for all. A step comes with its reason: a cell is only overwritten because a listener
was delivered to, a warning is only given because what was to be delivered to is missing. The
listeners that can be delivered to, the nodes that can be asked and the tasks that can be put off are
bounded by a `Reach`, which has to be closed under what a delivery leads to.

So an invariant of the engine is proved by going through the steps, and what never happens is read
off the reasons.
-/

namespace Dataflow

/-! ## Wiring -/

/-- The kind without what a process keeps to itself. -/
def NodeKind.wiring {π κ : Type} : NodeKind π κ → NodeKind Unit κ
  | .placeholder => .placeholder
  | .composite producers => .composite producers
  | .conditional conditions positive negative? => .conditional conditions positive negative?
  | .constant value => .constant value
  | .process kind _ => .process kind ()
  | .condition kind leaf => .condition kind leaf

/-- What wiring has given a node: its kind and its listeners. -/
def Node.wiring {π κ : Type} (node : Node π κ) : NodeKind Unit κ × List Listener :=
  (node.kind.wiring, node.outputs)

namespace Engine

variable {π κ : Type}

/-- The second engine is wired like the first one. -/
structure SameWiring (s s' : Engine π κ) : Prop where
  config : s'.config = s.config
  size : s'.arena.size = s.arena.size
  nodes : ∀ slot, (s'.arena.get? slot).map Node.wiring = (s.arena.get? slot).map Node.wiring
  channels : s'.channels = s.channels

namespace SameWiring

variable {s s' s'' : Engine π κ}

theorem refl (s : Engine π κ) : SameWiring s s := ⟨rfl, rfl, fun _ => rfl, rfl⟩

theorem trans (h : SameWiring s s') (h' : SameWiring s' s'') : SameWiring s s'' where
  config := h'.config.trans h.config
  size := h'.size.trans h.size
  nodes slot := (h'.nodes slot).trans (h.nodes slot)
  channels := h'.channels.trans h.channels

/-- A node that is there was there, wired alike. -/
theorem get?_eq_some (h : SameWiring s s') {slot : SlotId} {node : Node π κ}
    (hget : s'.arena.get? slot = some node) :
    ∃ old, s.arena.get? slot = some old ∧ old.wiring = node.wiring := by
  have hnode := h.nodes slot
  rw [hget, Option.map_some] at hnode
  exact Option.map_eq_some_iff.1 hnode.symm

/-- A node that was wired is there, with its wiring. -/
theorem exists_node (h : SameWiring s s') {slot : SlotId} {kind : NodeKind π κ}
    {outputs : List Listener} (hget : s.arena.get? slot = some (.fresh kind outputs)) :
    ∃ node, s'.arena.get? slot = some node ∧ node.kind.wiring = kind.wiring ∧
      node.outputs = outputs := by
  have hnode := h.nodes slot
  rw [hget, Option.map_some] at hnode
  obtain ⟨node, hget', hwiring⟩ := Option.map_eq_some_iff.1 hnode
  exact ⟨node, hget', congrArg Prod.fst hwiring, congrArg Prod.snd hwiring⟩

/-- Overwriting a node with one of the same wiring. -/
theorem set {slot : SlotId} {node node' : Node π κ} (hget : s.arena.get? slot = some node)
    (hwiring : node'.wiring = node.wiring) :
    SameWiring s { s with arena := s.arena.set slot node' } where
  config := rfl
  size := by
    show (s.arena.set slot node').live = s.arena.live
    rw [Arena.set]
    split <;> rfl
  nodes other := by
    by_cases h : other = slot
    · subst h
      rw [Arena.get?_set_self hget, hget, Option.map_some, Option.map_some, hwiring]
    · rw [Arena.get?_set_of_ne h]
  channels := rfl

end SameWiring

end Engine

/-! ## Reach -/

/-- What can be delivered to, what can be asked, and what can be put off. -/
structure Reach where
  delivers : Listener → Prop
  asks : SlotId → Prop
  defers : Task → Prop

namespace Reach

variable {π κ : Type}

/-- Whether what a node of the kind leads to is within reach. -/
def Covers (r : Reach) (slot : SlotId) : NodeKind π κ → Prop
  | .placeholder | .constant _ => True
  | .composite producers => ∀ producer ∈ producers, r.delivers (.input producer)
  | .conditional conditions positive negative? =>
    (∀ condition ∈ conditions, r.asks condition) ∧ r.delivers (.input positive) ∧
      ∀ negative, negative? = some negative → r.delivers (.input negative)
  | .process .. => r.delivers (.output slot) ∧ ∀ value, r.defers (.emit slot value)
  | .condition .. => r.delivers (.output slot)

/-- Whether what running a task leads to is within reach. -/
def Runs (r : Reach) : Task → Prop
  | .deliver _ listeners _ => ∀ listener ∈ listeners, r.delivers listener
  | .emit slot _ => r.delivers (.output slot)

/-- What can be put off can also be run. Propagation alone does not need this. -/
def Drives (r : Reach) : Prop := ∀ task, r.defers task → r.Runs task

/-- Whatever a delivery within reach leads to is within reach again. -/
structure Closed (r : Reach) (s : Engine π κ) : Prop where
  entered : ∀ {slot node}, r.delivers (.input slot) → s.arena.get? slot = some node →
    r.Covers slot node.kind
  relayed : ∀ {slot node}, r.delivers (.output slot) → s.arena.get? slot = some node →
    ∀ listener ∈ node.outputs, r.delivers listener
  heard : ∀ {id channel}, r.delivers (.broadcast id) → s.channels.get? id = some channel →
    ∀ value, r.defers (.deliver id channel.listeners value)
  queued : ∀ task ∈ s.queue, r.defers task
  pending : ∀ timer ∈ s.clock.pending, r.defers timer.task

end Reach

/-! ## Steps -/

namespace Engine

variable {π κ : Type}

/-- Whether there is reason for the hop: an output is passed on only within reach. -/
def HopDue (r : Reach) : Hop → Prop
  | .output slot _ _ => r.delivers (.output slot)
  | _ => True

/-- Whether there is reason for the warning. -/
def WarningDue (r : Reach) (s : Engine π κ) : Warning → Prop
  | .inputDropped slot => r.delivers (.input slot) ∧ s.arena.get? slot = none
  | .outputDropped slot => r.delivers (.output slot) ∧ s.arena.get? slot = none
  | .stateDropped slot => r.delivers (.state slot) ∧ s.arena.get? slot = none
  | .sendDropped channel => r.delivers (.broadcast channel) ∧ s.channels.get? channel = none
  | .unwired slot => r.delivers (.input slot) ∧
    ∃ node, s.arena.get? slot = some node ∧ node.kind = .placeholder
  | .conditionFreed slot => r.asks slot ∧ s.arena.get? slot = none

section

variable [Process π]

/-- The node that a run of a process leaves behind. -/
def ranNode (node : Node π κ) (kind : String) (leaf : π) (input : Value) : Node π κ :=
  { node with
    kind := .process kind (Process.run leaf input node.state?).next
    state? := (Process.run leaf input node.state?).written? <|> node.state? }

/-- A single change, with its reason. -/
inductive Step (r : Reach) (s : Engine π κ) : Engine π κ → Prop
  /-- An input begins or ends. -/
  | focused (active : List SlotId) : Step r s { s with active }
  | traced {hop : Hop} (hon : s.config.trace = true) (hdue : HopDue r hop) :
    Step r s { s with log := s.log.push (.hop hop) }
  | announced (text : String) : Step r s { s with log := s.log.push (.announced text) }
  | warned {w : Warning} (hdue : WarningDue r s w) :
    Step r s { s with log := s.log.push (.warning w) }
  /-- An input cell is overwritten. -/
  | noted {slot : SlotId} {node : Node π κ} (value : Value)
    (hreach : r.delivers (.input slot) ∨ r.asks slot) (hget : s.arena.get? slot = some node) :
    Step r s { s with arena := s.arena.set slot { node with input? := some value } }
  /-- A state cell is overwritten from outside. -/
  | bound {slot : SlotId} {node : Node π κ} (value : Value) (hreach : r.delivers (.state slot))
    (hget : s.arena.get? slot = some node) :
    Step r s { s with arena := s.arena.set slot { node with state? := some value } }
  /-- A process runs. -/
  | ran {slot : SlotId} {node : Node π κ} {kind : String} {leaf : π} (input : Value)
    (hreach : r.delivers (.input slot)) (hget : s.arena.get? slot = some node)
    (hkind : node.kind = .process kind leaf) :
    Step r s { s with arena := s.arena.set slot (ranNode node kind leaf input) }
  | sent {id : ChannelId} {channel : Channel} (value : Value) (hreach : r.delivers (.broadcast id))
    (hget : s.channels.get? id = some channel) :
    Step r s { s with queue := s.queue.push (.deliver id channel.listeners value) }
  | sunk (value : Value) : Step r s { s with outputs := s.outputs.push value }
  | scheduled {slot : SlotId} {delay : Nat} {value : Value} {clock : Clock Task}
    (hreach : r.defers (.emit slot value)) (hclock : s.clock.schedule? delay (.emit slot value) = some clock) :
    Step r s { s with clock }
  | rendered (value : Value) : Step r s { s with rendered := s.rendered.push value }
  /-- The timers that are due move into the queue. -/
  | moved : Step r s { s with clock := s.clock.takeDue.2, queue := s.queue ++ s.clock.takeDue.1 }
  /-- The queue is taken as the batch of a tick. -/
  | taken : Step r s { s with queue := #[] }
  /-- Tasks that were not run return to the front of the queue. -/
  | returned {tasks : List Task} (htasks : ∀ task ∈ tasks, r.defers task) :
    Step r s { s with queue := tasks.toArray ++ s.queue }
  /-- Time passes. -/
  | advanced (time : Nat) : Step r s { s with clock := s.clock.advanceTo time }

/-- Any number of steps. -/
abbrev Steps (r : Reach) : Engine π κ → Engine π κ → Prop := Relation.ReflTransGen (Step r)

/-- A process that has run is wired as before. -/
theorem ranNode_wiring {node : Node π κ} {kind : String} {leaf : π} (input : Value)
    (h : node.kind = .process kind leaf) : (ranNode node kind leaf input).wiring = node.wiring := by
  rw [Node.wiring, Node.wiring, h]
  rfl

/-- No step rewires anything. -/
theorem Step.sameWiring {r : Reach} {s s' : Engine π κ} (h : Step r s s') : SameWiring s s' := by
  cases h with
  | noted value hreach hget => exact .set hget rfl
  | bound value hreach hget => exact .set hget rfl
  | ran input hreach hget hkind => exact .set hget (ranNode_wiring input hkind)
  | _ => exact ⟨rfl, rfl, fun _ => rfl, rfl⟩

/-- No number of steps rewires anything. -/
theorem Steps.sameWiring {r : Reach} {s s' : Engine π κ} (h : Steps r s s') : SameWiring s s' := by
  induction h with
  | refl => exact .refl s
  | tail _ hstep ih => exact ih.trans hstep.sameWiring

end

end Engine

/-! ## Closure is kept -/

namespace Reach

variable {π κ : Type} {r : Reach}

/-- What a kind covers depends on its wiring, not on its leaf. -/
theorem Covers.of_wiring {slot : SlotId} {kind kind' : NodeKind π κ}
    (hwiring : kind.wiring = kind'.wiring) (h : r.Covers slot kind) : r.Covers slot kind' := by
  cases kind <;> cases kind' <;> cases hwiring <;> exact h

/-- Closure, of wiring that stays and of other tasks that are within reach. -/
theorem Closed.of_sameWiring {s s' : Engine π κ} (h : r.Closed s) (hsame : Engine.SameWiring s s')
    (hqueue : ∀ task ∈ s'.queue, r.defers task)
    (hpending : ∀ timer ∈ s'.clock.pending, r.defers timer.task) : r.Closed s' where
  entered hreach hget := by
    obtain ⟨old, hold, hwiring⟩ := hsame.get?_eq_some hget
    exact (h.entered hreach hold).of_wiring (congrArg Prod.fst hwiring)
  relayed hreach hget := by
    obtain ⟨old, hold, hwiring⟩ := hsame.get?_eq_some hget
    have houtputs : old.outputs = _ := congrArg Prod.snd hwiring
    have hlisteners := h.relayed hreach hold
    rw [houtputs] at hlisteners
    exact hlisteners
  heard hreach hget := h.heard hreach (hsame.channels ▸ hget)
  queued := hqueue
  pending := hpending

/-- A step leads to nowhere new. -/
theorem Closed.of_step [Process π] {s s' : Engine π κ} (h : r.Closed s)
    (hstep : Engine.Step r s s') : r.Closed s' := by
  have hsame := hstep.sameWiring
  cases hstep with
  | @sent id channel value hreach hget =>
    refine h.of_sameWiring hsame (fun task htask => ?_) h.pending
    rcases Array.mem_push.1 htask with htask | rfl
    · exact h.queued task htask
    · exact h.heard hreach hget value
  | @scheduled slot delay value clock hreach hclock =>
    refine h.of_sameWiring hsame h.queued fun timer htimer => ?_
    obtain ⟨at_, hat, rfl⟩ := Clock.schedule?_eq_some_iff.1 hclock
    rcases Clock.mem_insert.1 htimer with rfl | htimer
    · exact hreach
    · exact h.pending timer htimer
  -- A timer that is due was pending, and one that is pending still was so before.
  | moved =>
    refine h.of_sameWiring hsame (fun task htask => ?_) fun timer htimer =>
      h.pending timer ((List.dropWhile_sublist _).mem htimer)
    rw [← Array.mem_toList_iff, Array.toList_appendList] at htask
    rcases List.mem_append.1 htask with htask | htask
    · exact h.queued task (Array.mem_toList_iff.1 htask)
    · obtain ⟨timer, htimer, rfl⟩ := List.mem_map.1 htask
      exact h.pending timer ((List.takeWhile_sublist _).mem htimer)
  | taken => exact h.of_sameWiring hsame (by simp) h.pending
  | @returned tasks htasks =>
    refine h.of_sameWiring hsame (fun task htask => ?_) h.pending
    rcases Array.mem_append.1 htask with htask | htask
    · exact htasks task (List.mem_toArray.1 htask)
    · exact h.queued task htask
  | _ => exact h.of_sameWiring hsame h.queued h.pending

/-- Nor does any number of steps. -/
theorem Closed.of_steps [Process π] {s s' : Engine π κ} (h : r.Closed s)
    (hsteps : Engine.Steps r s s') : r.Closed s' := by
  induction hsteps with
  | refl => exact h
  | tail _ hstep ih => exact ih.of_step hstep

end Reach

end Dataflow
