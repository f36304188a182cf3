import Dataflow.Proofs.History

/-!
# References

Nodes, listeners, channels and tasks refer to nodes and channels by identifier. In a graph that was
built and not freed every reference names something that exists and is of the right kind
(`WellReferenced`). This holds as soon as the graph is wired, and it is kept, because no step rewires
a node and what is put off refers to what wiring has put there. Given this there is never a reason for
a warning, nor for a condition to have no truth value.
-/

namespace Dataflow

/-! ## Sound references -/

namespace NodeKind

variable {π κ : Type}

/-- Whether a node of the kind can be left by the outputs of its parts. -/
def IsInner : NodeKind π κ → Prop
  | .composite _ | .conditional .. => True
  | _ => False

/-- Whether a node of the kind is a leaf. -/
def IsLeaf : NodeKind π κ → Prop
  | .process .. | .condition .. => True
  | _ => False

/-- Whether a node of the kind is a process. -/
def IsProcess : NodeKind π κ → Prop
  | .process .. => True
  | _ => False

/-- Only processes have something that is not their wiring. -/
theorem eq_of_wiring {kind kind' : NodeKind π κ} (h : kind.wiring = kind'.wiring)
    (hprocess : ¬kind'.IsProcess) : kind = kind' := by
  cases kind with
  | process =>
    cases kind' with
    | process => exact absurd trivial hprocess
    | _ => cases h
  | _ =>
    cases kind' <;> cases h
    rfl

/-- Whether a property of kinds is one of their wiring. -/
def OfWiring (P : NodeKind π κ → Prop) : Prop :=
  ∀ kind kind' : NodeKind π κ, kind.wiring = kind'.wiring → P kind → P kind'

theorem ofWiring_isInner : OfWiring (π := π) (κ := κ) IsInner := by
  intro kind kind' h
  cases kind <;> cases kind' <;> cases h <;> exact id

/-- What a leaf reads may change what it is, but not that it is a leaf. -/
theorem ofWiring_isLeaf : OfWiring (π := π) (κ := κ) IsLeaf := by
  intro kind kind' h
  cases kind <;> cases kind' <;> cases h <;> exact id

/-- A process stays a process when it goes on to its next state. -/
theorem ofWiring_isProcess : OfWiring (π := π) (κ := κ) IsProcess := by
  intro kind kind' h
  cases kind <;> cases kind' <;> cases h <;> exact id

/-- A node that can give an answer can still give one after it has run. -/
theorem ofWiring_hasTruth : OfWiring (π := π) (κ := κ) HasTruth := by
  intro kind kind' h
  cases kind <;> cases kind' <;> cases h <;> exact id

end NodeKind

namespace Engine

variable {π κ : Type}

/-- The identifier names a node of such a kind. -/
def Names (s : Engine π κ) (slot : SlotId) (P : NodeKind π κ → Prop) : Prop :=
  ∃ node, s.arena.get? slot = some node ∧ P node.kind

/-- The identifier names a node. -/
def Live (s : Engine π κ) (slot : SlotId) : Prop := s.Names slot fun _ => True

/-- The identifier names a channel. -/
def HasChannel (s : Engine π κ) (id : ChannelId) : Prop := ∃ channel, s.channels.get? id = some channel

/-- The listener names something that exists and that it can deliver to: outputs leave components and
conditionals, and states are those of leaves. -/
def SoundListener (s : Engine π κ) : Listener → Prop
  | .input slot => s.Live slot
  | .output slot => s.Names slot NodeKind.IsInner
  | .state slot => s.Names slot NodeKind.IsLeaf
  | .broadcast channel => s.HasChannel channel
  | .sink => True

/-- What the task delivers to exists, and what it emits comes from a process. -/
def SoundTask (s : Engine π κ) : Task → Prop
  | .deliver channel listeners _ => s.HasChannel channel ∧ ∀ listener ∈ listeners,
    s.SoundListener listener
  | .emit slot _ => s.Names slot NodeKind.IsProcess

/-- The node is wired, and its parts exist; conditions have a truth value to give. -/
def SoundKind (s : Engine π κ) : NodeKind π κ → Prop
  | .placeholder => False
  | .composite producers => ∀ producer ∈ producers, s.Live producer
  | .conditional conditions positive negative? =>
    (∀ condition ∈ conditions, s.Names condition NodeKind.HasTruth) ∧ s.Live positive ∧
      ∀ negative, negative? = some negative → s.Live negative
  | _ => True

/-- Every reference names something that exists and is of the right kind. -/
structure WellReferenced (s : Engine π κ) : Prop where
  kinds : ∀ {slot node}, s.arena.get? slot = some node → s.SoundKind node.kind
  outputs : ∀ {slot node}, s.arena.get? slot = some node → ∀ listener ∈ node.outputs,
    s.SoundListener listener
  heard : ∀ {id channel}, s.channels.get? id = some channel → ∀ listener ∈ channel.listeners,
    s.SoundListener listener
  queued : ∀ task ∈ s.queue, s.SoundTask task
  pending : ∀ timer ∈ s.clock.pending, s.SoundTask timer.task

/-! ## References depend on the kinds of nodes alone -/

/-- The second engine has the nodes, of the same wired kinds, and the channels of the first one. -/
structure SameKinds (s s' : Engine π κ) : Prop where
  kinds : ∀ slot, (s'.arena.get? slot).map (fun node => node.kind.wiring) =
    (s.arena.get? slot).map fun node => node.kind.wiring
  channels : s'.channels = s.channels

/-- Wiring includes the kinds of nodes and the channels. -/
theorem SameWiring.sameKinds {s s' : Engine π κ} (h : SameWiring s s') : SameKinds s s' where
  kinds slot := by
    have := congrArg (Option.map Prod.fst) (h.nodes slot)
    rwa [Option.map_map, Option.map_map] at this
  channels := h.channels

namespace SameKinds

theorem refl (s : Engine π κ) : SameKinds s s := ⟨fun _ => rfl, rfl⟩

theorem trans {s s' s'' : Engine π κ} (h : SameKinds s s') (h' : SameKinds s' s'') :
    SameKinds s s'' :=
  ⟨fun slot => (h'.kinds slot).trans (h.kinds slot), h'.channels.trans h.channels⟩

variable {s s' : Engine π κ} (h : SameKinds s s')

include h

theorem symm : SameKinds s' s := ⟨fun slot => (h.kinds slot).symm, h.channels.symm⟩

/-- A reference to a node of some kind stays one. -/
theorem names {slot : SlotId} {P : NodeKind π κ → Prop} (hP : NodeKind.OfWiring P)
    (hnames : s.Names slot P) : s'.Names slot P := by
  obtain ⟨node, hget, hkind⟩ := hnames
  have hslot := h.kinds slot
  rw [hget, Option.map_some] at hslot
  obtain ⟨node', hget', hwiring⟩ := Option.map_eq_some_iff.1 hslot
  exact ⟨node', hget', hP _ _ hwiring.symm hkind⟩

/-- Nodes that were there are there. -/
theorem live {slot : SlotId} (hlive : s.Live slot) : s'.Live slot :=
  h.names (fun _ _ _ _ => trivial) hlive

/-- Channels that were there are there. -/
theorem hasChannel {id : ChannelId} (hid : s.HasChannel id) : s'.HasChannel id := by
  obtain ⟨channel, hget⟩ := hid
  exact ⟨channel, h.channels ▸ hget⟩

/-- A listener that points somewhere still does. -/
theorem soundListener {listener : Listener} (hl : s.SoundListener listener) :
    s'.SoundListener listener := by
  cases listener with
  | input slot => exact h.live hl
  | output slot => exact h.names NodeKind.ofWiring_isInner hl
  | state slot => exact h.names NodeKind.ofWiring_isLeaf hl
  | broadcast channel => exact h.hasChannel hl
  | sink => trivial

/-- A task that leads somewhere still does. -/
theorem soundTask {task : Task} (ht : s.SoundTask task) : s'.SoundTask task := by
  cases task with
  | deliver channel listeners value =>
    exact ⟨h.hasChannel ht.1, fun listener hl => h.soundListener (ht.2 listener hl)⟩
  | emit slot value => exact h.names NodeKind.ofWiring_isProcess ht

/-- A kind that refers to nodes still does, whatever its leaf has become. -/
theorem soundKind {kind kind' : NodeKind π κ} (hwiring : kind.wiring = kind'.wiring)
    (hk : s.SoundKind kind) : s'.SoundKind kind' := by
  cases kind <;> cases kind' <;> cases hwiring
  case placeholder => exact hk
  case composite producers => exact fun producer hp => h.live (hk producer hp)
  case conditional conditions positive negative? =>
    obtain ⟨hconditions, hpositive, hnegative⟩ := hk
    exact ⟨fun c hc => h.names NodeKind.ofWiring_hasTruth (hconditions c hc), h.live hpositive,
      fun n hn => h.live (hnegative n hn)⟩
  all_goals trivial

end SameKinds

/-- References stay sound if outputs are kept but for sinks and tasks are sound. -/
theorem WellReferenced.of_sameKinds {s s' : Engine π κ} (hs : s.WellReferenced)
    (h : SameKinds s s')
    (houtputs : ∀ {slot node}, s'.arena.get? slot = some node → ∀ listener ∈ node.outputs,
      listener = .sink ∨ s.SoundListener listener)
    (hqueue : ∀ task ∈ s'.queue, s.SoundTask task)
    (hpending : ∀ timer ∈ s'.clock.pending, s.SoundTask timer.task) : s'.WellReferenced where
  kinds {slot node} hget := by
    have hslot := h.kinds slot
    rw [hget, Option.map_some] at hslot
    obtain ⟨old, hold, hwiring⟩ := Option.map_eq_some_iff.1 hslot.symm
    exact h.soundKind hwiring (hs.kinds hold)
  outputs hget listener hl := by
    rcases houtputs hget listener hl with rfl | hl
    · trivial
    · exact h.soundListener hl
  heard hget listener hl := h.soundListener (hs.heard (h.channels ▸ hget) listener hl)
  queued task ht := h.soundTask (hqueue task ht)
  pending timer ht := h.soundTask (hpending timer ht)

/-! ## What references reach -/

/-- Whether a node of the kind passes outputs on while the graph runs. A constant does not. -/
def PassesOn (kind : NodeKind π κ) : Prop := kind.IsInner ∨ kind.IsLeaf

/-- What sound references reach. -/
def references (s : Engine π κ) : Reach where
  delivers
    | .output slot => s.Names slot PassesOn
    | listener => s.SoundListener listener
  asks slot := s.Names slot NodeKind.HasTruth
  defers := s.SoundTask

/-- A reference to a node of some kind is one to a node of any wider kind. -/
theorem Names.mono {s : Engine π κ} {slot : SlotId} {P Q : NodeKind π κ → Prop}
    (h : s.Names slot P) (hPQ : ∀ kind, P kind → Q kind) : s.Names slot Q := by
  obtain ⟨node, hget, hP⟩ := h
  exact ⟨node, hget, hPQ _ hP⟩

/-- A sound listener is within the reach of references. -/
theorem SoundListener.delivers {s : Engine π κ} {listener : Listener}
    (h : s.SoundListener listener) : s.references.delivers listener := by
  cases listener with
  | output slot => exact Names.mono h fun _ => .inl
  | _ => exact h

/-- What the tasks of a well-referenced engine need is within reach. -/
theorem references_drives (s : Engine π κ) : s.references.Drives := by
  intro task htask
  cases task with
  | deliver channel listeners value => exact fun listener hl => (htask.2 listener hl).delivers
  | emit slot value =>
    refine Names.mono htask fun kind hkind => .inr ?_
    cases kind <;> first | exact hkind.elim | trivial

/-- Nothing leads out of the reach of sound references. -/
theorem WellReferenced.closed {s : Engine π κ} (hs : s.WellReferenced) : s.references.Closed s where
  entered {slot node} _ hget := by
    have hkind := hs.kinds hget
    -- A leaf refers to itself, as it emits what it answers.
    have hself : ∀ {P : NodeKind π κ → Prop}, P node.kind → s.Names slot P := fun h =>
      ⟨node, hget, h⟩
    cases hk : node.kind with
    | placeholder => trivial
    | composite producers =>
      rw [hk] at hkind
      exact hkind
    | conditional conditions positive negative? =>
      rw [hk] at hkind
      exact hkind
    | constant value => trivial
    | process kind leaf =>
      exact ⟨hself (.inr (by rw [hk]; trivial)), fun _ => hself (by rw [hk]; trivial)⟩
    | condition kind leaf => exact hself (.inr (by rw [hk]; trivial))
  relayed _ hget listener hl := (hs.outputs hget listener hl).delivers
  heard _ hget _ := ⟨⟨_, hget⟩, hs.heard hget⟩
  queued := hs.queued
  pending := hs.pending

/-! ## What never happens -/

variable {s s' : Engine π κ}

/-- There is never a reason for a warning. -/
theorem WellReferenced.not_warningDue (hs : s.WellReferenced) (hsame : SameKinds s s') (w : Warning) :
    ¬WarningDue s.references s' w := by
  have hdead : ∀ {slot} {P : NodeKind π κ → Prop}, s.Names slot P → s'.arena.get? slot = none →
      False := by
    rintro slot P ⟨node, hget, -⟩ hnone
    obtain ⟨node', hget', -⟩ := hsame.live ⟨node, hget, trivial⟩
    rw [hget'] at hnone
    cases hnone
  intro hdue
  cases w with
  | inputDropped slot => exact hdead (show s.Live slot from hdue.1) hdue.2
  | outputDropped slot => exact hdead (show s.Names slot PassesOn from hdue.1) hdue.2
  | stateDropped slot => exact hdead (show s.Names slot NodeKind.IsLeaf from hdue.1) hdue.2
  | sendDropped channel =>
    obtain ⟨c, hc⟩ := hsame.hasChannel hdue.1
    rw [hdue.2] at hc
    cases hc
  | unwired slot =>
    obtain ⟨-, node, hget, hkind⟩ := hdue
    have hslot := hsame.kinds slot
    rw [hget, Option.map_some, hkind] at hslot
    obtain ⟨old, hold, hwiring⟩ := Option.map_eq_some_iff.1 hslot.symm
    have hsound := hs.kinds hold
    cases hk : old.kind <;> rw [hk] at hwiring hsound <;> cases hwiring
    exact hsound
  | conditionFreed slot => exact hdead (show s.Names slot NodeKind.HasTruth from hdue.1) hdue.2

/-! ## What is kept -/

section Kept

variable [Process π]

/-- **References stay sound.** -/
theorem WellReferenced.of_steps (hs : s.WellReferenced) (h : Steps s.references s s') :
    s'.WellReferenced := by
  have hsame := Steps.sameWiring h
  have hclosed := hs.closed.of_steps h
  refine hs.of_sameKinds hsame.sameKinds (fun hget listener hl => ?_) hclosed.queued hclosed.pending
  obtain ⟨old, hold, hwiring⟩ := hsame.get?_eq_some hget
  have houtputs : old.outputs = _ := congrArg Prod.snd hwiring
  exact .inr (hs.outputs hold listener (houtputs ▸ hl))

/-- No operation changes the kind of a node. -/
theorem SameKinds.of_move {r : Reach} {op : Operation} (h : Graph.Move r s op s') : SameKinds s s' := by
  cases h with
  | steps h => exact (Steps.sameWiring h).sameKinds
  | @tapped slot node hget =>
    refine ⟨fun other => ?_, rfl⟩
    by_cases ho : other = slot
    · subst ho
      rw [Arena.get?_set_self hget, hget]
      rfl
    · rw [Arena.get?_set_of_ne ho]
  | tookOutputs => exact ⟨fun _ => rfl, rfl⟩
  | tookRendered => exact ⟨fun _ => rfl, rfl⟩

/-- References stay sound in every move, taps included. -/
theorem WellReferenced.of_move {op : Operation} (hs : s.WellReferenced)
    (h : Graph.Move s.references s op s') :
    s'.WellReferenced := by
  have hsame := SameKinds.of_move h
  cases h with
  | steps h => exact hs.of_steps h
  | @tapped slot node hget =>
    -- A tap adds a sink, which refers to nothing.
    refine hs.of_sameKinds hsame (fun {other node'} hget' listener hl => ?_) hs.queued hs.pending
    by_cases ho : other = slot
    · subst ho
      rw [Arena.get?_set_self hget] at hget'
      cases hget'
      rcases List.mem_append.1 hl with hl | hl
      · exact .inr (hs.outputs hget listener hl)
      · exact .inl (List.mem_singleton.1 hl)
    · rw [Arena.get?_set_of_ne ho] at hget'
      exact .inr (hs.outputs hget' listener hl)
  | tookOutputs => exact ⟨hs.kinds, hs.outputs, hs.heard, hs.queued, hs.pending⟩
  | tookRendered => exact ⟨hs.kinds, hs.outputs, hs.heard, hs.queued, hs.pending⟩

/-- Whether a log is free of warnings. -/
def Quiet (log : Array Event) : Prop := ∀ w, .warning w ∉ log

/-- A quiet log stays quiet, since no warning is ever due. -/
theorem WellReferenced.quiet (hs : s.WellReferenced) (h : Steps s.references s s')
    (hquiet : Quiet s.log) : Quiet s'.log := by
  induction h with
  | refl => exact hquiet
  | @tail s₁ s₂ hsteps hstep ih =>
    have hpush : ∀ event : Event, (∀ w, event ≠ .warning w) → Quiet (s₁.log.push event) := by
      intro event hevent w hw
      rcases Array.mem_push.1 hw with hw | hw
      · exact ih w hw
      · exact hevent w hw.symm
    cases hstep with
    | traced hon hdue => exact hpush _ (by simp)
    | announced text => exact hpush _ (by simp)
    | warned hdue =>
      exact absurd hdue (hs.not_warningDue (Steps.sameWiring hsteps).sameKinds _)
    | _ => exact ih

/-- Emptying a log of values or adding a sink reports nothing. -/
theorem WellReferenced.quiet_of_move {op : Operation} (hs : s.WellReferenced)
    (h : Graph.Move s.references s op s')
    (hquiet : Quiet s.log) : Quiet s'.log := by
  cases h with
  | steps h => exact hs.quiet h hquiet
  | _ => exact hquiet

/-- Every condition that is asked has a truth value to give. -/
theorem references_not_halts_notBool [Condition κ] (kind : String) (value : Value) :
    ¬Halts s.references s (.failed (.notBool kind value)) := by
  rintro ⟨s', slot, node, hsteps, hasks, hget, hnot⟩
  obtain ⟨node', hget', htruth⟩ :=
    (Steps.sameWiring hsteps).sameKinds.names NodeKind.ofWiring_hasTruth hasks
  rw [hget] at hget'
  cases hget'
  exact hnot htruth

end Kept

end Engine

end Dataflow
