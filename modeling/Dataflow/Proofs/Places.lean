import Dataflow.Proofs.Nesting

/-!
# Moments of a built graph

At every moment of a built graph, within an operation or between two, its nodes are those of the
places of the plan, with the listeners of their places and maybe sinks behind them, and its channels
are those it was wired with (`Placed`). And what the jobs of a moment lead to is within reach if it was
at the start (`Within`).
-/

namespace Dataflow

open Moment

variable {π κ : Type}

/-! ## Reach at moments -/

/-- Whatever the jobs of a moment lead to is within reach. -/
structure Moment.Within (r : Reach) (m : Moment π κ) : Prop where
  closed : r.Closed m.engine
  allows : ∀ job ∈ m.todo, r.Allows job

namespace Moment.Within

variable {r : Reach} {m m' start : Moment π κ} {root : SlotId}

/-- A task that waits is one that can be put off. -/
theorem defers_of_waiting (h : Within r m) {task : Task} (htask : task ∈ m.waiting) :
    r.defers task := by
  rcases List.mem_append.1 htask with htask | htask
  · obtain ⟨job, hjob, htask⟩ := List.mem_flatMap.1 htask
    have hallows := h.allows job hjob
    cases job with
    | batch tasks => exact hallows task htask
    | _ => cases htask
  · exact h.closed.queued task (Array.mem_toList_iff.1 htask)

/-- Any job within reach may be begun when nothing is left to do. -/
theorem with_job (h : Within r m) {job : Job} (hjob : r.Allows job) :
    Within r ⟨m.engine, [job], none⟩ :=
  ⟨h.closed, List.forall_mem_singleton.2 hjob⟩

variable [Process π]

/-- An operation begins within reach if the inputs of the root and the output log are. -/
theorem begin (h : Within r m) (hsink : r.delivers .sink) (hroot : r.delivers (.input root))
    (op : Operation) : Within r (Graph.begin root op m.engine) := by
  have hended : ∀ {s'} (stop? : Option Stop), Graph.Move r m.engine op s' →
      Within r ⟨s', [], stop?⟩ := fun _ hmove =>
    ⟨hmove.closed h.closed hsink, List.forall_mem_nil _⟩
  cases op with
  | push value => exact h.with_job hroot
  | advanceBy span =>
    rw [Graph.begin, advancing]
    cases Duration.add? m.engine.clock.now span with
    | none => exact hended _ (.steps .refl)
    | some target => exact h.with_job trivial
  | tap slot =>
    rw [Graph.begin, ended, Graph.tap, Graph.addListener_eq]
    cases hget : m.engine.arena.get? slot with
    | none => exact hended none (.steps .refl)
    | some node => exact hended none (.tapped hget)
  | takeOutputs => exact hended none .tookOutputs
  | takeRendered => exact hended none .tookRendered
  | _ => exact h.with_job trivial

variable [Condition κ]

/-- What is within reach leads to nothing else. -/
theorem next (hdrives : r.Drives) (h : Within r m) (hnext : m.next? = some m') : Within r m' := by
  obtain ⟨job, rest, htodo, hcases⟩ := next?_cases hnext
  have hallows := h.allows
  rw [htodo] at hallows
  obtain ⟨hjob, hrest⟩ := List.forall_mem_cons.1 hallows
  -- When a job fails, the rest is given up, and that keeps closed what is.
  rcases hcases with ⟨jobs, s', hbegins, rfl⟩ | ⟨stop, s', hfails, rfl⟩
  · exact ⟨h.closed.of_begins hjob hbegins,
      List.forall_mem_append.2 ⟨hjob.of_begins hdrives h.closed hbegins, hrest⟩⟩
  · exact ⟨(h.closed.of_fails hfails).unwind hrest, List.forall_mem_nil _⟩

/-- At every moment of a story, whatever is to be done is within reach. -/
theorem of_story (hdrives : r.Drives) (hsink : r.delivers .sink) (hroot : r.delivers (.input root))
    (hstart : Within r start) {ops : List Operation} {ds : List Deed}
    (h : Story (Graph.begin root) start ops ds m) : Within r m :=
  h.invariant hstart (fun _ _ h hnext => h.next hdrives hnext)
    fun op _ h _ => h.begin hsink hroot op

end Moment.Within

/-! ## Places at moments -/

/-- The node is that of the place, but for sinks that were added to its output. -/
structure Node.Occupies (registry : Registry π κ) (site : Plan.Site) (node : Node π κ) : Prop where
  kind : ∃ kind, site.plan.kindAt registry site.number = .ok kind ∧ node.kind.wiring = kind.wiring
  outputs : ∃ taps, node.outputs = site.outputs ++ List.replicate taps .sink

/-- The nodes of the engine are those of the places of the plan, and its channels are the given
ones. -/
structure Engine.Placed (registry : Registry π κ) (root : Plan) (channels : Channels)
    (s : Engine π κ) : Prop where
  made : ∀ site ∈ root.layout, ∃ node, s.arena.get? (slotAt site.number) = some node ∧
    node.Occupies registry site
  placed : ∀ {slot node}, s.arena.get? slot = some node →
    ∃ site ∈ root.layout, slot = slotAt site.number
  channels : s.channels = channels

namespace Engine.Placed

variable {registry : Registry π κ} {root : Plan} {channels : Channels} {s s' : Engine π κ}

/-- The node of a slot is that of its place. -/
theorem occupies (h : s.Placed registry root channels) {site : Plan.Site} (hsite : site ∈ root.layout)
    {node : Node π κ} (hget : s.arena.get? (slotAt site.number) = some node) :
    node.Occupies registry site := by
  obtain ⟨other, hother, hoccupies⟩ := h.made site hsite
  rw [hget] at hother
  cases hother
  exact hoccupies

/-- Every node is that of a place. -/
theorem exists_site (h : s.Placed registry root channels) {slot : SlotId} {node : Node π κ}
    (hget : s.arena.get? slot = some node) :
    ∃ site ∈ root.layout, slot = slotAt site.number ∧ node.Occupies registry site := by
  obtain ⟨site, hsite, rfl⟩ := h.placed hget
  exact ⟨site, hsite, rfl, h.occupies hsite hget⟩

/-- Places depend on the wiring alone. -/
theorem of_sameWiring (h : s.Placed registry root channels) (hsame : s.SameWiring s') :
    s'.Placed registry root channels where
  made site hsite := by
    obtain ⟨node, hget, hkind, houtputs⟩ := h.made site hsite
    have hnode := hsame.nodes (slotAt site.number)
    rw [hget, Option.map_some] at hnode
    obtain ⟨node', hget', hwiring⟩ := Option.map_eq_some_iff.1 hnode
    have hkind' : node'.kind.wiring = node.kind.wiring := congrArg Prod.fst hwiring
    have houtputs' : node'.outputs = node.outputs := congrArg Prod.snd hwiring
    exact ⟨node', hget', hkind' ▸ hkind, houtputs' ▸ houtputs⟩
  placed hget := by
    obtain ⟨old, hold, -⟩ := hsame.get?_eq_some hget
    exact h.placed hold
  channels := hsame.channels.trans h.channels

/-- A tap adds a sink to a place. -/
theorem of_tapped (h : s.Placed registry root channels) {slot : SlotId} {node : Node π κ}
    (hget : s.arena.get? slot = some node) :
    Placed registry root channels { s with
      arena := s.arena.set slot { node with outputs := node.outputs ++ [.sink] } } where
  made site hsite := by
    by_cases hslot : slotAt site.number = slot
    · subst hslot
      obtain ⟨hkind, taps, houtputs⟩ := h.occupies hsite hget
      refine ⟨_, Arena.get?_set_self hget _, hkind, taps + 1, ?_⟩
      rw [houtputs, List.append_assoc, ← List.replicate_succ']
    · obtain ⟨other, hother, hoccupies⟩ := h.made site hsite
      exact ⟨other, (Arena.get?_set_of_ne hslot _).trans hother, hoccupies⟩
  placed hnew := by
    obtain ⟨old, hold, -⟩ := Graph.get?_tapped hget hnew
    exact h.placed hold
  channels := h.channels

/-- Of all operations only a tap touches a place as it begins. -/
theorem begin {slot : SlotId} (h : s.Placed registry root channels) (op : Operation) :
    (Graph.begin slot op s).engine.Placed registry root channels := by
  cases op with
  | advanceBy span => exact (engine_advancing span s).symm ▸ h
  | tap slot =>
    rw [Graph.begin, ended, Graph.tap, Graph.addListener_eq]
    cases hget : s.arena.get? slot with
    | none => exact h
    | some node => exact h.of_tapped hget
  | takeOutputs => exact h.of_sameWiring ⟨rfl, rfl, fun _ => rfl, rfl⟩
  | takeRendered => exact h.of_sameWiring ⟨rfl, rfl, fun _ => rfl, rfl⟩
  | _ => exact h

variable [Process π] [Condition κ]

/-- At every moment of a story, the graph has its places. -/
theorem of_story {slot : SlotId} {start m : Moment π κ}
    (hstart : start.engine.Placed registry root channels) {ops : List Operation} {ds : List Deed}
    (h : Story (Graph.begin slot) start ops ds m) : m.engine.Placed registry root channels :=
  h.invariant (P := fun m => m.engine.Placed registry root channels) hstart
    (fun _ _ h hnext => h.of_sameWiring (sameWiring_of_next? hnext)) fun op _ h _ => h.begin op

end Engine.Placed

/-- A graph that was just wired has its places. -/
theorem Graph.Assembled.placed {registry : Registry π κ} {spec : SpecNode} {root : Plan}
    {declared : Plan.Declared} {wired : Plan.Wired π κ}
    (h : Assembled registry spec root declared wired) (config : Config) :
    (engineOf config wired).Placed registry root wired.channels where
  made site hsite := by
    obtain ⟨kind, hkind, hget⟩ := h.get?_of_mem hsite
    exact ⟨_, hget, ⟨kind, hkind, rfl⟩, 0, (List.append_nil _).symm⟩
  placed hget := by
    obtain ⟨site, hsite, hslot, -⟩ := h.exists_site hget
    exact ⟨site, hsite, hslot⟩
  channels := rfl

end Dataflow
