import Dataflow.Proofs.Uses

/-!
# Freeing is final

What a graph leaves when it is freed is its remains: the time, the values that were not taken yet, and the
reports. Of everything else that could do something there is nothing left, although listeners, tasks and
timers named the nodes and every identifier is still known outside. So the freed graph answers as its
remains do, which `Remains.use` tells in a few lines: nothing is run and nothing is put off, no log grows
but the reports, where a value that is pushed is said to be dropped.
-/

namespace Dataflow

/-! ## Remains -/

/-- What is left of a graph that was freed: the time, the values not taken yet, and the reports. -/
structure Remains where
  now : Nat
  outputs : Array Value
  rendered : Array Value
  log : Array Event

/-- Whether a use takes the output log. -/
def Use.takesOutputs : Use → Bool
  | .operation .takeOutputs => true
  | _ => false

/-- Whether a use takes the render log. -/
def Use.takesRendered : Use → Bool
  | .operation .takeRendered => true
  | _ => false

namespace Remains

/-- What a use of a freed graph answers, and what it makes of the remains. Values were pushed to `root`. -/
def use (root : SlotId) (r : Remains) : Use → Except Stop UseAnswer × Remains
  | .operation (.push _) =>
    (.ok (.inl .done), { r with log := r.log.push (.warning (.inputDropped root)) })
  | .operation .tick => (.ok (.inl (.ticks 0)), r)
  | .operation .runUntilIdle => (.ok (.inl (.ticks 0)), r)
  | .operation (.advanceBy span) =>
    if r.now + span < Duration.limit then (.ok (.inl .done), { r with now := r.now + span })
    else (.error .timeOverflow, r)
  | .operation .settle => (.ok (.inl .done), r)
  | .operation (.tap _) => (.ok (.inl (.tapped false)), r)
  | .operation .takeOutputs => (.ok (.inl (.taken r.outputs)), { r with outputs := #[] })
  | .operation .takeRendered => (.ok (.inl (.taken r.rendered)), { r with rendered := #[] })
  | .teardown => (.ok (.inr 0), r)

/-- What uses of a freed graph answer, one after the other, and what they make of the remains. -/
def useAll (root : SlotId) (r : Remains) : List Use → List (Except Stop UseAnswer) × Remains
  | [] => ([], r)
  | u :: us =>
    let (answer, r) := r.use root u
    let (answers, r) := r.useAll root us
    (answer :: answers, r)

/-- Only a time that is not representable is refused. -/
theorem use_ok {u : Use} {r : Remains} (root : SlotId)
    (h : ∀ span, u = .operation (.advanceBy span) → r.now + span < Duration.limit) :
    ∃ answer, (r.use root u).1 = .ok answer := by
  cases u with
  | teardown => exact ⟨_, rfl⟩
  | operation op =>
    cases op with
    | advanceBy span => exact ⟨.inl .done, congrArg Prod.fst (if_pos (h span rfl))⟩
    | _ => exact ⟨_, rfl⟩

/-- Of all uses only taking the output log changes it: nothing is put out any more. -/
theorem use_outputs (root : SlotId) (r : Remains) (u : Use) :
    (r.use root u).2.outputs = if u.takesOutputs then #[] else r.outputs := by
  cases u with
  | teardown => rfl
  | operation op =>
    cases op with
    | advanceBy span =>
      unfold use
      dsimp only
      split <;> rfl
    | _ => rfl

/-- Of all uses only taking the render log changes it. -/
theorem use_rendered (root : SlotId) (r : Remains) (u : Use) :
    (r.use root u).2.rendered = if u.takesRendered then #[] else r.rendered := by
  cases u with
  | teardown => rfl
  | operation op =>
    cases op with
    | advanceBy span =>
      unfold use
      dsimp only
      split <;> rfl
    | _ => rfl

/-- A log that a use either takes or leaves stays as it is until it is taken, and is empty from then on. -/
theorem log_useAll {log : Remains → Array Value} {takes : Use → Bool} {root : SlotId}
    (huse : ∀ r u, log (r.use root u).2 = if takes u then #[] else log r) (r : Remains)
    (us : List Use) : log (r.useAll root us).2 = if us.any takes then #[] else log r := by
  induction us generalizing r with
  | nil => rfl
  | cons u us ih =>
    have hcons : (r.useAll root (u :: us)).2 = ((r.use root u).2.useAll root us).2 := rfl
    rw [hcons, ih, huse, List.any_cons]
    -- A log that was taken once is empty, and stays so when it is taken again.
    cases takes u <;> simp

end Remains

/-! ## Engines that own nothing -/

/-- No identifier of a list names a node once the list is released. -/
theorem Arena.get?_foldl_release {ν : Type} {a : Arena ν} {slots : List SlotId} {slot : SlotId}
    (h : slot ∈ slots ∨ a.get? slot = none) : (slots.foldl Arena.release a).get? slot = none := by
  induction slots generalizing a with
  | nil => exact h.resolve_left List.not_mem_nil
  | cons first slots ih =>
    apply ih
    by_cases hfirst : slot = first
    · subst hfirst
      exact .inr (Arena.get?_release_self a slot)
    · rw [Arena.get?_release_of_ne hfirst]
      exact h.imp_left fun hmem => (List.mem_cons.1 hmem).resolve_left hfirst

namespace Engine

variable {π κ : Type} {s : Engine π κ}

/-- The engine owns no nodes, channels, tasks or timers. -/
structure OwnsNothing (s : Engine π κ) : Prop where
  get? : ∀ slot, s.arena.get? slot = none
  size : s.arena.size = 0
  channels : s.channels = .empty
  queue : s.queue = #[]
  pending : s.clock.pending = []

/-- No node is listed. -/
theorem OwnsNothing.toList (h : s.OwnsNothing) : s.arena.toList = [] := by
  refine List.eq_nil_iff_forall_not_mem.2 fun ⟨slot, node⟩ hmem => ?_
  have hget := Arena.mem_toList.1 hmem
  rw [h.get?] at hget
  cases hget

/-- No identifier is listed. -/
theorem OwnsNothing.slots (h : s.OwnsNothing) : s.arena.slots = [] := congrArg (List.map _) h.toList

/-- Freeing an engine leaves it with nothing. -/
theorem ownsNothing_freed (h : s.arena.WellFormed) : s.freed.OwnsNothing := by
  have hget : ∀ slot, s.freed.arena.get? slot = none := by
    intro slot
    refine Arena.get?_foldl_release ?_
    cases hslot : s.arena.get? slot with
    | none => exact .inr rfl
    | some node => exact .inl (Arena.mem_slots.2 ⟨node, hslot⟩)
  have hslots : s.freed.arena.slots = [] := by
    refine List.eq_nil_iff_forall_not_mem.2 fun slot hmem => ?_
    obtain ⟨node, hnode⟩ := Arena.mem_slots.1 hmem
    rw [hget] at hnode
    cases hnode
  have hwf : s.freed.arena.WellFormed := h.foldl_release _
  exact ⟨hget, by rw [← hwf.length_slots, hslots]; rfl, rfl, rfl, rfl⟩

/-- There is nothing to free a second time. -/
theorem OwnsNothing.freed_eq (h : s.OwnsNothing) : s.freed = s := by
  have hslots := h.slots
  obtain ⟨config, arena, channels, ⟨now, scheduled, pending⟩, queue, outputs, rendered, log, active⟩ := s
  obtain ⟨-, -, rfl, rfl, rfl⟩ := h
  unfold freed
  rw [hslots]
  rfl

/-- No task waits, and no timer will. -/
theorem OwnsNothing.isRunnable (h : s.OwnsNothing) : s.isRunnable = false := by
  refine isRunnable_eq_false_iff.2 ⟨h.queue, fun timer hhead => ?_⟩
  rw [h.pending] at hhead
  cases hhead

/-- Whatever the horizon, there is no deadline to move the time to. -/
theorem OwnsNothing.makeRunnable (h : s.OwnsNothing) (horizon : Horizon) :
    makeRunnable horizon s = .ok false s := by
  refine (MakesRunnable.idle h.isRunnable fun timer hhead => ?_).eq
  rw [h.pending] at hhead
  cases hhead

variable [Process π] [Condition κ]

/-- A tick finds nothing to run. -/
theorem OwnsNothing.tick (h : s.OwnsNothing) : tick s = .ok 0 s := by
  obtain ⟨config, arena, channels, ⟨now, scheduled, pending⟩, queue, outputs, rendered, log, active⟩ := s
  obtain ⟨-, -, rfl, rfl, rfl⟩ := h
  rfl

/-- A drive runs no tick, whatever its horizon. -/
theorem OwnsNothing.drive (h : s.OwnsNothing) (horizon : Horizon) (budget : Nat) :
    drive horizon budget s = .ok budget s := drive_of_idle (h.makeRunnable horizon)

/-- A whole drive is over with no tick. -/
theorem OwnsNothing.driveAll (h : s.OwnsNothing) (horizon : Horizon) : driveAll horizon s = .ok 0 s := by
  rw [driveAll_eq, bind_of_ok (h.drive horizon s.config.maxTicks), Nat.sub_self]
  rfl

/-- Time passes as far as it is asked to, unless it cannot be represented. -/
theorem OwnsNothing.advanceBy (h : s.OwnsNothing) (span : Nat) :
    advanceBy span s =
      if s.clock.now + span < Duration.limit then
        .ok () { s with clock := { s.clock with now := s.clock.now + span } }
      else .error .timeOverflow s := by
  rw [advanceBy_eq, Duration.add?]
  -- The drive up to the target runs no tick, so the time jumps to the target.
  by_cases hlimit : s.clock.now + span < Duration.limit
  · rw [if_pos hlimit, if_pos hlimit]
    dsimp only
    rw [bind_of_ok (h.drive _ _)]
    have hmax : max s.clock.now (s.clock.now + span) = s.clock.now + span :=
      Nat.max_eq_right (Nat.le_add_right ..)
    show EStateM.Result.ok () { s with clock := s.clock.advanceTo (s.clock.now + span) } = _
    rw [Clock.advanceTo, hmax]
  · rw [if_neg hlimit, if_neg hlimit]

/-- An input that is not nested is dropped with a warning. -/
theorem OwnsNothing.setInput (h : s.OwnsNothing) (hdepth : 1 ≤ s.config.maxDepth)
    (hactive : s.active = []) (slot : SlotId) (value : Value) :
    setInput slot value s = .ok () { s with log := s.log.push (.warning (.inputDropped slot)) } := by
  -- The limit leaves room for one input, as no other is in progress.
  have hallowance : s.allowance = s.config.maxDepth - 1 + 1 := by
    rw [allowance, depth, hactive]
    exact (Nat.sub_add_cancel hdepth).symm
  -- The identifier names no node, so the input is put in progress, dropped with a warning and left.
  have hstore : storeAndRun (enterWithin (s.config.maxDepth - 1)) slot value
      { s with active := slot :: s.active } =
        .ok () { s with
          active := slot :: s.active
          log := s.log.push (.warning (.inputDropped slot)) } := by
    unfold storeAndRun
    rw [node?_bind, show _ = none from h.get? slot]
    rfl
  show enterWithin s.allowance slot value s = _
  rw [hallowance]
  show nested slot (storeAndRun (enterWithin (s.config.maxDepth - 1)) slot value) s = _
  rw [nested, hstore]
  rfl

end Engine

/-! ## Graphs of which nothing is left -/

namespace Graph

variable {π κ : Type} {g : Graph π κ}

/-- The remains of a graph. -/
def remains (g : Graph π κ) : Remains :=
  ⟨g.engine.clock.now, g.engine.outputs, g.engine.rendered, g.engine.log⟩

/-- The graph with other remains. -/
def leaving (g : Graph π κ) (r : Remains) : Graph π κ :=
  { g with engine := { g.engine with
    clock := { g.engine.clock with now := r.now }
    outputs := r.outputs
    rendered := r.rendered
    log := r.log } }

/-- A graph with other remains has those. -/
theorem remains_leaving (g : Graph π κ) (r : Remains) : (g.leaving r).remains = r := rfl

/-- The last remains are what counts. -/
theorem leaving_leaving (g : Graph π κ) (r r' : Remains) : (g.leaving r).leaving r' = g.leaving r' := rfl

/-- Nothing is left of the graph, and an input would be refused by no limit. -/
structure Gone (g : Graph π κ) : Prop where
  owns : g.engine.OwnsNothing
  depth : 1 ≤ g.engine.config.maxDepth
  active : g.engine.active = []

/-- Remains bring nothing back to a graph that is gone. -/
theorem Gone.leaving (h : g.Gone) (r : Remains) : (g.leaving r).Gone :=
  ⟨⟨h.owns.get?, h.owns.size, h.owns.channels, h.owns.queue, h.owns.pending⟩, h.depth, h.active⟩

/-- An act that succeeds is answered, and leaves its engine. -/
theorem perform_of_ok {α : Type} {act : Act π κ α} {a : α} {s : Engine π κ}
    (h : act g.engine = .ok a s) : g.perform act = (.ok a, { g with engine := s }) := by
  rw [perform, h]

/-- An act that fails is answered with why, and leaves its engine as well. -/
theorem perform_of_error {α : Type} {act : Act π κ α} {stop : Stop} {s : Engine π κ}
    (h : act g.engine = .error stop s) : g.perform act = (.error stop, { g with engine := s }) := by
  rw [perform, h]

variable [Process π] [Condition κ]

/-- A graph of which nothing is left answers as its remains do. -/
theorem Gone.use (h : g.Gone) (u : Use) :
    g.use u = ((g.remains.use g.root u).1, g.leaving (g.remains.use g.root u).2) := by
  cases u with
  | teardown => rw [use_teardown, h.owns.slots, h.owns.freed_eq]; rfl
  | operation op =>
    rw [use_operation]
    -- Every act comes to one of the lemmas above, and the remains answer the same.
    cases op with
    | push value =>
      have hpush : g.act (.push value) g.engine = .ok .done _ :=
        Engine.bind_of_ok (h.owns.setInput h.depth h.active g.root value)
      rw [operate, perform_of_ok hpush]
      rfl
    | tick =>
      have htick : g.act .tick g.engine = .ok (.ticks 0) g.engine := Engine.bind_of_ok h.owns.tick
      rw [operate, perform_of_ok htick]
      rfl
    | runUntilIdle =>
      have hrun : g.act .runUntilIdle g.engine = .ok (.ticks 0) g.engine :=
        Engine.bind_of_ok (h.owns.driveAll .now)
      rw [operate, perform_of_ok hrun]
      rfl
    | advanceBy span =>
      have hadvance := h.owns.advanceBy span
      by_cases hlimit : g.engine.clock.now + span < Duration.limit
      · rw [if_pos hlimit] at hadvance
        have hact : g.act (.advanceBy span) g.engine = .ok .done _ := Engine.bind_of_ok hadvance
        have hremains : g.remains.use g.root (.operation (.advanceBy span)) = (.ok (.inl .done), _) :=
          if_pos hlimit
        rw [operate, perform_of_ok hact, hremains]
        rfl
      · rw [if_neg hlimit] at hadvance
        have hact : g.act (.advanceBy span) g.engine = .error .timeOverflow _ :=
          Engine.bind_of_error hadvance
        have hremains : g.remains.use g.root (.operation (.advanceBy span)) =
            (.error .timeOverflow, _) := if_neg hlimit
        rw [operate, perform_of_error hact, hremains]
        rfl
    | settle =>
      have hsettle : g.act .settle g.engine = .ok .done g.engine :=
        Engine.bind_of_ok (Engine.bind_of_ok (h.owns.driveAll .unbounded))
      rw [operate, perform_of_ok hsettle]
      rfl
    | tap slot =>
      rw [operate_tap, h.owns.get? slot]
      rfl
    | takeOutputs => rfl
    | takeRendered => rfl

/-- However a graph of which nothing is left is used, its remains answer for it, and it stays gone. -/
theorem Gone.useAll (h : g.Gone) (us : List Use) :
    g.useAll us = ((g.remains.useAll g.root us).1, g.leaving (g.remains.useAll g.root us).2) := by
  induction us generalizing g with
  | nil => rfl
  | cons u us ih =>
    rw [useAll_cons, h.use u]
    dsimp only
    rw [ih (h.leaving _), remains_leaving, leaving_leaving]
    rfl

/-- What is seen of a graph of which nothing is left: no nodes, whatever identifier is asked about, no work
that is queued or timed, and none that a tick or a drive would do. -/
structure ShowsNothing (g : Graph π κ) : Prop where
  nodeCount : g.nodeCount = 0
  find : ∀ kind, g.find kind = []
  inputOf? : ∀ slot, g.inputOf? slot = none
  stateOf? : ∀ slot, g.stateOf? slot = none
  queue : g.engine.queue = #[]
  timers : g.engine.clock.pending = []
  tick : Engine.tick g.engine = .ok 0 g.engine
  drive : ∀ horizon, Engine.driveAll horizon g.engine = .ok 0 g.engine

/-- Nothing is left to be seen of a graph that is gone. -/
theorem Gone.showsNothing (h : g.Gone) : g.ShowsNothing where
  nodeCount := h.owns.size
  find kind := by rw [find, h.owns.toList]; rfl
  inputOf? slot := by rw [inputOf?, h.owns.get?]; rfl
  stateOf? slot := by rw [stateOf?, h.owns.get?]; rfl
  queue := h.owns.queue
  timers := h.owns.pending
  tick := h.owns.tick
  drive := h.owns.driveAll

/-- A graph in order is gone once it is freed. -/
theorem InOrder.gone {config : Config} (h : g.InOrder config) (hdepth : 1 ≤ config.maxDepth) :
    (g.use .teardown).2.Gone :=
  ⟨Engine.ownsNothing_freed h.arena, h.config ▸ hdepth, h.active⟩

/-- Freeing the graph tells how many nodes there were and keeps its remains, and nothing but the remains
answers from then on. -/
structure FreedForGood (g : Graph π κ) : Prop where
  answer : (g.use .teardown).1 = .ok (.inr g.nodeCount)
  answers : ∀ us, ((g.use .teardown).2.useAll us).1 = (g.remains.useAll g.root us).1
  remains : ∀ us, ((g.use .teardown).2.useAll us).2.remains = (g.remains.useAll g.root us).2
  shows : ∀ us, ((g.use .teardown).2.useAll us).2.ShowsNothing
  succeeds : ∀ us u, (∀ span, u = .operation (.advanceBy span) →
    ((g.use .teardown).2.useAll us).2.now + span < Duration.limit) →
      ∃ answer, (((g.use .teardown).2.useAll us).2.use u).1 = .ok answer
  outputs : ∀ us, ((g.use .teardown).2.useAll us).2.engine.outputs =
    if us.any Use.takesOutputs then #[] else g.engine.outputs
  rendered : ∀ us, ((g.use .teardown).2.useAll us).2.engine.rendered =
    if us.any Use.takesRendered then #[] else g.engine.rendered

/-- A graph in order that is freed is gone, so its remains tell all of what comes after. -/
theorem InOrder.freedForGood {config : Config} (h : g.InOrder config) (hdepth : 1 ≤ config.maxDepth) :
    g.FreedForGood := by
  have hgone := h.gone hdepth
  have hremains : ∀ us, ((g.use .teardown).2.useAll us).2.remains = (g.remains.useAll g.root us).2 := by
    intro us
    rw [hgone.useAll]
    rfl
  -- Whatever uses follow, the graph is still gone and only its remains differ.
  have hstays : ∀ us, ((g.use .teardown).2.useAll us).2.Gone := by
    intro us
    rw [hgone.useAll]
    exact hgone.leaving _
  refine ⟨?_, fun us => ?_, hremains, fun us => (hstays us).showsNothing, fun us u hu => ?_,
    fun us => ?_, fun us => ?_⟩
  · rw [use_teardown, h.arena.length_slots]
    rfl
  · rw [hgone.useAll]
    rfl
  · rw [(hstays us).use]
    exact Remains.use_ok _ hu
  · exact (congrArg Remains.outputs (hremains us)).trans (Remains.log_useAll (Remains.use_outputs _) ..)
  · exact (congrArg Remains.rendered (hremains us)).trans (Remains.log_useAll (Remains.use_rendered _) ..)

/-- **Freeing is final.** Whatever was done with a graph before, and whether it failed or not, freeing it
tells the number of its nodes; after that every use only finds what the graph left. -/
theorem teardown_is_final {registry : Registry π κ} {config : Config} {spec : SpecNode}
    {g : Graph π κ} (hdepth : 1 ≤ config.maxDepth) (hbuild : build registry config spec = .ok g)
    (before : List Use) : (g.useAll before).2.FreedForGood :=
  ((inOrder_of_build hbuild).useAll before).freedForGood hdepth

/-- Settling echoes is cut off by the budget, and leaves a task in the queue. Freeing the graph then tells
of its four nodes, and is final. -/
theorem teardown_is_final_echoes :
    let config : Config := { maxDepth := 3, maxTicks := 1 }
    let before : List Use := [.operation .settle]
    1 ≤ config.maxDepth ∧ ∃ g, build Registry.echo config SpecNode.echoed = .ok g ∧
      (g.useAll before).1.all Except.isOk = false ∧ (g.useAll before).2.engine.queue.size = 1 ∧
      (g.useAll before).2.nodeCount = 4 ∧ (g.useAll before).2.FreedForGood := by
  intro config before
  have hrun : (build Registry.echo config SpecNode.echoed).toOption.map (fun g =>
      ((g.useAll before).1.all Except.isOk, (g.useAll before).2.engine.queue.size,
        (g.useAll before).2.nodeCount)) = some (false, 1, 4) := by decide +kernel
  have hdepth : 1 ≤ config.maxDepth := by decide
  refine ⟨hdepth, ?_⟩
  cases h : build Registry.echo config SpecNode.echoed with
  | error stop =>
    rw [h] at hrun
    cases hrun
  | ok g =>
    rw [h] at hrun
    have hfacts := Option.some.inj hrun
    rw [Prod.mk.injEq, Prod.mk.injEq] at hfacts
    obtain ⟨hfails, hqueue, hcount⟩ := hfacts
    exact ⟨g, rfl, hfails, hqueue, hcount, teardown_is_final hdepth h before⟩

end Graph

end Dataflow
