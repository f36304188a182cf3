import Dataflow.Arena.Lemmas
import Dataflow.Proofs.Nesting
import Dataflow.Proofs.Tracing
import Mathlib.Data.Finset.Card

/-!
# Propagation ends

Within one propagation values can go in circles: through inputs, where the allowance for nesting ends
the circle, or through outputs alone, where nothing in the program does. In the engine the second
kind is cut off by a limit on the number of outputs passed on in a row. If outputs are not passed on
in a circle, the limit is never reached: an output has a rank, which is less than the limit, and is
only passed on to outputs of lower ranks (`Acyclic.exists_rank`), so every job that passes an output
on has more hops left than it needs (`Grounded`).

So a propagation ends because its program does, whatever else is wired in circles. Built graphs pass
their outputs on in the order of ranks that `Dataflow.Proofs.Ascent` tells of.
-/

namespace Dataflow

open Moment

/-! ## Ranks -/

/-- If a relation has no circles and its arrows begin in a finite set, there are ranks that descend
along it, no higher than the set is large. -/
theorem exists_rank {α : Type} {R : α → α → Prop} (sources : Finset α)
    (hsources : ∀ a b, R a b → a ∈ sources) (hacyclic : ∀ a, ¬Relation.TransGen R a a) :
    ∃ rank : α → ℕ, (∀ a, rank a ≤ sources.card) ∧ ∀ a b, R a b → rank b < rank a := by
  classical
  -- The rank of a place is the number of sources that can be reached from it.
  refine ⟨fun a => (sources.filter (Relation.ReflTransGen R a)).card,
    fun a => Finset.card_filter_le .., fun a b hab => Finset.card_lt_card ?_⟩
  rw [Finset.ssubset_iff_of_subset]
  · refine ⟨a, Finset.mem_filter.2 ⟨hsources a b hab, .refl⟩, fun hback => ?_⟩
    exact hacyclic a (.head' hab (Finset.mem_filter.1 hback).2)
  · intro c hc
    obtain ⟨hmem, hbc⟩ := Finset.mem_filter.1 hc
    exact Finset.mem_filter.2 ⟨hmem, .head hab hbc⟩

/-- A relation whose arrows go one way along a rank has no circles. -/
theorem not_transGen_self {α β : Type} {R : α → α → Prop} {S : β → β → Prop} [IsTrans β S]
    [Std.Irrefl S] {rank : α → β} (h : ∀ a b, R a b → S (rank a) (rank b)) (a : α) :
    ¬Relation.TransGen R a a := by
  intro hcircle
  have hself : Relation.TransGen S (rank a) (rank a) := hcircle.lift rank h
  rw [Relation.transGen_eq_self] at hself
  exact irrefl _ hself

/-! ## Outputs that are passed on -/

namespace Engine

variable {π κ : Type} {s s' : Engine π κ}

/-- What the first node puts out is put out by the second one as well. -/
def Relays (s : Engine π κ) (slot other : SlotId) : Prop :=
  ∃ node, s.arena.get? slot = some node ∧ .output other ∈ node.outputs

/-- No output is passed on in a circle. -/
def Acyclic (s : Engine π κ) : Prop := ∀ slot, ¬Relation.TransGen s.Relays slot slot

/-- Outputs are passed on to lower ranks, and the highest rank is within the limit. -/
structure Grounds (s : Engine π κ) (rank : SlotId → ℕ) : Prop where
  lt_limit : ∀ slot, rank slot < relayLimit s
  lt_of_relays : ∀ {slot other}, s.Relays slot other → rank other < rank slot

/-- Without circles there are ranks, which stay below the limit: there are at most as many as there are
nodes. -/
theorem Acyclic.exists_rank (h : s.Acyclic) (hwf : s.arena.WellFormed) : ∃ rank, s.Grounds rank := by
  classical
  obtain ⟨rank, hcard, hrank⟩ := Dataflow.exists_rank (R := s.Relays) s.arena.slots.toFinset
    (fun slot other ⟨node, hget, _⟩ => List.mem_toFinset.2 (Arena.mem_slots.2 ⟨node, hget⟩)) h
  refine ⟨rank, fun slot => ?_, fun hrelays => hrank _ _ hrelays⟩
  -- A rank counts nodes that put something out, so it is no more than the size.
  have hle := (hcard slot).trans (List.toFinset_card_le _)
  rw [hwf.length_slots] at hle
  unfold relayLimit patience
  omega

/-- Which outputs are passed on depends on the wiring alone. -/
theorem Relays.of_sameWiring {slot other : SlotId} (h : s'.Relays slot other)
    (hsame : s.SameWiring s') : s.Relays slot other := by
  obtain ⟨node, hget, hl⟩ := h
  obtain ⟨old, hold, hwiring⟩ := hsame.get?_eq_some hget
  have houtputs : old.outputs = node.outputs := congrArg Prod.snd hwiring
  exact ⟨old, hold, houtputs ▸ hl⟩

/-- The limit depends on the number of nodes alone. -/
theorem relayLimit_of_sameWiring (hsame : s.SameWiring s') : relayLimit s' = relayLimit s :=
  congrArg (· + patience) hsame.size

/-- Ranks go on to serve as long as the wiring stays. -/
theorem Grounds.of_sameWiring {rank : SlotId → ℕ} (h : s.Grounds rank) (hsame : s.SameWiring s') :
    s'.Grounds rank where
  lt_limit slot := relayLimit_of_sameWiring hsame ▸ h.lt_limit slot
  lt_of_relays hrelays := h.lt_of_relays (hrelays.of_sameWiring hsame)

end Engine

/-! ## Jobs with hops left -/

section

variable {π κ : Type} {rank : SlotId → ℕ} {s s' : Engine π κ} {job j : Job}

/-- Whether a job that passes an output on may pass it on more often than there is need. -/
def Job.Spare (rank : SlotId → ℕ) : Job → Prop
  | .relay hops slot _ | .deliver hops (.output slot) _ => rank slot < hops
  | _ => True

/-- A job that passes an output on leads to one with fewer hops left, and to an output of a lower rank. -/
theorem Job.Spare.of_spawns (h : job.Spare rank) (hs : s.Grounds rank) (hspawns : job.Spawns s j) :
    j.Spare rank := by
  cases hspawns with
  | @listener hops slot node value listener hget hl =>
    cases listener with
    | output other =>
      -- One hop is used up, and the rank is lower by one at least.
      have hlt : rank other < rank slot := hs.lt_of_relays ⟨node, hget, hl⟩
      have hhops : rank slot < hops + 1 := h
      show rank other < hops
      omega
    | _ => trivial
  | output => exact h
  | emit slot value => exact hs.lt_limit slot
  | @hand listener value hne =>
    cases listener with
    | output slot => exact absurd rfl (hne slot)
    | _ => trivial
  | _ => trivial

/-- Tasks begin with fresh outputs, or with none. -/
theorem Task.spare_jobs (rank : SlotId → ℕ) (task : Task) : ∀ job ∈ task.jobs, job.Spare rank := by
  cases task with
  | deliver id listeners value =>
    intro job hjob
    obtain ⟨listener, -, rfl⟩ := List.mem_map.1 hjob
    trivial
  | emit slot value => exact List.forall_mem_singleton.2 trivial

/-- The jobs that a job leads to have hops left as well. -/
theorem Job.Spare.of_begins {jobs : List Job} (h : job.Spare rank) (hs : s.Grounds rank)
    (hbegins : job.Begins s jobs s') : ∀ j ∈ jobs, j.Spare rank := by
  cases hbegins with
  | entered => exact List.forall_mem_cons.2 ⟨trivial, List.forall_mem_singleton.2 trivial⟩
  | propagated _ _ _ hjobs => exact fun j hj => h.of_spawns hs (hjobs j hj)
  | batched task tasks =>
    exact List.forall_mem_append.2 ⟨task.spare_jobs rank, List.forall_mem_singleton.2 trivial⟩
  | ticked => exact List.forall_mem_singleton.2 trivial
  | driven => exact List.forall_mem_cons.2 ⟨trivial, List.forall_mem_singleton.2 trivial⟩
  | _ => exact List.forall_mem_nil _

/-- A job with hops left does not fail for want of them. -/
theorem Job.Spare.stop_ne_endless {stop : Stop} (h : job.Spare rank) (hfails : job.Fails s stop s') :
    stop ≠ .endless := by
  rintro rfl
  cases hfails with
  | propagated _ _ _ hstop =>
    cases hstop with
    | refused hrefusal => exact hrefusal
    | circled slot value => exact absurd h (Nat.not_lt_zero _)

/-- Only a time that is not representable overflows. -/
theorem Job.Fails.of_timeOverflow (hfails : job.Fails s .timeOverflow s') :
    ∃ slot delay value, job = .carryOut slot (.emitAfter delay value) ∧
      Duration.add? s.clock.now delay = none := by
  cases hfails with
  | propagated _ _ _ hstop =>
    cases hstop with
    | refused hrefusal => exact hrefusal.elim
    | @overflowed slot delay value hclock =>
      refine ⟨slot, delay, value, rfl, ?_⟩
      unfold Clock.schedule? at hclock
      cases hadd : Duration.add? s.clock.now delay with
      | none => rfl
      | some time =>
        rw [hadd] at hclock
        cases hclock

end

/-! ## Moments with hops left -/

namespace Moment

variable {π κ : Type} {rank : SlotId → ℕ} {s : Engine π κ} {m m' : Moment π κ}

/-- Every output that is still to be passed on has hops left. -/
structure Grounded (rank : SlotId → ℕ) (m : Moment π κ) : Prop where
  grounds : m.engine.Grounds rank
  spare : ∀ job ∈ m.todo, job.Spare rank
  stop : m.stop? ≠ some .endless

/-- The next job asks for a time that is not representable. -/
def Overflows (m : Moment π κ) : Prop :=
  ∃ slot delay value rest, m.todo = .carryOut slot (.emitAfter delay value) :: rest ∧
    Duration.add? m.engine.clock.now delay = none

/-- Giving up jobs ends inputs and begins none. -/
theorem depth_unwind (todo : List Job) (s : Engine π κ) : (unwind todo s).depth ≤ s.depth := by
  induction todo generalizing s with
  | nil => exact le_refl _
  | cons job rest ih =>
    have hgiveUp : (job.giveUp s).depth ≤ s.depth := by
      cases job with
      | leave => exact (List.length_tail ..).le.trans (Nat.sub_le ..)
      | _ => exact le_refl _
    exact (ih _).trans hgiveUp

variable [Process π] [Condition κ]

/-- After every step, outputs still to be passed on have hops left. -/
theorem Grounded.next (h : Grounded rank m) (hnext : m.next? = some m') : Grounded rank m' := by
  have hgrounds := h.grounds.of_sameWiring (sameWiring_of_next? hnext)
  obtain ⟨job, rest, htodo, hcases⟩ := next?_cases hnext
  have hspare := h.spare
  rw [htodo] at hspare
  obtain ⟨hjob, hrest⟩ := List.forall_mem_cons.1 hspare
  -- A job that fails leaves nothing to do, and did not fail for want of hops.
  rcases hcases with ⟨jobs, s', hbegins, rfl⟩ | ⟨stop, s', hfails, rfl⟩
  · exact ⟨hgrounds, List.forall_mem_append.2 ⟨hjob.of_begins h.grounds hbegins, hrest⟩,
      fun hstop => by cases hstop⟩
  · exact ⟨hgrounds, List.forall_mem_nil _,
      fun hstop => hjob.stop_ne_endless hfails (Option.some.inj hstop)⟩

/-- However far it comes, outputs still to be passed on have hops left. -/
theorem Grounded.comes (h : Grounded rank m) (hcomes : Comes m m') : Grounded rank m' := by
  induction hcomes with
  | refl => exact h
  | tail _ hnext ih => exact ih.next hnext

/-- Inputs nest no deeper than they did, or than they may. -/
theorem depth_next (hnext : m.next? = some m') :
    m'.engine.depth ≤ max m.engine.depth m.engine.config.maxDepth := by
  obtain ⟨job, rest, -, ⟨jobs, s', hbegins, rfl⟩ | ⟨stop, s', hfails, rfl⟩⟩ := next?_cases hnext
  · have hsame : s'.active = m.engine.active →
        s'.depth ≤ max m.engine.depth m.engine.config.maxDepth := fun hactive =>
      (congrArg List.length hactive).le.trans (le_max_left ..)
    -- Only an input that begins adds to the depth, and it begins if it is allowed to.
    cases hbegins with
    | @entered slot value hallowance =>
      refine le_trans ?_ (le_max_right ..)
      show m.engine.active.length + 1 ≤ m.engine.config.maxDepth
      unfold Engine.allowance Engine.depth at hallowance
      omega
    | left => exact ((List.length_tail ..).le.trans (Nat.sub_le ..)).trans (le_max_left ..)
    | propagated _ _ hstill => exact hsame hstill.active
    | sent _ hstill => exact hsame hstill.active
    | driven hrunnable => exact hsame (Engine.steady_makeRunnable hrunnable).active
    | _ => exact hsame rfl
  · refine (depth_unwind rest s').trans (le_trans (Eq.le ?_) (le_max_left ..))
    cases hfails with
    | tooDeep => rfl
    | propagated _ _ hstill => exact congrArg List.length hstill.active
    | exhausted hrunnable => exact congrArg List.length (Engine.steady_makeRunnable hrunnable).active

/-- Inputs nest at no later moment deeper than they did at first, or than they may. -/
theorem depth_comes (hcomes : Comes m m') :
    m'.engine.depth ≤ max m.engine.depth m.engine.config.maxDepth ∧
      m'.engine.config = m.engine.config := by
  induction hcomes with
  | refl => exact ⟨le_max_left .., rfl⟩
  | tail _ hnext ih =>
    obtain ⟨hdepth, hconfig⟩ := ih
    have hstep := depth_next hnext
    rw [hconfig] at hstep
    exact ⟨hstep.trans (max_le hdepth (le_max_right ..)),
      (sameWiring_of_next? hnext).config.trans hconfig⟩

/-- Time overflows only where a time that is not representable was asked for. -/
theorem overflows_of_comes (hcomes : Comes m m') (hstart : m.stop? = none)
    (hstop : m'.stop? = some .timeOverflow) : ∃ before, Comes m before ∧ before.Overflows := by
  obtain ⟨before, job, rest, s', hbefore, htodo, hfails⟩ := exists_fails hcomes hstart hstop
  obtain ⟨slot, delay, value, rfl, hadd⟩ := hfails.of_timeOverflow
  exact ⟨before, hbefore, slot, delay, value, rest, htodo, hadd⟩

end Moment

/-! ## Acts that end -/

namespace Engine

variable {π κ : Type} [Process π] [Condition κ] {s : Engine π κ}

/-- What it means for an act to end which is to do some jobs. -/
structure Ends {α : Type} (act : Act π κ α) (jobs : List Job) (s : Engine π κ) : Prop where
  /-- After finitely many jobs the act is over. -/
  comes : Comes ⟨s, jobs, none⟩ (ended act s)
  /-- It has succeeded or failed, unless a time was asked for that is not representable. -/
  outcome : (∃ a s', act s = .ok a s') ∨ (∃ e s', act s = .error (.failed e) s') ∨
    (∃ s', act s = .error .timeOverflow s') ∧ ∃ m, Comes ⟨s, jobs, none⟩ m ∧ m.Overflows
  /-- Inputs were at no moment nested deeper than they may be. -/
  depth : ∀ m, Comes ⟨s, jobs, none⟩ m → m.engine.depth ≤ max s.depth s.config.maxDepth

/-- An act that is what its jobs come to in the end is over if they have hops left. -/
theorem Grounds.ends_of_comes {rank : SlotId → ℕ} (h : s.Grounds rank) {α : Type} {act : Act π κ α}
    {jobs : List Job} (hjobs : ∀ job ∈ jobs, job.Spare rank)
    (hcomes : Comes ⟨s, jobs, none⟩ (ended act s)) : Ends act jobs s := by
  have hgrounded : Grounded rank ⟨s, jobs, none⟩ := ⟨h, hjobs, fun hstop => by cases hstop⟩
  refine ⟨hcomes, ?_, fun m hm => (depth_comes hm).1⟩
  have hendless := (hgrounded.comes hcomes).stop
  have hoverflows := overflows_of_comes hcomes rfl
  unfold ended at hendless hoverflows
  cases hact : act s with
  | ok a s' => exact .inl ⟨a, s', rfl⟩
  | error stop s' =>
    rw [hact] at hendless hoverflows
    cases stop with
    | failed e => exact .inr (.inl ⟨e, s', rfl⟩)
    | timeOverflow => exact .inr (.inr ⟨⟨s', rfl⟩, hoverflows rfl⟩)
    | endless => exact absurd rfl hendless

/-- An act that is what its jobs come to ends if they have hops left. -/
theorem Grounds.ends {rank : SlotId → ℕ} (h : s.Grounds rank) {α : Type} {act : Act π κ α}
    {jobs : List Job} (hjobs : ∀ job ∈ jobs, job.Spare rank) (hunfolds : Unfolds jobs s (act s)) :
    Ends act jobs s := h.ends_of_comes hjobs hunfolds.comes

/-- Every call of propagation ends. -/
structure PropagationEnds (s : Engine π κ) : Prop where
  setInput : ∀ slot value, Ends (setInput slot value) [.enter slot value] s
  setOutput : ∀ slot value, Ends (setOutput slot value) [.carryOut slot (.emit value)] s
  deliver : ∀ listener value, Ends (deliver listener value) [.hand listener value] s
  runConditional : ∀ slot input, Ends (runConditional slot input) [.route slot input] s
  runTask : ∀ task, Ends (runTask task) task.jobs s

/-- Each call of propagation is what its jobs come to, and these have hops left to begin with. -/
theorem Grounds.propagationEnds {rank : SlotId → ℕ} (h : s.Grounds rank) : s.PropagationEnds where
  setInput slot value :=
    h.ends (List.forall_mem_singleton.2 trivial) (unfolds_setInput _ slot value s rfl)
  setOutput slot value := h.ends (List.forall_mem_singleton.2 trivial) (unfolds_setOutput slot value s)
  deliver listener value :=
    h.ends (List.forall_mem_singleton.2 trivial) (unfolds_deliver listener value s)
  runConditional slot input :=
    h.ends (List.forall_mem_singleton.2 trivial) (unfolds_routeBy (unfolds_setInput _) rfl slot input)
  runTask task := h.ends (task.spare_jobs rank) (unfolds_runTask task s)

end Engine

/-! ## Built graphs -/

section

variable {π κ : Type}

/-- Values that ascend go in no circle. -/
theorem Ranking.Ascends.acyclic {rk : Ranking} {s : Engine π κ} (h : rk.Ascends s) : s.Acyclic :=
  not_transGen_self (S := fun r r' : ℕ ×ₗ ℕ => r < r')
    fun _ _ ⟨_, hget, hl⟩ => h.feeds hget _ hl

namespace Engine

variable [Process π] {r : Reach} {s s' : Engine π κ}

/-- A step overwrites nodes at most, which keeps an arena well-formed. -/
theorem Step.wellFormed (h : Step r s s') (hwf : s.arena.WellFormed) : s'.arena.WellFormed := by
  cases h with
  | noted | bound | ran => exact hwf.set ..
  | _ => exact hwf

/-- Steps keep an arena well-formed. -/
theorem Steps.wellFormed (h : Steps r s s') (hwf : s.arena.WellFormed) : s'.arena.WellFormed := by
  induction h with
  | refl => exact hwf
  | tail _ hstep ih => exact hstep.wellFormed ih

end Engine

namespace Graph

variable [Process π] [Condition κ] {registry : Registry π κ} {config : Config} {spec : SpecNode}
  {g : Graph π κ}

omit [Condition κ] in
/-- Operations keep an arena well-formed. -/
theorem Move.wellFormed {r : Reach} {s s' : Engine π κ} {op : Operation} (h : Move r s op s')
    (hwf : s.arena.WellFormed) : s'.arena.WellFormed := by
  cases h with
  | steps h => exact h.wellFormed hwf
  | tapped => exact hwf.set ..
  | _ => exact hwf

/-- What holds of every graph that is wired, and is kept by all that an operation can do, holds in every
reachable state. -/
theorem invariant_of_build {P : Engine π κ → Prop} (hbuild : build registry config spec = .ok g)
    (hwired : ∀ root scope wired, assemble registry spec = .ok (root, scope, wired) →
      P (engineOf config wired))
    (hmove : ∀ {s op s'}, Move .everything s op s' → P s → P s') (ops : List Operation) :
    P (g.operateAll ops).2.engine := by
  obtain ⟨wired, hassemble, hactivate⟩ := build_eq_ok_iff.1 hbuild
  refine (operateAll_invariant (P := P) (Q := fun _ => True) ops (fun g' _ hP op _ => ⟨?_, trivial⟩)
    ?_).1
  · have hmoves : Moves .everything g'.engine op _ _ :=
      operate_moves Reach.drives_everything (Reach.closed_everything _) trivial op
    exact hmove hmoves.move hP
  · have hleads : Engine.Leads .everything (engineOf config wired)
        (activate wired.constants (engineOf config wired)) :=
      Engine.leads_forM (Reach.closed_everything _) fun _ _ s hs => Engine.leads_constant hs trivial
    rw [hactivate] at hleads
    have hactivated : Move .everything (engineOf config wired) .tick g.engine := .steps hleads.1
    exact hmove hactivated (hwired _ _ _ hassemble)

/-- The arena of a graph is well-formed in every reachable state. -/
theorem wellFormed_operateAll (hbuild : build registry config spec = .ok g) (ops : List Operation) :
    (g.operateAll ops).2.engine.arena.WellFormed := by
  refine invariant_of_build (P := fun s => s.arena.WellFormed) hbuild (fun _ _ _ hassemble => ?_)
    (fun hmove hwf => hmove.wellFormed hwf) ops
  obtain ⟨plan, declared, h, -⟩ := assembled_of_assemble hassemble
  exact h.dense.wellFormed

/-- Outputs are passed on in no circle in any reachable state. -/
theorem acyclic_operateAll (hbuild : build registry config spec = .ok g) (ops : List Operation) :
    (g.operateAll ops).2.engine.Acyclic := by
  obtain ⟨wired, hassemble, -⟩ := build_eq_ok_iff.1 hbuild
  obtain ⟨plan, declared, h, -, hroot⟩ := assembled_of_assemble hassemble
  obtain ⟨ds, m, hstory, -, hengine⟩ := (story_of_build hassemble hbuild ops).1
  rw [hroot] at hstory
  have hlive : (engineOf config wired).Live (slotAt 0) :=
    h.live config (Plan.mem_sites_self 0 [.sink] plan)
  exact hengine ▸ ((h.nested_activation config).of_story hlive hstory).ascends.acyclic

end Graph

end

namespace Engine

/-- **Propagation ends.** In an engine that passes outputs on in no circle, whatever else is wired
in circles, every call of propagation is over after finitely many jobs, with inputs nested no deeper
than they may be. A built graph is such an engine in every reachable state. -/
theorem propagation_ends {π κ : Type} [Process π] [Condition κ] :
    (∀ s : Engine π κ, s.arena.WellFormed → s.Acyclic → s.PropagationEnds) ∧
      ∀ (registry : Registry π κ) (config : Config) (spec : SpecNode) (g : Graph π κ),
        Graph.build registry config spec = .ok g →
          ∀ ops, (g.operateAll ops).2.engine.PropagationEnds := by
  have hends : ∀ s : Engine π κ, s.arena.WellFormed → s.Acyclic → s.PropagationEnds := by
    intro s hwf hacyclic
    obtain ⟨rank, hrank⟩ := hacyclic.exists_rank hwf
    exact hrank.propagationEnds
  refine ⟨hends, fun registry config spec g hbuild ops => ?_⟩
  exact hends _ (Graph.wellFormed_operateAll hbuild ops) (Graph.acyclic_operateAll hbuild ops)

/-- An engine with a node that feeds itself, and the output of another node. Its inputs may nest
twice. -/
def selfFed : Engine CatalogueProcess CatalogueCondition :=
  let outputs : List Listener := [.input ⟨0, 0⟩, .output ⟨1, 0⟩]
  { initial (π := CatalogueProcess) (κ := CatalogueCondition) { maxDepth := 2 } with
    arena := (Arena.empty.alloc (.fresh (.process "get" .get) outputs)).alloc
      (.fresh (.process "get" .get) [.sink]) }

/-- The node is fed until its inputs nest too deep. What is fed back by broadcasts ends as well, tick
by tick. -/
theorem propagation_ends_in_feedback :
    selfFed.PropagationEnds ∧
      (ended (setInput ⟨0, 0⟩ .unit) selfFed).stop? = some (.failed (.depthExceeded 2)) ∧
      ∃ g, Graph.build Registry.catalogue {} SpecNode.feedback = .ok g ∧
        (g.operateAll [.push .unit, .tick]).2.engine.PropagationEnds := by
  have hwf : selfFed.arena.WellFormed := (Arena.WellFormed.empty.alloc _).alloc _
  have hrelays : ∀ {slot other}, selfFed.Relays slot other → slot.index = 0 ∧ other.index = 1 := by
    rintro slot other ⟨node, hget, hl⟩
    have hmem : (slot, node) ∈ [_, _] := Arena.mem_toList.2 hget
    rcases List.mem_cons.1 hmem with hfirst | hsecond
    · cases hfirst
      rcases List.mem_cons.1 hl with hinput | houtput
      · cases hinput
      · cases List.mem_singleton.1 houtput
        exact ⟨rfl, rfl⟩
    · cases List.mem_singleton.1 hsecond
      cases List.mem_singleton.1 hl
  have hacyclic : selfFed.Acyclic := by
    intro slot hcircle
    obtain ⟨_, hfirst, -⟩ := Relation.TransGen.head'_iff.1 hcircle
    obtain ⟨_, -, hlast⟩ := Relation.TransGen.tail'_iff.1 hcircle
    have hzero := (hrelays hfirst).1
    have hone := (hrelays hlast).2
    omega
  refine ⟨propagation_ends.1 selfFed hwf hacyclic, rfl, ?_⟩
  have hok : (Graph.build Registry.catalogue {} SpecNode.feedback).isOk = true := by cbv
  obtain ⟨g, hbuild⟩ := Graph.exists_of_isOk hok
  exact ⟨g, hbuild, propagation_ends.2 Registry.catalogue {} SpecNode.feedback g hbuild _⟩

end Engine

end Dataflow
