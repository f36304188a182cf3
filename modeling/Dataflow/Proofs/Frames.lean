import Dataflow.Proofs.Tracing
import Mathlib.Data.List.Sort

/-!
# What propagation leaves alone

Delivering and driving fill cells, queues and logs, and move the time. They do not touch what wiring
has made, they take nothing out of a log, and the time does not go back (`Step.grows`). Every input
that is begun is also ended, be it by a failure, so inputs may nest as deep afterwards as before.

All this is known of a single step, and so of every call, whatever it comes to
(`calls_spare`).
-/

namespace Dataflow

/-! ## Steps -/

/-- Arenas in which the same identifiers are in use have the same slots. -/
theorem Arena.slots_eq_of_isValid {ν μ : Type} {a : Arena ν} {b : Arena μ}
    (h : ∀ slot, a.isValid slot = b.isValid slot) : a.slots = b.slots := by
  have hordered : ∀ {ν : Type} (a : Arena ν), a.slots.Pairwise fun x y => x.index < y.index :=
    fun a => List.pairwise_map.2 a.pairwise_toList
  have : Std.Irrefl fun x y : SlotId => x.index < y.index := ⟨fun x => Nat.lt_irrefl x.index⟩
  have : Std.Antisymm fun x y : SlotId => x.index < y.index :=
    ⟨fun x y hxy hyx => absurd hyx (Nat.lt_asymm hxy)⟩
  refine (hordered a).eq_of_mem_iff (hordered b) fun slot => ?_
  rw [mem_slots, mem_slots, ← isValid_iff, ← isValid_iff, h]

namespace Engine

variable {π κ : Type} {s s' s'' : Engine π κ}

/-- The same identifiers are in use in engines that are wired alike. -/
theorem SameWiring.slots (h : SameWiring s s') : s'.arena.slots = s.arena.slots := by
  refine Arena.slots_eq_of_isValid fun slot => ?_
  have hnode := congrArg Option.isSome (h.nodes slot)
  rwa [Option.isSome_map, Option.isSome_map] at hnode

/-- The second engine is wired like the first one, its logs are longer if anything, and its time is not
an earlier one. -/
structure Grows (s s' : Engine π κ) : Prop where
  wiring : SameWiring s s'
  outputs : s.outputs.toList <+: s'.outputs.toList
  rendered : s.rendered.toList <+: s'.rendered.toList
  log : s.log.toList <+: s'.log.toList
  now : s.clock.now ≤ s'.clock.now

namespace Grows

theorem refl (s : Engine π κ) : Grows s s :=
  ⟨.refl s, List.prefix_refl _, List.prefix_refl _, List.prefix_refl _, Nat.le_refl _⟩

/-- To grow twice is to grow. -/
theorem trans (h : Grows s s') (h' : Grows s' s'') : Grows s s'' where
  wiring := h.wiring.trans h'.wiring
  outputs := h.outputs.trans h'.outputs
  rendered := h.rendered.trans h'.rendered
  log := h.log.trans h'.log
  now := h.now.trans h'.now

end Grows

variable [Process π] {r : Reach}

/-- A step adds to one log at most, and moves the time forward if at all. -/
theorem Step.grows (h : Step r s s') : Grows s s' := by
  have hwiring := h.sameWiring
  have hpush : ∀ {α : Type} (log : Array α) (a : α), log.toList <+: (log.push a).toList := by
    intro α log a
    rw [Array.toList_push]
    exact List.prefix_append ..
  have hsame : ∀ {α : Type} (l : List α), l <+: l := fun l => List.prefix_refl l
  cases h with
  | traced | announced | warned => exact ⟨hwiring, hsame _, hsame _, hpush .., Nat.le_refl _⟩
  | sunk => exact ⟨hwiring, hpush .., hsame _, hsame _, Nat.le_refl _⟩
  | rendered => exact ⟨hwiring, hsame _, hpush .., hsame _, Nat.le_refl _⟩
  | scheduled _ hclock =>
    obtain ⟨-, rfl⟩ := Clock.schedule?_eq_some_iff.1 hclock
    exact ⟨hwiring, hsame _, hsame _, hsame _, Nat.le_refl _⟩
  | advanced time => exact ⟨hwiring, hsame _, hsame _, hsame _, Nat.le_max_left ..⟩
  | _ => exact ⟨hwiring, hsame _, hsame _, hsame _, Nat.le_refl _⟩

/-- Steps let logs grow and time pass, and rewire nothing. -/
theorem Steps.grows (h : Steps r s s') : Grows s s' := by
  induction h with
  | refl => exact .refl s
  | tail _ hstep ih => exact ih.trans hstep.grows

/-! ## Calls -/

variable [Condition κ] {α : Type}

/-- What a call leaves as it was: the slots, the kind and the listeners of every node, the channels and
the depth. Logs may have grown and time may have passed. -/
structure Spares (s s' : Engine π κ) : Prop extends Grows s s' where
  slots : s'.arena.slots = s.arena.slots
  active : s'.active = s.active
  depth : s'.depth = s.depth
  /-- An input may nest as deep as it might have before. -/
  allowance : ∀ slot value, setInput slot value s' = enterWithin s.allowance slot value s'

/-- The call spares the engine, be it that it succeeds or stops early. -/
inductive Spared (s : Engine π κ) : EStateM.Result Stop (Engine π κ) α → Prop
  | succeeds (a : α) {s' : Engine π κ} (h : Spares s s') : Spared s (.ok a s')
  | stops (stop : Stop) {s' : Engine π κ} (h : Spares s s') : Spared s (.error stop s')

/-- Steps that begin and end inputs in pairs leave what a call leaves. -/
theorem spares_of_steps (h : Steps r s s') (hactive : s'.active = s.active) : Spares s s' := by
  have hgrows := h.grows
  have hdepth : s'.depth = s.depth := congrArg List.length hactive
  refine ⟨hgrows, hgrows.wiring.slots, hactive, hdepth, fun slot value => ?_⟩
  -- No limit changes and no input is left in progress, so there is as much room as before.
  have hallowance : s'.allowance = s.allowance := by
    unfold allowance
    rw [hgrows.wiring.config, hdepth]
  rw [← hallowance]
  exact get_bind _

/-- An act within reach spares the engine, whether it ends well or not. -/
theorem Leads.spared {result : EStateM.Result Stop (Engine π κ) α} (h : Leads r s result) :
    Spared s result := by
  cases result with
  | ok a s' => exact .succeeds a (spares_of_steps h.1 h.2)
  | error stop s' => exact .stops stop (spares_of_steps h.1 h.2.1)

/-- Every call spares the engine. -/
structure CallsSpare (s : Engine π κ) : Prop where
  setInput : ∀ slot value, Spared s (setInput slot value s)
  setOutput : ∀ slot value, Spared s (setOutput slot value s)
  setState : ∀ slot value, Spared s (setState slot value s)
  deliver : ∀ listener value, Spared s (deliver listener value s)
  send : ∀ channel value, Spared s (send channel value s)
  runConditional : ∀ slot input, Spared s (runConditional slot input s)
  evaluateCondition : ∀ slot input, Spared s (evaluateCondition slot input s)
  tick : Spared s (tick s)
  runUntilIdle : Spared s (runUntilIdle s)
  advanceBy : ∀ span, Spared s (advanceBy span s)
  settle : Spared s (settle s)

/-- **Whatever is delivered or driven, and whatever becomes of it, the wiring and the depth are left as
they were.** -/
theorem calls_spare (s : Engine π κ) : s.CallsSpare := by
  have hclosed := Reach.closed_everything s
  have hdrives := Reach.drives_everything
  have hsetOutput : ∀ slot value, Leads .everything s (setOutput slot value s) :=
    fun _ value => leads_setOutput value hclosed trivial
  have hsetState : ∀ slot value, Leads .everything s (setState slot value s) :=
    fun _ value => leads_setState value trivial
  have hdeliver : ∀ listener value, Leads .everything s (deliver listener value s) :=
    fun _ value => leads_deliver value hclosed trivial
  have hsend : ∀ channel value, Leads .everything s (send channel value s) :=
    fun _ value => leads_send value trivial
  have hroute : ∀ slot input, Leads .everything s (runConditional slot input s) :=
    fun _ input => leads_routeBy enters_setInput input hclosed trivial
  have hevaluate : ∀ slot input, Leads .everything s (evaluateCondition slot input s) :=
    fun _ input => leads_evaluateCondition input trivial
  exact {
    setInput := fun slot value => (enters_setInput slot value s hclosed trivial).spared
    setOutput := fun slot value => (hsetOutput slot value).spared
    setState := fun slot value => (hsetState slot value).spared
    deliver := fun listener value => (hdeliver listener value).spared
    send := fun channel value => (hsend channel value).spared
    runConditional := fun slot input => (hroute slot input).spared
    evaluateCondition := fun slot input => (hevaluate slot input).spared
    tick := (leads_tick hdrives hclosed).spared
    runUntilIdle := (leads_runUntilIdle hdrives hclosed).spared
    advanceBy := fun span => (leads_advanceBy hdrives span hclosed).spared
    settle := (leads_settle hdrives hclosed).spared }

end Engine

end Dataflow
