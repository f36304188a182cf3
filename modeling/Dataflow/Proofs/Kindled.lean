import Mathlib
import Dataflow.Leaf.Catalogue
import Dataflow.Proofs.Tracing
import Dataflow.Proofs.Walked

/-!
# A graph is a walk over its specification

Activating a graph sends out the constants of the places, one after the other; the walk does the same,
each time handing down where the output goes. From then on nothing but the wiring matters, and no
operation touches it but adding an output. So in every state that is reached without that, pushing a
value does what the walk does with it.
-/

namespace Dataflow

namespace Engine

open Plan

variable {π κ : Type} [Process π] [Condition κ] {s₀ : Engine π κ} {active : List SlotId}
  {room hops : Nat} {out : Value → Act π κ Unit} {outputs : List Listener}

/-! ## Sending out constants -/

/-- Sends out the constants among places. -/
def sendConstants (sites : List Site) : Act π κ Unit := Graph.activate (constantSlots sites)

/-- Constants are sent out place by place. -/
theorem sendConstants_append (sites sites' : List Site) :
    (sendConstants (sites ++ sites') : Act π κ Unit) =
      (do sendConstants sites; sendConstants sites') := by
  unfold sendConstants Graph.activate constantSlots
  rw [List.filterMap_append]
  exact List.forM_append

/-- Sending out the constants of a place and its descendants is the activation of the walk, whatever
the output of the place is conveyed to. -/
def Kindles (s₀ : Engine π κ) (i : Nat) (outputs : List Listener) (plan : Plan) : Prop :=
  ∀ room out, Conveys s₀ room i out outputs → plan.size + room ≤ s₀.config.maxDepth →
    Same s₀ [] (sendConstants (sites i outputs plan)) (plan.kindle i out)

/-- The consumers of a component are activated in their order, each with the output of the component. -/
theorem same_kindleConsumers {owner i : Nat} {consumers : List Consumer} (hi : owner < i)
    (hkindles : ∀ part ∈ numbered i (consumerPlans consumers),
      Kindles s₀ part.1 [.output (slotAt owner)] part.2)
    (hup : Conveys s₀ room (owner + 1) out [.output (slotAt owner)])
    (hroom : consumersSize consumers + room ≤ s₀.config.maxDepth) :
    Same s₀ [] (sendConstants (consumerSites i owner consumers))
      (kindleConsumers i out consumers) := by
  induction consumers generalizing i with
  | nil => exact .pure _
  | cons consumer rest ih =>
    cases consumer with
    | broadcast channel => exact ih hi hkindles hroom
    | node plan =>
      have hsize : consumersSize (.node plan :: rest) = plan.size + consumersSize rest := rfl
      have hplan : Kindles s₀ i [.output (slotAt owner)] plan := hkindles _ (List.mem_cons_self ..)
      rw [consumerSites, sendConstants_append]
      refine Same.bind ?_ fun _ => ih (by omega)
        (fun part hpart => hkindles part (List.mem_cons_of_mem _ hpart)) (by omega)
      exact hplan room out (hup.mono (Nat.le_refl _) hi) (by omega)

/-- The producers of a component are activated in their order, each with what feeds the consumers. -/
theorem same_kindleProducers {i : Nat} {producers : List Producer}
    (hkindles : ∀ part ∈ numbered i (producerPlans producers), Kindles s₀ part.1 outputs part.2)
    (hout : Conveys s₀ room hops out outputs) (hhops : hops ≤ i)
    (hroom : producersSize producers + room ≤ s₀.config.maxDepth) :
    Same s₀ [] (sendConstants (producerSites i outputs producers))
      (kindleProducers i out producers) := by
  induction producers generalizing i with
  | nil => exact .pure _
  | cons producer rest ih =>
    cases producer with
    | listener key => exact ih hkindles hhops hroom
    | node plan =>
      have hsize : producersSize (.node plan :: rest) = plan.size + producersSize rest := rfl
      have hplan : Kindles s₀ i outputs plan := hkindles _ (List.mem_cons_self ..)
      rw [producerSites, sendConstants_append]
      refine Same.bind ?_ fun _ => ih
        (fun part hpart => hkindles part (List.mem_cons_of_mem _ hpart)) (by omega) (by omega)
      exact hplan room out (hout.mono (Nat.le_refl _) hhops) (by omega)

/-- A branch that is there, or a state, is activated. -/
theorem same_kindleOptional {i : Nat} {plan? : Option Plan}
    (hkindles : ∀ plan, plan? = some plan → Kindles s₀ i outputs plan)
    (hout : Conveys s₀ room hops out outputs) (hhops : hops ≤ i)
    (hroom : optionalSize plan? + room ≤ s₀.config.maxDepth) :
    Same s₀ [] (sendConstants (optionalSites i outputs plan?)) (kindleOptional i out plan?) := by
  cases plan? with
  | none => exact .pure _
  | some plan => exact hkindles plan rfl room out (hout.mono (Nat.le_refl _) hhops) hroom

/-- Conditions are activated as well, but their outputs go nowhere. -/
theorem same_kindleAll {i : Nat} {plans : List Plan}
    (hkindles : ∀ part ∈ numbered i plans, Kindles s₀ part.1 [] part.2)
    (hroom : listSize plans ≤ s₀.config.maxDepth) :
    Same s₀ [] (sendConstants (listSites i plans)) (kindleAll i plans) := by
  induction plans generalizing i with
  | nil => exact .pure _
  | cons plan rest ih =>
    have hsize : listSize (plan :: rest) = plan.size + listSize rest := rfl
    have hplan : Kindles s₀ i [] plan := hkindles _ (List.mem_cons_self ..)
    rw [listSites, sendConstants_append]
    refine Same.bind ?_ fun _ => ih
      (fun part hpart => hkindles part (List.mem_cons_of_mem _ hpart)) (by omega)
    exact hplan 0 _ conveys_nil (by omega)

end Engine

/-! ## The constants of a wired graph -/

namespace Graph.Assembled

open Engine Plan

variable {π κ : Type} [Process π] [Condition κ] {registry : Registry π κ} {spec : SpecNode}
  {root : Plan} {declared : Declared} {wired : Wired π κ}
  (h : Assembled registry spec root declared wired) (config : Config)

include h

/-- A component activates its consumers and then its producers. -/
theorem kindles_component {i : Nat} {outputs : List Listener} {consumers : List Consumer}
    {producers : List Producer} (hmem : ⟨i, outputs, .component consumers producers⟩ ∈ root.layout)
    (hconsumers : ∀ part ∈ numbered (i + 1) (consumerPlans consumers),
      Kindles (engineOf config wired) part.1 [.output (slotAt i)] part.2)
    (hproducers : ∀ part ∈ numbered (i + 1 + consumersSize consumers) (producerPlans producers),
      Kindles (engineOf config wired) part.1 (targets (i + 1) consumers) part.2) :
    Kindles (engineOf config wired) i outputs (.component consumers producers) := by
  intro room out hout hroom
  obtain ⟨kind, hkind, hget⟩ := h.exists_kind config hmem
  have hsize : (Plan.component consumers producers).size =
    1 + consumersSize consumers + producersSize producers := rfl
  have hleave := conveys_output hget hout
  rw [name_of_kindAt hkind] at hleave
  have hfeed : Conveys _ (consumersSize consumers + room) 0 _ (targets (i + 1) consumers) :=
    conveys_targets (Nat.lt_succ_self i)
      (fun part hpart => h.walks config (child_mem hmem (Site.consumer_mem hpart))) hleave
  -- The component itself sends out nothing, so its place can be left out.
  show Same _ _ (sendConstants (consumerSites (i + 1) i consumers ++ _)) _
  rw [sendConstants_append]
  exact (same_kindleConsumers (Nat.lt_succ_self i) hconsumers hleave (by omega)).bind fun _ =>
    same_kindleProducers hproducers hfeed (Nat.zero_le _) (by omega)

/-- A conditional activates its branches and then its conditions. -/
theorem kindles_conditional {i : Nat} {outputs : List Listener} {conditions : List Plan}
    {positive : Plan} {negative? : Option Plan}
    (hmem : ⟨i, outputs, .conditional conditions positive negative?⟩ ∈ root.layout)
    (hpositive : Kindles (engineOf config wired) (i + 1) [.output (slotAt i)] positive)
    (hnegative : ∀ negative, negative? = some negative →
      Kindles (engineOf config wired) (i + 1 + positive.size) [.output (slotAt i)] negative)
    (hconditions : ∀ part ∈ numbered (i + 1 + positive.size + optionalSize negative?) conditions,
      Kindles (engineOf config wired) part.1 [] part.2) :
    Kindles (engineOf config wired) i outputs (.conditional conditions positive negative?) := by
  intro room out hout hroom
  obtain ⟨kind, hkind, hget⟩ := h.exists_kind config hmem
  have hsize : (Plan.conditional conditions positive negative?).size =
    1 + positive.size + optionalSize negative? + listSize conditions := rfl
  have hleave := conveys_output hget hout
  rw [name_of_kindAt hkind] at hleave
  show Same _ _ (sendConstants (sites (i + 1) [.output (slotAt i)] positive ++ _ ++ _)) _
  rw [sendConstants_append, sendConstants_append, bind_assoc]
  exact (hpositive room _ hleave (by omega)).bind fun _ =>
    (same_kindleOptional hnegative hleave (by omega) (by omega)).bind fun _ =>
      same_kindleAll hconditions (by omega)

/-- A constant is sent to whatever its output is conveyed to. -/
theorem kindles_constant {i : Nat} {outputs : List Listener} {value : Value}
    (hmem : ⟨i, outputs, .constant value⟩ ∈ root.layout) :
    Kindles (engineOf config wired) i outputs (.constant value) := by
  intro room out hout hroom s hs
  obtain ⟨kind, hkind, hget⟩ := h.exists_kind config hmem
  cases hkind
  obtain ⟨node, hnode, hwiring, houtputs⟩ := hs.wiring.exists_node hget
  have hkind : node.kind = .constant value := NodeKind.eq_of_wiring hwiring id
  have hnumber : i ≤ s.arena.size + 999999 := by
    have hsize : (engineOf config wired).arena.size = root.size := h.dense.live_eq
    have hbound : i + 1 ≤ 0 + root.size := (sites_bounds hmem).2
    have hkept := hs.wiring.size
    omega
  have hsend : sendConstants (sites i outputs (.constant value)) s =
      node.outputs.forM (deliverBy setInput (relay setInput (s.arena.size + 999999)) value)
        (s.traced (.output (slotAt i) Structure.value.name value)) := by
    show (sendConstant (slotAt i) >>= fun _ => pure ()) s = _
    rw [bind_pure_unit, sendConstant_eq hnode hkind, hkind]
    rfl
  refine SameIn.congr hsend (trace_bind _ _) ?_
  rw [houtputs]
  exact hout [] setInput (.top (by omega)) _ hnumber value _ (hs.traced _)

/-- At every place of a wired graph, sending out the constants from there on does what the walk does. -/
theorem kindles {plan : Plan} {i : Nat} {outputs : List Listener}
    (hmem : ⟨i, outputs, plan⟩ ∈ root.layout) :
    Kindles (engineOf config wired) i outputs plan := by
  induction plan using Plan.induct generalizing i outputs with
  | component consumers producers ihc ihp =>
    refine h.kindles_component config hmem (fun part hpart => ?_) fun part hpart => ?_
    · exact ihc part.2 (mem_consumerPlans.1 (of_mem_numbered hpart).1)
        (child_mem hmem (Site.consumer_mem hpart))
    · exact ihp part.2 (mem_producerPlans.1 (of_mem_numbered hpart).1)
        (child_mem hmem (Site.producer_mem hpart))
  | conditional conditions positive negative? ihs ihp ihn =>
    refine h.kindles_conditional config hmem (ihp (child_mem hmem Site.positive_mem))
      (fun negative hnegative => ?_) fun part hpart => ?_
    · cases hnegative
      exact ihn negative rfl (child_mem hmem Site.negative_mem)
    · exact ihs part.2 (of_mem_numbered hpart).1 (child_mem hmem (Site.condition_mem hpart))
  | constant value => exact h.kindles_constant config hmem
  | leaf t state? ih =>
    intro room out hout hroom
    have hsize : (Plan.leaf t state?).size = 1 + optionalSize state? := rfl
    -- The state's output goes to the cell, which needs no room at all.
    have hstate : Conveys (engineOf config wired) 0 0 _ _ := conveys_state (slotAt i)
    refine same_kindleOptional (fun state hsome => ?_) hstate (Nat.zero_le _) (by omega)
    cases hsome
    exact ih state rfl (child_mem hmem Site.state_mem)

/-- Activating a wired graph is the activation of the walk. -/
theorem same_activate (hdepth : root.size ≤ config.maxDepth) :
    Same (engineOf config wired) [] (activate wired.constants) (root.kindle 0 sink) := by
  rw [h.constants_eq]
  exact h.kindles config (mem_sites_self 0 [.sink] root) 0 sink conveys_sink hdepth

/-- Pushing a value into a wired graph is a run of the walk. -/
theorem same_setInput (hdepth : root.size ≤ config.maxDepth) (value : Value) :
    Same (engineOf config wired) [] (setInput (slotAt 0) value) (root.run 0 sink value) :=
  h.walks config (mem_sites_self 0 [.sink] root) 0 sink conveys_sink [] setInput (.top hdepth) value

end Graph.Assembled

/-! ## Reachable states -/

namespace Graph

variable {π κ : Type} [Process π] [Condition κ] {s₀ : Engine π κ}

/-- Without an output added, the wiring stays. -/
theorem at_operateAll {g : Graph π κ} (h : Engine.At s₀ [] g.engine) {ops : List Operation}
    (htap : ∀ slot, .tap slot ∉ ops) : Engine.At s₀ [] (g.operateAll ops).2.engine := by
  refine (operateAll_invariant (P := Engine.At s₀ []) (Q := fun _ => True) ops
    (fun g' _ hs op hop => ⟨?_, trivial⟩) h).1
  obtain ⟨hmove, hactive, -⟩ := operate_moves Reach.drives_everything
    (Reach.closed_everything g'.engine) trivial op
  refine ⟨?_, hactive.trans hs.active⟩
  generalize (g'.operate op).2.engine = s' at hmove
  -- Taking a log changes no node, and steps change no wiring.
  cases hmove with
  | steps hsteps => exact hs.wiring.trans hsteps.sameWiring
  | tapped hget => exact absurd hop (htap _)
  | _ => exact hs.wiring.trans ⟨rfl, rfl, fun _ => rfl, rfl⟩

/-- **Activating and pushing are walks.** What a specification is wired to sends out its constants and
takes every value that is pushed, in every state that is reached without adding an output, exactly as
the walk over the specification does, if inputs may nest as deep as there are nodes. -/
theorem activate_and_push_walk {registry : Registry π κ} {config : Config} {spec : SpecNode}
    {root : SlotId} {scope : Scope} {wired : Plan.Wired π κ}
    (hassemble : assemble registry spec = .ok (root, scope, wired))
    (hdepth : spec.visited.length ≤ config.maxDepth) :
    ∃ plan : Plan, plan.Reads registry.shape? scope spec ∧
      activate wired.constants (engineOf config wired) =
        plan.kindle 0 Engine.sink (engineOf config wired) ∧
      ∀ g, build registry config spec = .ok g → ∀ ops, (∀ slot, .tap slot ∉ ops) → ∀ value,
        (g.operateAll ops).2.push value (g.operateAll ops).2.engine =
          plan.run 0 Engine.sink value (g.operateAll ops).2.engine := by
  obtain ⟨plan, declared, h, rfl, rfl⟩ := assembled_of_assemble hassemble
  have hsize : plan.size ≤ config.maxDepth := h.reads.size_eq ▸ hdepth
  have hactivate := h.same_activate config hsize (engineOf config wired) ⟨.refl _, rfl⟩
  refine ⟨plan, h.reads, hactivate.eq, fun g hbuild ops htap value => ?_⟩
  obtain ⟨wired', hassemble', hactivates⟩ := build_eq_ok_iff.1 hbuild
  -- Assembling has one result, so the graph was built from what is given here.
  obtain ⟨hroot, -, rfl⟩ : slotAt 0 = g.root ∧ declared.scope = g.scope ∧ wired = wired' := by
    simpa using hassemble.symm.trans hassemble'
  have hstate := at_operateAll (hactivate.stays hactivates) htap
  rw [push, operateAll_root, ← hroot]
  exact (h.same_setInput config hsize value _ hstate).eq

/-- A component that feeds itself is activated and used as the walk over it goes. -/
theorem activate_and_push_walk_in_feedback :
    ∃ (plan : Plan) (g : Graph CatalogueProcess CatalogueCondition),
      plan.Reads Registry.catalogue.shape? g.scope SpecNode.feedback ∧
      build Registry.catalogue {} SpecNode.feedback = .ok g ∧
      let after := (g.operateAll [.push .unit, .tick]).2
      after.push (.bool false) after.engine = plan.run 0 Engine.sink (.bool false) after.engine := by
  have hok : (build Registry.catalogue {} SpecNode.feedback).isOk = true := by cbv
  have hlength : SpecNode.feedback.visited.length ≤ ({} : Config).maxDepth := by cbv
  cases h : build Registry.catalogue {} SpecNode.feedback with
  | error stop =>
    rw [h] at hok
    cases hok
  | ok g =>
    obtain ⟨wired, hassemble, -⟩ := build_eq_ok_iff.1 h
    obtain ⟨plan, hreads, -, hpush⟩ := activate_and_push_walk hassemble hlength
    exact ⟨plan, g, hreads, rfl, hpush g h [.push .unit, .tick] (by simp) (.bool false)⟩

end Graph

end Dataflow
