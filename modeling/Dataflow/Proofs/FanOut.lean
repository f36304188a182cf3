import Mathlib
import Dataflow.Leaf.Catalogue
import Dataflow.Proofs.Tracing
import Dataflow.Proofs.Wired

/-!
# Constants are sent out once

Activating sends out every constant, one after the other, and nothing else ever does: outputs leave
components and conditionals and come from leaves, never from a constant. A traced graph tells of every
output that is passed on, so its log tells of each constant exactly once, before and after any history.
-/

namespace Dataflow

namespace Engine

variable {π κ : Type}

/-- The literal of a constant. -/
def constant? (s : Engine π κ) (slot : SlotId) : Option Value :=
  match s.arena.get? slot with
  | some { kind := .constant value, .. } => some value
  | _ => none

/-- The output of a constant that an event tells of. -/
def fanOut? (s : Engine π κ) : Event → Option (SlotId × Value)
  | .hop (.output slot _ value) => if (s.constant? slot).isSome then some (slot, value) else none
  | _ => none

/-- The outputs of constants that the log tells of, in order. -/
def fanOuts (s : Engine π κ) : List (SlotId × Value) := s.log.toList.filterMap s.fanOut?

/-- Each constant was sent out once, with its literal. -/
structure FannedOut (s : Engine π κ) : Prop where
  once : (s.fanOuts.map Prod.fst).Nodup
  all : ∀ slot value, (slot, value) ∈ s.fanOuts ↔ s.constant? slot = some value

variable {s s' s₀ : Engine π κ}

/-- A node is a constant if it is there and of that kind. -/
theorem constant?_eq_some_iff {slot : SlotId} {value : Value} :
    s.constant? slot = some value ↔
      ∃ node, s.arena.get? slot = some node ∧ node.kind = .constant value := by
  unfold constant?
  split
  · rename_i v _ _ _ hget
    rw [hget]
    simp
  · rename_i hne
    constructor
    · intro h
      cases h
    · rintro ⟨⟨kind, input?, state?, outputs⟩, hget, rfl⟩
      exact absurd hget (hne value input? state? outputs)

/-- Constants stay constants, with their literals. -/
theorem SameKinds.constant? (h : SameKinds s s') (slot : SlotId) :
    s'.constant? slot = s.constant? slot := by
  have hle : ∀ {s s' : Engine π κ}, SameKinds s s' → ∀ value, s.constant? slot = some value →
      s'.constant? slot = some value := by
    intro s s' h value hvalue
    refine constant?_eq_some_iff.2 (h.names (P := fun kind => kind = .constant value) ?_
      (constant?_eq_some_iff.1 hvalue))
    rintro kind kind' hwiring rfl
    cases kind' <;> cases hwiring
    rfl
  refine Option.ext fun value => ⟨hle h.symm value, hle h value⟩

/-- Which events tell of constants depends on the kinds of nodes. -/
theorem SameKinds.fanOut? (h : SameKinds s s') : s'.fanOut? = s.fanOut? := by
  funext event
  cases event with
  | hop hop =>
    cases hop with
    | output slot kind value => simp only [Engine.fanOut?, h.constant?]
    | _ => rfl
  | _ => rfl

/-- As long as the log is the same, it tells of the same outputs. -/
theorem fanOuts_of_log_eq (h : SameKinds s s') (hlog : s'.log = s.log) : s'.fanOuts = s.fanOuts := by
  rw [fanOuts, fanOuts, h.fanOut?, hlog]

/-- One more event tells of one output at most. -/
theorem fanOuts_of_push (h : SameKinds s s') {event : Event} (hlog : s'.log = s.log.push event) :
    s'.fanOuts = s.fanOuts ++ (s.fanOut? event).toList := by
  rw [fanOuts, fanOuts, h.fanOut?, hlog, Array.toList_push, List.filterMap_append]
  cases hf : s.fanOut? event <;> simp [hf]

/-- The output of a constant is told of, if the graph is traced. -/
theorem fanOuts_traced {slot : SlotId} {kind : String} {value literal : Value}
    (htrace : s.config.trace = true) (hconstant : s.constant? slot = some literal) :
    (s.traced (.output slot kind value)).fanOuts = s.fanOuts ++ [(slot, value)] := by
  have hlog : (s.traced (.output slot kind value)).log =
      s.log.push (.hop (.output slot kind value)) := by
    rw [traced, if_pos htrace]
  rw [fanOuts_of_push ⟨fun other => by rw [traced_arena], by rw [traced_channels]⟩ hlog, fanOut?,
    hconstant]
  rfl

/-- Outputs within reach are no constants'. -/
theorem fanOut?_of_due (hsame : SameKinds s₀ s) {hop : Hop} (hdue : HopDue s₀.references hop) :
    s.fanOut? (.hop hop) = none := by
  cases hop with
  | output slot kind value =>
    obtain ⟨node, hget, hpasses⟩ := hdue
    have hnone : s.constant? slot = none := by
      rw [hsame.constant?, Option.eq_none_iff_forall_ne_some]
      intro literal hliteral
      obtain ⟨node', hget', hkind⟩ := constant?_eq_some_iff.1 hliteral
      rw [hget] at hget'
      cases hget'
      rw [hkind] at hpasses
      exact hpasses.elim id id
    rw [fanOut?, hnone]
    rfl
  | _ => rfl

section Kept

variable [Process π]

/-- What is within reach of references sends out no constant. -/
theorem Steps.fanOuts (h : Steps s.references s s') : s'.fanOuts = s.fanOuts := by
  induction h with
  | refl => rfl
  | @tail s₁ s₂ hsteps hstep ih =>
    rw [← ih]
    have hsame := (Steps.sameWiring hsteps).sameKinds
    have hstepKinds := hstep.sameWiring.sameKinds
    -- Only a hop can tell of an output, and there is no reason for the output of a constant.
    cases hstep with
    | traced hon hdue =>
      rw [fanOuts_of_push hstepKinds rfl, fanOut?_of_due hsame hdue]
      exact List.append_nil _
    | announced text =>
      rw [fanOuts_of_push hstepKinds rfl]
      exact List.append_nil _
    | warned hdue =>
      rw [fanOuts_of_push hstepKinds rfl]
      exact List.append_nil _
    | _ => exact fanOuts_of_log_eq hstepKinds rfl

/-- After activation no operation sends out a constant. -/
theorem fanOuts_of_move {op : Operation} (h : Graph.Move s.references s op s') :
    s'.fanOuts = s.fanOuts := by
  have hsame := SameKinds.of_move h
  cases h with
  | steps h => exact Steps.fanOuts h
  | _ => exact fanOuts_of_log_eq hsame rfl

end Kept

/-! ## Activating -/

/-- To trace a hop changes no node. -/
theorem sameKinds_traced (hop : Hop) (s : Engine π κ) : SameKinds s (s.traced hop) :=
  ⟨fun slot => by rw [traced_arena], by rw [traced_channels]⟩

/-- To trace a hop refers to nothing. -/
theorem WellReferenced.traced (hs : s.WellReferenced) (hop : Hop) :
    (s.traced hop).WellReferenced := by
  obtain ⟨log, hlog⟩ := traced_eq hop s
  have hsame := sameKinds_traced hop s
  rw [hlog] at hsame ⊢
  exact hs.of_sameKinds hsame (fun hget listener hl => .inr (hs.outputs hget listener hl)) hs.queued
    hs.pending

/-- A hop is no warning. -/
theorem Quiet.traced (h : Quiet s.log) (hop : Hop) : Quiet (s.traced hop).log := by
  unfold Engine.traced
  split
  · intro w hw
    rcases Array.mem_push.1 hw with hw | hw
    · exact h w hw
    · cases hw
  · exact h

section Activating

variable [Process π] [Condition κ]

/-- What a constant leads to is within reach of references, once its hop is made. -/
theorem leads_sendConstant (hs : s.WellReferenced) {slot : SlotId} {node : Node π κ} {value : Value}
    (hget : s.arena.get? slot = some node) (hkind : node.kind = .constant value) :
    Leads (s.traced (.output slot node.kind.name value)).references
      (s.traced (.output slot node.kind.name value)) (Graph.sendConstant slot s) := by
  have hs₁ := hs.traced (.output slot node.kind.name value)
  rw [Graph.sendConstant_eq hget hkind]
  refine leads_forM hs₁.closed fun listener hl s' hs' =>
    leads_deliverBy enters_setInput (leads_relay enters_setInput _) hs' ?_ value
  exact (hs₁.outputs (by rw [traced_arena, hget]) listener hl).delivers

/-- What activating constants comes to. -/
structure Activates (constants : List SlotId) (s s' : Engine π κ) : Prop where
  wellReferenced : s'.WellReferenced
  sameKinds : SameKinds s s'
  config : s'.config = s.config
  quiet : Quiet s.log → Quiet s'.log
  fanOuts : s.config.trace = true → s'.fanOuts =
    s.fanOuts ++ constants.filterMap fun slot => (s.constant? slot).map fun value => (slot, value)

/-- A constant that is sent out is told of once, and what it leads to tells of no other. -/
theorem Activates.single {slot : SlotId} {value : Value} (hs : s.WellReferenced)
    (hconstant : s.constant? slot = some value) {a : Unit}
    (h : Graph.sendConstant slot s = .ok a s') : Activates [slot] s s' := by
  obtain ⟨node, hget, hkind⟩ := constant?_eq_some_iff.1 hconstant
  have hleads := leads_sendConstant hs hget hkind
  have hs₁ := hs.traced (.output slot node.kind.name value)
  have hsame₁ := sameKinds_traced (.output slot node.kind.name value) s
  rw [h] at hleads
  have hsame := (Steps.sameWiring hleads.1).sameKinds
  -- The hop comes first and is the constant's own. All steps after it are within reach of references.
  refine ⟨hs₁.of_steps hleads.1, hsame₁.trans hsame, ?_, fun hquiet => ?_, fun htrace => ?_⟩
  · rw [(Steps.sameWiring hleads.1).config]
    obtain ⟨log, hlog⟩ := traced_eq (.output slot node.kind.name value) s
    rw [hlog]
  · exact hs₁.quiet hleads.1 (hquiet.traced _)
  · rw [Steps.fanOuts hleads.1, fanOuts_traced htrace hconstant]
    simp [hconstant]

/-- Constants that are sent out one by one are told of in their order. -/
theorem Activates.of_activate {constants : List SlotId} (hs : s.WellReferenced)
    (hconstants : ∀ slot ∈ constants, ∃ value, s.constant? slot = some value) {a : Unit}
    (h : Graph.activate constants s = .ok a s') : Activates constants s s' := by
  induction constants generalizing s with
  | nil =>
    cases h
    exact ⟨hs, .refl _, rfl, id, fun _ => (List.append_nil _).symm⟩
  | cons slot rest ih =>
    have h : (Graph.sendConstant slot >>= fun _ => Graph.activate rest) s = .ok a s' := h
    cases hsend : Graph.sendConstant slot s with
    | error stop s₁ =>
      rw [bind_of_error hsend] at h
      cases h
    | ok _ s₁ =>
      rw [bind_of_ok hsend] at h
      obtain ⟨value, hvalue⟩ := hconstants slot (List.mem_cons_self ..)
      have hfirst := Activates.single hs hvalue hsend
      have hrest := ih hfirst.wellReferenced (fun other ho =>
        hfirst.sameKinds.constant? other ▸ hconstants other (List.mem_cons_of_mem _ ho)) h
      -- What the first constant has led to leaves the others what they are.
      refine ⟨hrest.wellReferenced, hfirst.sameKinds.trans hrest.sameKinds,
        hrest.config.trans hfirst.config, hrest.quiet ∘ hfirst.quiet, fun htrace => ?_⟩
      rw [hrest.fanOuts (hfirst.config ▸ htrace), hfirst.fanOuts htrace, List.append_assoc]
      simp only [hfirst.sameKinds.constant?]
      rw [← List.filterMap_append]
      rfl

end Activating

end Engine

/-! ## Built graphs -/

namespace Graph

open Plan

variable {π κ : Type} {registry : Registry π κ} {spec : SpecNode}

/-- The constants of a graph are those of its layout. -/
theorem Assembled.constant?_eq_some_iff {root : Plan} {declared : Declared} {wired : Wired π κ}
    (h : Assembled registry spec root declared wired) (config : Config) {slot : SlotId}
    {value : Value} :
    (engineOf config wired).constant? slot = some value ↔
      ∃ site ∈ root.layout, slot = slotAt site.number ∧ site.plan = .constant value := by
  rw [Engine.constant?_eq_some_iff]
  constructor
  · rintro ⟨node, hget, hkind⟩
    obtain ⟨site, hsite, rfl, kind, hmade, rfl⟩ := h.exists_site hget
    refine ⟨site, hsite, rfl, ?_⟩
    obtain rfl : kind = .constant value := hkind
    cases hplan : site.plan <;> rw [hplan] at hmade
    case constant v =>
      cases hmade
      rfl
    case leaf s state? =>
      rcases makeLeaf_eq_ok hmade with ⟨-, _, hmade⟩ | ⟨-, _, hmade⟩ <;> cases hmade
    all_goals cases hmade
  · rintro ⟨site, hsite, rfl, hplan⟩
    obtain ⟨kind, hmade, hget⟩ := h.get?_of_mem hsite
    rw [hplan] at hmade
    cases hmade
    exact ⟨_, hget, rfl⟩

/-- The constants to send out are those of the layout. -/
theorem mem_constantSlots {sites : List Site} {slot : SlotId} :
    slot ∈ constantSlots sites ↔
      ∃ site ∈ sites, slot = slotAt site.number ∧ ∃ value, site.plan = .constant value := by
  rw [constantSlots, List.mem_filterMap]
  constructor
  · rintro ⟨⟨i, outputs, plan⟩, hsite, hslot⟩
    cases plan <;> cases hslot
    exact ⟨_, hsite, rfl, _, rfl⟩
  · rintro ⟨⟨i, outputs, plan⟩, hsite, rfl, value, hplan⟩
    obtain rfl : plan = .constant value := hplan
    exact ⟨_, hsite, rfl⟩

/-- No constant is sent out twice. -/
theorem nodup_constantSlots (root : Plan) : (constantSlots root.layout).Nodup := by
  -- Numbers grow along the layout, and slots of different numbers differ.
  have hnumbers : root.layout.Pairwise fun a b => a.number < b.number := by
    rw [← List.pairwise_map, map_number_sites]
    exact List.pairwise_lt_range'
  refine hnumbers.filterMap _ fun a b hlt slot hslot slot' hslot' => ?_
  obtain ⟨i, outputs, plan⟩ := a
  obtain ⟨j, outputs', plan'⟩ := b
  cases plan <;> cases hslot
  cases plan' <;> cases hslot'
  rw [ne_eq, slotAt_inj]
  exact Nat.ne_of_lt hlt

section Reachable

variable [Process π] [Condition κ] {config : Config} {g : Graph π κ}

/-- What activating comes to in a build that succeeds. -/
theorem activates_of_build (h : build registry config spec = .ok g) :
    ∃ root declared wired, Assembled registry spec root declared wired ∧ g.root = slotAt 0 ∧
      Engine.Activates (constantSlots root.layout) (engineOf config wired) g.engine := by
  obtain ⟨wired, hassemble, hactivate⟩ := build_eq_ok_iff.1 h
  obtain ⟨root, declared, hassembled, -, hroot⟩ := assembled_of_assemble hassemble
  refine ⟨root, declared, wired, hassembled, hroot, ?_⟩
  rw [hassembled.constants_eq] at hactivate
  refine .of_activate (hassembled.wellReferenced config) (fun slot hslot => ?_) hactivate
  obtain ⟨site, hsite, rfl, value, hplan⟩ := mem_constantSlots.1 hslot
  exact ⟨value, (hassembled.constant?_eq_some_iff config).2 ⟨site, hsite, rfl, hplan⟩⟩

/-- Activating a traced graph sends out each constant once. -/
theorem fannedOut_of_build (h : build registry config spec = .ok g)
    (htrace : config.trace = true) : g.engine.FannedOut := by
  obtain ⟨root, declared, wired, hassembled, -, hactivates⟩ := activates_of_build h
  have hfanOuts := hactivates.fanOuts htrace
  have hempty : (engineOf config wired).fanOuts = [] := rfl
  rw [hempty, List.nil_append] at hfanOuts
  have hconstant? : ∀ slot ∈ constantSlots root.layout,
      ∃ value, (engineOf config wired).constant? slot = some value := by
    intro slot hslot
    obtain ⟨site, hsite, rfl, value, hplan⟩ := mem_constantSlots.1 hslot
    exact ⟨value, (hassembled.constant?_eq_some_iff config).2 ⟨site, hsite, rfl, hplan⟩⟩
  refine ⟨?_, fun slot value => ?_⟩
  · have hslots : g.engine.fanOuts.map Prod.fst = constantSlots root.layout := by
      rw [hfanOuts, List.map_filterMap]
      conv_rhs => rw [← List.filterMap_some (l := constantSlots root.layout)]
      refine List.filterMap_congr fun slot hslot => ?_
      obtain ⟨value, hvalue⟩ := hconstant? slot hslot
      rw [hvalue]
      rfl
    rw [hslots]
    exact nodup_constantSlots root
  · rw [hactivates.sameKinds.constant?, hfanOuts, List.mem_filterMap]
    constructor
    · rintro ⟨other, -, hother⟩
      obtain ⟨literal, hliteral, heq⟩ := Option.map_eq_some_iff.1 hother
      cases heq
      exact hliteral
    · intro hvalue
      obtain ⟨site, hsite, hslot, hplan⟩ := (hassembled.constant?_eq_some_iff config).1 hvalue
      refine ⟨slot, mem_constantSlots.2 ⟨site, hsite, hslot, value, hplan⟩, ?_⟩
      rw [hvalue]
      rfl

/-- The same build and its histories, traced. -/
structure TracedTwin (registry : Registry π κ) (config : Config) (spec : SpecNode)
    (g twin : Graph π κ) : Prop where
  built : build registry { config with trace := true } spec = .ok twin
  same : (View.withoutHops π κ).graph twin = (View.withoutHops π κ).graph g
  histories : ∀ ops, (twin.operateAll ops).1 = (g.operateAll ops).1 ∧
    (View.withoutHops π κ).graph (twin.operateAll ops).2 =
      (View.withoutHops π κ).graph (g.operateAll ops).2

/-- Every build that succeeds also succeeds traced, with the same histories. -/
theorem exists_tracedTwin (h : build registry config spec = .ok g) :
    ∃ twin, TracedTwin registry config spec g twin := by
  obtain ⟨trace, maxDepth, maxTicks⟩ := config
  cases trace with
  | true => exact ⟨g, h, rfl, fun ops => ⟨rfl, rfl⟩⟩
  | false =>
    have hbuild := build_withoutHops registry ⟨false, maxDepth, maxTicks⟩ spec
    rw [show build registry { (⟨false, maxDepth, maxTicks⟩ : Config) with trace := false } spec =
      .ok g from h] at hbuild
    cases htwin : build registry { (⟨false, maxDepth, maxTicks⟩ : Config) with trace := true } spec
      with
    | error stop =>
      rw [htwin] at hbuild
      cases stop <;> cases hbuild
    | ok twin =>
      rw [htwin] at hbuild
      cases hbuild
      refine ⟨twin, htwin, (View.withoutHops_graph_graph twin).symm, fun ops => ?_⟩
      rw [operateAll_withoutHops]
      exact ⟨rfl, (View.withoutHops_graph_graph _).symm⟩

/-- What holds of a graph whatever was done with it: all references are sound, there are no warnings,
and the outputs of constants are those of its activation. -/
structure Sound (fanOuts : List (SlotId × Value)) (s : Engine π κ) : Prop where
  wellReferenced : s.WellReferenced
  quiet : Engine.Quiet s.log
  fanOuts : s.fanOuts = fanOuts

/-- Once a graph is built, nothing is sent out again and no condition lacks a truth value, whatever is
done. -/
theorem sound_operateAll (h : build registry config spec = .ok g) (ops : List Operation) :
    Sound g.engine.fanOuts (g.operateAll ops).2.engine ∧
      ∀ answer ∈ (g.operateAll ops).1, ∀ kind value,
        answer ≠ .error (.failed (.notBool kind value)) := by
  obtain ⟨root, declared, wired, hassembled, hroot, hactivates⟩ := activates_of_build h
  have hquiet : Engine.Quiet (engineOf config wired).log := by
    intro w hw
    exact Array.not_mem_empty _ hw
  have hlive : g.engine.Live g.root := by
    rw [hroot]
    exact hactivates.sameKinds.live
      (hassembled.live config (Plan.mem_sites_self 0 [.sink] root))
  have hsame : ∀ {s : Engine π κ}, s.SameKinds g.engine → s.Live g.root := fun hs =>
    hs.symm.live hlive
  have hkeep := operateAll_invariant (g := g)
    (P := fun s => s.SameKinds g.engine ∧ Sound g.engine.fanOuts s)
    (Q := fun answer => ∀ kind value, answer ≠ .error (.failed (.notBool kind value)))
    ops (fun g' hg' hs op _ => ?_) ⟨.refl _, hactivates.wellReferenced, hactivates.quiet hquiet, rfl⟩
  · exact ⟨hkeep.1.2, hkeep.2⟩
  obtain ⟨hkinds, hs⟩ := hs
  have hmoves := operate_moves (Engine.references_drives _) hs.wellReferenced.closed
    (hg' ▸ hsame hkinds) op
  refine ⟨⟨(Engine.SameKinds.of_move hmoves.move).symm.trans hkinds,
    hs.wellReferenced.of_move hmoves.move, hs.wellReferenced.quiet_of_move hmoves.move hs.quiet,
    (Engine.fanOuts_of_move hmoves.move).trans hs.fanOuts⟩, fun kind value hanswer => ?_⟩
  exact Engine.references_not_halts_notBool kind value (hmoves.halts _ hanswer)

/-- **References in reachable states.** After a build that succeeds and any history, all references
are sound, no delivery was dropped with a warning, and no condition was without a truth value. Traced,
the graph tells of every constant once, sent out with its literal, and of none afterwards. -/
theorem references_sound_after_history (h : build registry config spec = .ok g)
    (ops : List Operation) :
    (g.operateAll ops).2.engine.WellReferenced ∧
      Engine.Quiet (g.operateAll ops).2.engine.log ∧
      (∀ answer ∈ (g.operateAll ops).1, ∀ kind value,
        answer ≠ .error (.failed (.notBool kind value))) ∧
      ∃ twin, TracedTwin registry config spec g twin ∧ twin.engine.FannedOut ∧
        (twin.operateAll ops).2.engine.fanOuts = twin.engine.fanOuts := by
  obtain ⟨hsound, hanswers⟩ := sound_operateAll h ops
  obtain ⟨twin, htwin⟩ := exists_tracedTwin h
  exact ⟨hsound.wellReferenced, hsound.quiet, hanswers, twin, htwin,
    fannedOut_of_build htwin.built rfl, (sound_operateAll htwin.built ops).1.fanOuts⟩

end Reachable

/-- A history of a component that feeds itself, with an output added to it on the way. -/
theorem references_sound_in_feedback :
    ∃ g, build Registry.catalogue {} SpecNode.feedback = .ok g ∧
      let after := g.operateAll [.push .unit, .tick, .tap g.root, .tick]
      after.2.engine.WellReferenced ∧ Engine.Quiet after.2.engine.log ∧
        (∀ answer ∈ after.1, ∀ kind value, answer ≠ .error (.failed (.notBool kind value))) ∧
        ∃ twin, TracedTwin Registry.catalogue {} SpecNode.feedback g twin ∧ twin.engine.FannedOut := by
  have hok : (build Registry.catalogue {} SpecNode.feedback).isOk = true := by cbv
  cases h : build Registry.catalogue {} SpecNode.feedback with
  | error stop =>
    rw [h] at hok
    cases hok
  | ok g =>
    obtain ⟨hreferences, hquiet, hanswers, twin, htwin, hfanned, -⟩ :=
      references_sound_after_history h [.push .unit, .tick, .tap g.root, .tick]
    exact ⟨g, rfl, hreferences, hquiet, hanswers, twin, htwin, hfanned⟩

end Graph

end Dataflow
