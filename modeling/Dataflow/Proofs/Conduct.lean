import Dataflow.Proofs.Steps

/-!
# What acts lead to

Propagation and driving, function by function: each leads from an engine within reach by steps to
another one, with the same inputs in progress, and stops early only for a reason. The proofs follow
the definitions; outputs are handled by induction on the number of relays, inputs by induction on the
allowance, and between them by what is known of the way in which an input is entered.
-/

namespace Dataflow

/-- Whether a node of the kind has a truth value to give. -/
def NodeKind.HasTruth {π κ : Type} : NodeKind π κ → Prop
  | .condition .. | .constant (.bool _) => True
  | _ => False

namespace Engine

variable {π κ : Type}

/-! ## Acts in sequence -/

section Sequence

variable {s s' : Engine π κ} {α β : Type}

/-- An act that goes well is followed by the next one. -/
theorem bind_of_ok {x : Act π κ α} {f : α → Act π κ β} {a : α} (h : x s = .ok a s') :
    (x >>= f) s = f a s' := by
  show EStateM.bind x f s = _
  rw [EStateM.bind, h]

/-- Nothing follows an act that stops. -/
theorem bind_of_error {x : Act π κ α} {f : α → Act π κ β} {stop : Stop} (h : x s = .error stop s') :
    (x >>= f) s = .error stop s' := by
  show EStateM.bind x f s = _
  rw [EStateM.bind, h]

theorem get_bind (f : Engine π κ → Act π κ β) : ((get : Act π κ _) >>= f) s = f s s :=
  bind_of_ok rfl

/-- To look up a node changes nothing. -/
theorem node?_bind (slot : SlotId) (f : Option (Node π κ) → Act π κ β) :
    (node? slot >>= f) s = f (s.arena.get? slot) s := bind_of_ok rfl

theorem setNode_bind (slot : SlotId) (node : Node π κ) (f : PUnit → Act π κ β) :
    (setNode slot node >>= f) s = f () { s with arena := s.arena.set slot node } := bind_of_ok rfl

/-- The engine with a hop reported, if it is traced. -/
def traced (hop : Hop) (s : Engine π κ) : Engine π κ :=
  if s.config.trace then { s with log := s.log.push (.hop hop) } else s

/-- To trace a hop never stops an act. -/
theorem trace_eq (hop : Hop) : trace hop s = .ok () (s.traced hop) := by
  unfold trace traced
  rw [get_bind]
  split <;> rfl

theorem trace_bind (hop : Hop) (f : PUnit → Act π κ β) : (trace hop >>= f) s = f () (s.traced hop) :=
  bind_of_ok (trace_eq hop)

/-- A report changes the log alone. -/
theorem traced_eq (hop : Hop) (s : Engine π κ) : ∃ log, s.traced hop = { s with log } := by
  unfold traced
  split
  · exact ⟨_, rfl⟩
  · exact ⟨s.log, rfl⟩

/-- The engine with texts announced. -/
def announcing (texts : List String) (s : Engine π κ) : Engine π κ :=
  { s with log := texts.foldl (fun log text => log.push (.announced text)) s.log }

/-- Announcements are reported one after the other, and none of them stops an act. -/
theorem announce_eq (texts : List String) :
    texts.forM (fun text => report (.announced text)) s = .ok () (s.announcing texts) := by
  induction texts generalizing s with
  | nil => rfl
  | cons text texts ih => exact (bind_of_ok rfl).trans ih

/-- No node is touched by a report. -/
@[simp] theorem traced_arena (hop : Hop) (s : Engine π κ) : (s.traced hop).arena = s.arena := by
  obtain ⟨log, h⟩ := traced_eq hop s
  rw [h]

@[simp] theorem traced_channels (hop : Hop) (s : Engine π κ) :
    (s.traced hop).channels = s.channels := by
  obtain ⟨log, h⟩ := traced_eq hop s
  rw [h]

@[simp] theorem traced_active (hop : Hop) (s : Engine π κ) : (s.traced hop).active = s.active := by
  obtain ⟨log, h⟩ := traced_eq hop s
  rw [h]

@[simp] theorem announcing_active (texts : List String) (s : Engine π κ) :
    (s.announcing texts).active = s.active := rfl

end Sequence

/-! ## Outcomes -/

variable [Process π] [Condition κ] {r : Reach} {s s' : Engine π κ} {α β : Type}

/-- The leaf of a node within reach refuses an input. -/
inductive Refuses (r : Reach) (s : Engine π κ) (kind : String) (cause : LeafError) : Prop
  | process {slot : SlotId} {node : Node π κ} {leaf : π} {input : Value}
    (hreach : r.delivers (.input slot)) (hget : s.arena.get? slot = some node)
    (hkind : node.kind = .process kind leaf)
    (hrefuses : (Process.run leaf input node.state?).outcome = .error cause)
  | condition {slot : SlotId} {node : Node π κ} {leaf : κ} {input : Value}
    (hreach : r.delivers (.input slot) ∨ r.asks slot) (hget : s.arena.get? slot = some node)
    (hkind : node.kind = .condition kind leaf)
    (hrefuses : Condition.test leaf input node.state? = .error cause)

/-- The reason for stopping early, which may have come up on the way. -/
def Halts (r : Reach) (s : Engine π κ) : Stop → Prop
  | .failed (.leaf kind cause) => ∃ s', Steps r s s' ∧ Refuses r s' kind cause
  | .failed (.notBool ..) => ∃ s' slot node, Steps r s s' ∧ r.asks slot ∧
    s'.arena.get? slot = some node ∧ ¬node.kind.HasTruth
  | _ => True

/-- What an act within reach may come to. -/
def Leads (r : Reach) (s : Engine π κ) : EStateM.Result Stop (Engine π κ) α → Prop
  | .ok _ s' => Steps r s s' ∧ s'.active = s.active
  | .error stop s' => Steps r s s' ∧ s'.active = s.active ∧ Halts r s stop

/-- The reason may come up later, since what comes later is on the way too. -/
theorem Halts.of_steps {stop : Stop} (h : Steps r s s') (hhalts : Halts r s' stop) :
    Halts r s stop := by
  unfold Halts at hhalts ⊢
  split
  · obtain ⟨s₀, hsteps, hrefuses⟩ := hhalts
    exact ⟨s₀, h.trans hsteps, hrefuses⟩
  · obtain ⟨s₀, slot, node, hsteps, hrest⟩ := hhalts
    exact ⟨s₀, slot, node, h.trans hsteps, hrest⟩
  · trivial

/-- An act may begin with any steps that leave the inputs in progress as they are. -/
theorem Leads.of_steps {result : EStateM.Result Stop (Engine π κ) α} (h : Steps r s s')
    (hactive : s'.active = s.active) (hleads : Leads r s' result) : Leads r s result := by
  cases result with
  | ok a s'' => exact ⟨h.trans hleads.1, hleads.2.trans hactive⟩
  | error stop s'' => exact ⟨h.trans hleads.1, hleads.2.1.trans hactive, hleads.2.2.of_steps h⟩

/-- An act leads to where it may if its first part does, and what follows does from there. -/
theorem Leads.bind {x : Act π κ α} {f : α → Act π κ β} (hx : Leads r s (x s))
    (hf : ∀ a s', x s = .ok a s' → Steps r s s' → Leads r s' (f a s')) :
    Leads r s ((x >>= f) s) := by
  cases h : x s with
  | ok a s' =>
    rw [h] at hx
    rw [bind_of_ok h]
    exact .of_steps hx.1 hx.2 (hf a s' h hx.1)
  | error stop s' =>
    rw [h] at hx
    rw [bind_of_error h]
    exact hx

theorem leads_pure (a : α) : Leads r s ((pure a : Act π κ α) s) := ⟨.refl, rfl⟩

theorem leads_throw {stop : Stop} (h : Halts r s stop) : Leads r s ((throw stop : Act π κ α) s) :=
  ⟨.refl, rfl, h⟩

/-- To change the engine at once is a step. -/
theorem leads_modify {f : Engine π κ → Engine π κ} (h : Step r s (f s))
    (hactive : (f s).active = s.active) : Leads r s ((modify f : Act π κ PUnit) s) :=
  ⟨.single h, hactive⟩

/-- In a loop each turn begins in an engine that may be anything within reach. -/
theorem leads_forM {xs : List β} {f : β → Act π κ PUnit} (hs : r.Closed s)
    (h : ∀ x ∈ xs, ∀ s, r.Closed s → Leads r s (f x s)) : Leads r s (xs.forM f s) := by
  induction xs generalizing s with
  | nil => exact leads_pure _
  | cons x xs ih =>
    refine (h x (List.mem_cons_self ..) s hs).bind fun _ s' _ hsteps => ?_
    exact ih (hs.of_steps hsteps) fun x hx => h x (List.mem_cons_of_mem _ hx)

omit [Condition κ] in
/-- A hop that is traced is a step, if one is traced at all. -/
theorem Steps.traced {hop : Hop} (h : HopDue r hop) : Steps r s (s.traced hop) := by
  unfold Engine.traced
  split
  · rename_i hon
    exact .single (.traced hon h)
  · exact .refl

omit [Condition κ] in
theorem Steps.announcing (texts : List String) : Steps r s (s.announcing texts) := by
  induction texts generalizing s with
  | nil => exact .refl
  | cons text texts ih => exact .head (.announced text) ih

/-- An act that begins with a hop. -/
theorem Leads.after_trace {hop : Hop} {f : PUnit → Act π κ β} (h : HopDue r hop)
    (hf : Leads r (s.traced hop) (f () (s.traced hop))) : Leads r s ((trace hop >>= f) s) := by
  rw [trace_bind]
  exact .of_steps (.traced h) (traced_active hop s) hf

/-- A warning is a step when it is due. -/
theorem leads_warn {w : Warning} (h : WarningDue r s w) : Leads r s (warn w s) :=
  leads_modify (.warned h) rfl

/-! ## Deliveries that end where they arrive -/

/-- To store a state needs the cell to be within reach. -/
theorem leads_setState {slot : SlotId} (value : Value) (hr : r.delivers (.state slot)) :
    Leads r s (setState slot value s) := by
  unfold setState
  rw [node?_bind]
  cases hget : s.arena.get? slot with
  | none => exact leads_warn ⟨hr, hget⟩
  | some node =>
    refine .after_trace trivial (leads_modify (.bound value hr ?_) rfl)
    rw [traced_arena, hget]

/-- To send needs the channel to be within reach, and queues a task for its listeners. -/
theorem leads_send {id : ChannelId} (value : Value) (hr : r.delivers (.broadcast id)) :
    Leads r s (send id value s) := by
  unfold send
  rw [get_bind]
  cases hget : s.channels.get? id with
  | none => exact leads_warn ⟨hr, hget⟩
  | some channel =>
    refine .after_trace trivial (leads_modify (.sent value hr ?_) rfl)
    rw [traced_channels, hget]

theorem leads_sink (value : Value) : Leads r s (sink value s) := leads_modify (.sunk value) rfl

/-! ## Outputs -/

section Entered

variable {enter : SlotId → Value → Act π κ Unit}

/-- Whether a way to enter inputs leads to where it may. -/
def Enters (r : Reach) (enter : SlotId → Value → Act π κ Unit) : Prop :=
  ∀ slot value s, r.Closed s → r.delivers (.input slot) → Leads r s (enter slot value s)

/-- A delivery goes to where its listener points, which is within reach. -/
theorem leads_deliverBy {relay : SlotId → Value → Act π κ Unit} (henter : Enters r enter)
    (hrelay : ∀ slot value s, r.Closed s → r.delivers (.output slot) →
      Leads r s (relay slot value s))
    (hs : r.Closed s) {listener : Listener} (hr : r.delivers listener) (value : Value) :
    Leads r s (deliverBy enter relay value listener s) := by
  cases listener with
  | input slot => exact henter slot value s hs hr
  | output slot => exact hrelay slot value s hs hr
  | state slot => exact leads_setState value hr
  | broadcast channel => exact leads_send value hr
  | sink => exact leads_sink value

/-- An output goes to all listeners of its node. By induction on the hops, as listeners may pass it on. -/
theorem leads_relay (henter : Enters r enter) (hops : Nat) (slot : SlotId) (value : Value)
    (s : Engine π κ) (hs : r.Closed s) (hr : r.delivers (.output slot)) :
    Leads r s (relay enter hops slot value s) := by
  induction hops generalizing slot value s with
  | zero => exact leads_throw trivial
  | succ hops ih =>
    unfold relay
    rw [node?_bind]
    cases hget : s.arena.get? slot with
    | none => exact leads_warn ⟨hr, hget⟩
    | some node =>
      refine .after_trace hr (leads_forM (hs.of_steps (.traced hr)) fun listener hl s' hs' => ?_)
      exact leads_deliverBy henter ih hs' (hs.relayed hr hget listener hl) value

/-- An emitted value goes the way of an output. -/
theorem leads_emit (henter : Enters r enter) {slot : SlotId} (value : Value) (hs : r.Closed s)
    (hr : r.delivers (.output slot)) : Leads r s (emit enter slot value s) := by
  unfold emit
  rw [get_bind]
  exact leads_relay henter _ slot value s hs hr

theorem leads_deliverTo (henter : Enters r enter) {listener : Listener} (value : Value)
    (hs : r.Closed s) (hr : r.delivers listener) :
    Leads r s (deliverTo enter listener value s) := by
  -- Said apart, since the limit of relays is a large number and is not to be computed.
  have hemit : ∀ slot value (s : Engine π κ), r.Closed s → r.delivers (.output slot) →
      Leads r s (emit enter slot value s) := fun _ value _ hs hr => leads_emit henter value hs hr
  exact leads_deliverBy henter hemit hs hr value

/-! ## Conditionals -/

/-- Only a node without a truth value is refused as a condition. -/
theorem leads_notBool {slot : SlotId} {node : Node π κ} {kind : String} {value : Value}
    (hr : r.asks slot) (hget : s.arena.get? slot = some node) (h : ¬node.kind.HasTruth) :
    Leads r s ((fail (.notBool kind value) : Act π κ α) s) :=
  leads_throw ⟨s, slot, node, .refl, hr, hget, h⟩

/-- A condition that is asked leads to an answer, or halts for its own reason. -/
theorem leads_evaluateCondition {slot : SlotId} (input : Value) (hr : r.asks slot) :
    Leads r s (evaluateCondition slot input s) := by
  unfold evaluateCondition
  rw [node?_bind]
  cases hget : s.arena.get? slot with
  | none =>
    have hwarn : Leads r s (warn (.conditionFreed slot) s) := leads_warn ⟨hr, hget⟩
    exact hwarn.bind fun _ s' _ _ => leads_pure false
  | some node =>
    refine .after_trace trivial ?_
    rw [setNode_bind]
    have hget' : (s.traced (.input slot node.kind.name input)).arena.get? slot = some node := by
      rw [traced_arena, hget]
    -- The input is noted even if the node can give no answer.
    refine .of_steps (.single (.noted input (.inr hr) hget')) rfl ?_
    have hself := Arena.get?_set_self hget' { node with input? := some input }
    obtain ⟨kind, input?, state?, outputs⟩ := node
    cases kind with
    | condition kind leaf =>
      dsimp only
      cases htest : Condition.test leaf input state? with
      | ok holds => exact leads_pure holds
      | error cause => exact leads_throw ⟨_, .refl, .condition (.inr hr) hself rfl htest⟩
    -- Only a truth value is an answer, of all constants.
    | constant value =>
      cases value with
      | bool holds => exact leads_pure holds
      | _ => exact leads_notBool hr hself id
    | _ => exact leads_notBool hr hself id

/-- Conditions are asked in order, up to the first that does not hold. -/
theorem leads_allHold (input : Value) {conditions : List SlotId} (hs : r.Closed s)
    (hr : ∀ condition ∈ conditions, r.asks condition) : Leads r s (allHold input conditions s) := by
  induction conditions generalizing s with
  | nil => exact leads_pure _
  | cons condition rest ih =>
    unfold allHold
    refine (leads_evaluateCondition input (hr _ (List.mem_cons_self ..))).bind
      fun holds s' _ hsteps => ?_
    split
    · exact ih (hs.of_steps hsteps) fun c hc => hr c (List.mem_cons_of_mem _ hc)
    · exact leads_pure _

/-- A conditional enters one of its branches at most. -/
theorem leads_routeBy (henter : Enters r enter) {slot : SlotId} (input : Value) (hs : r.Closed s)
    (hr : r.delivers (.input slot)) : Leads r s (routeBy enter slot input s) := by
  unfold routeBy
  rw [node?_bind]
  cases hget : s.arena.get? slot with
  | none => exact leads_pure _
  | some node =>
    obtain ⟨kind, input?, state?, outputs⟩ := node
    cases kind with
    | conditional conditions positive negative? =>
      obtain ⟨hasks, hpositive, hnegative⟩ := hs.entered hr hget
      refine (leads_allHold input hs hasks).bind fun matched s₁ _ hsteps => ?_
      have hs₁ := hs.of_steps hsteps
      refine .after_trace trivial ?_
      have hdue : HopDue r (.branch slot (conditionalKind negative?).name matched) := trivial
      have hs₂ := hs₁.of_steps (.traced hdue)
      cases matched with
      | true => exact (henter positive input _ hs₂ hpositive).bind fun _ _ _ _ => leads_pure _
      | false =>
        cases negative? with
        | none => exact leads_pure _
        | some negative =>
          exact (henter negative input _ hs₂ (hnegative negative rfl)).bind
            fun _ _ _ _ => leads_pure _
    | _ => exact leads_pure _

/-! ## Runs -/

/-- An effect is carried out at once, or put off to when its time has come. -/
theorem leads_applyEffect (henter : Enters r enter) {slot : SlotId} (effect : Effect)
    (hs : r.Closed s) (hr : r.delivers (.output slot))
    (hdefers : ∀ value, r.defers (.emit slot value)) :
    Leads r s (applyEffect enter slot effect s) := by
  cases effect with
  | emit value => exact leads_emit henter value hs hr
  | emitAfter delay value =>
    rw [applyEffect, get_bind]
    cases hclock : s.clock.schedule? delay (.emit slot value) with
    | none => exact leads_throw trivial
    | some clock => exact leads_modify (.scheduled (hdefers value) hclock) rfl
  | render value => exact .after_trace trivial (leads_modify (.rendered value) rfl)

/-- A process that runs announces, and then has its effects carried out. -/
theorem leads_runProcess (henter : Enters r enter) {slot : SlotId} {node : Node π κ}
    {kind : String} {leaf : π} (input : Value) (hs : r.Closed s) (hr : r.delivers (.input slot))
    (hget : s.arena.get? slot = some node) (hkind : node.kind = .process kind leaf) :
    Leads r s (runProcess enter slot node kind leaf input s) := by
  have hcovers := hs.entered hr hget
  rw [hkind] at hcovers
  have hran : Steps r s _ := .single (.ran input hr hget hkind)
  unfold runProcess
  rw [setNode_bind, bind_of_ok (announce_eq _)]
  have hsteps := hran.trans (Steps.announcing (Process.run leaf input node.state?).announced)
  cases hout : (Process.run leaf input node.state?).outcome with
  | ok effects =>
    -- The effects begin in an engine in which the process has been stored.
    refine .of_steps hsteps (announcing_active _ _) ?_
    exact leads_forM (hs.of_steps hsteps) fun effect _ s hs =>
      leads_applyEffect henter effect hs hcovers.1 hcovers.2
  | error cause =>
    exact ⟨hsteps, announcing_active _ _, s, .refl, .process hr hget hkind hout⟩

/-- A node does what its kind does, and all of it stays within reach. -/
theorem leads_runNode (henter : Enters r enter) {slot : SlotId} {node : Node π κ} (input : Value)
    (hs : r.Closed s) (hr : r.delivers (.input slot)) (hget : s.arena.get? slot = some node) :
    Leads r s (runNode enter slot node input s) := by
  have hcovers := hs.entered hr hget
  unfold runNode
  cases hkind : node.kind with
  | placeholder => exact leads_warn (w := .unwired slot) ⟨hr, node, hget, hkind⟩
  | composite producers =>
    rw [hkind] at hcovers
    exact leads_forM hs fun producer hp s hs => henter producer input s hs (hcovers producer hp)
  | conditional conditions positive negative? =>
    exact (leads_routeBy henter input hs hr).bind fun _ _ _ _ => leads_pure _
  | constant value => exact leads_pure _
  | process kind leaf => exact leads_runProcess henter input hs hr hget hkind
  | condition kind leaf =>
    rw [hkind] at hcovers
    dsimp only
    cases htest : Condition.test leaf input node.state? with
    | ok holds => exact leads_emit henter _ hs hcovers
    | error cause => exact leads_throw ⟨s, .refl, .condition (.inl hr) hget hkind htest⟩

/-- An input is stored before its node runs. -/
theorem leads_storeAndRun (henter : Enters r enter) {slot : SlotId} (value : Value)
    (hs : r.Closed s) (hr : r.delivers (.input slot)) :
    Leads r s (storeAndRun enter slot value s) := by
  unfold storeAndRun
  rw [node?_bind]
  cases hget : s.arena.get? slot with
  | none => exact leads_warn (w := .inputDropped slot) ⟨hr, hget⟩
  | some node =>
    have hget' : (s.traced (.input slot node.kind.name value)).arena.get? slot = some node := by
      rw [traced_arena, hget]
    have hdue : HopDue r (.input slot node.kind.name value) := trivial
    have hsteps := (Steps.traced hdue).tail (.noted value (.inl hr) hget')
    dsimp only
    rw [trace_bind, setNode_bind]
    refine .of_steps hsteps (traced_active _ s) ?_
    exact leads_runNode henter value (hs.of_steps hsteps) hr (Arena.get?_set_self hget' _)

end Entered

/-! ## Inputs -/

/-- The innermost input ends however its processing ends. -/
theorem leads_nested {slot : SlotId} {act : Act π κ Unit}
    (h : Leads r { s with active := slot :: s.active } (act { s with active := slot :: s.active })) :
    Leads r s (nested slot act s) := by
  -- The input in progress is pushed before the act and popped after it, which are steps too.
  have hin : Steps r s { s with active := slot :: s.active } := .single (.focused _)
  unfold nested
  split
  · rename_i s' hact
    rw [hact] at h
    refine ⟨(hin.trans h.1).tail (.focused _), ?_⟩
    rw [h.2]
    rfl
  · rename_i stop s' hact
    rw [hact] at h
    refine ⟨(hin.trans h.1).tail (.focused _), ?_, h.2.2.of_steps hin⟩
    rw [h.2.1]
    rfl

/-- An input leads to where it may, whatever the allowance. -/
theorem enters_enterWithin (allowance : Nat) :
    Enters r (enterWithin allowance : SlotId → Value → Act π κ Unit) := by
  induction allowance with
  | zero =>
    intro slot value s _ _
    unfold enterWithin
    rw [get_bind]
    exact leads_throw trivial
  | succ allowance ih =>
    intro slot value s hs hr
    refine leads_nested (leads_storeAndRun ih value ?_ hr)
    exact hs.of_step (.focused _)

/-- An input from outside leads to where it may. -/
theorem enters_setInput : Enters r (setInput : SlotId → Value → Act π κ Unit) := by
  intro slot value s hs hr
  unfold setInput
  rw [get_bind]
  exact enters_enterWithin _ slot value s hs hr

theorem leads_setOutput {slot : SlotId} (value : Value) (hs : r.Closed s)
    (hr : r.delivers (.output slot)) : Leads r s (setOutput slot value s) :=
  leads_emit enters_setInput value hs hr

theorem leads_deliver {listener : Listener} (value : Value) (hs : r.Closed s)
    (hr : r.delivers listener) : Leads r s (deliver listener value s) :=
  leads_deliverTo enters_setInput value hs hr

/-! ## Driving -/

/-- A task leads to where its channel or its node leads. -/
theorem leads_runTask {task : Task} (hs : r.Closed s) (hr : r.Runs task) :
    Leads r s (runTask task s) := by
  cases task with
  | deliver channel listeners value =>
    exact leads_forM hs fun listener hl s hs => leads_deliver value hs (hr listener hl)
  | emit slot value => exact leads_setOutput value hs hr

/-- A batch leads to where its tasks lead, and what is put back is within reach as before. -/
theorem leads_runBatch (hdrives : r.Drives) {tasks : List Task} (hs : r.Closed s)
    (hr : ∀ task ∈ tasks, r.defers task) : Leads r s (runBatch tasks s) := by
  induction tasks generalizing s with
  | nil => exact leads_pure _
  | cons task rest ih =>
    have htask := leads_runTask hs (hdrives task (hr task (List.mem_cons_self ..)))
    have hrest : ∀ t ∈ rest, r.defers t := fun t ht => hr t (List.mem_cons_of_mem _ ht)
    unfold runBatch
    split
    · rename_i s' hrun
      rw [hrun] at htask
      exact .of_steps htask.1 htask.2 (ih (hs.of_steps htask.1) hrest)
    -- The tasks behind one that stops early were put off before, so they may be again.
    · rename_i stop s' hrun
      rw [hrun] at htask
      exact ⟨htask.1.tail (.returned hrest), htask.2⟩

omit [Process π] [Condition κ] in
/-- What makes something runnable: nothing if there is work, or else the next deadline. -/
theorem makeRunnable_eq (horizon : Horizon) (s : Engine π κ) :
    makeRunnable horizon s =
      if s.isRunnable then .ok true s
      else match s.clock.nextDeadline? with
        | some deadline =>
          if horizon.allows deadline then .ok true { s with clock := s.clock.advanceTo deadline }
          else .ok false s
        | none => .ok false s := by
  unfold makeRunnable
  rw [get_bind]
  by_cases h : s.isRunnable = true
  · rw [if_pos h, if_pos h]
    rfl
  · rw [if_neg h, if_neg h]
    cases hd : s.clock.nextDeadline? with
    | none => rfl
    | some deadline =>
      dsimp only
      by_cases ha : horizon.allows deadline = true
      · rw [if_pos ha, if_pos ha]
        rfl
      · rw [if_neg ha, if_neg ha]
        rfl

/-- A tick runs what is queued and what is due. -/
theorem tick_eq (s : Engine π κ) :
    tick s =
      (do
        runBatch (s.queue ++ s.clock.takeDue.1).toList
        return (s.queue ++ s.clock.takeDue.1).toList.length : Act π κ Nat)
      { s with clock := s.clock.takeDue.2, queue := #[] } := rfl

/-- A tick leads to where its batch leads. -/
theorem leads_tick (hdrives : r.Drives) (hs : r.Closed s) : Leads r s (tick s) := by
  have hmoved : Step r s _ := .moved
  have hs₁ := hs.of_step hmoved
  rw [tick_eq]
  refine .of_steps (.tail (.single hmoved) .taken) rfl
    ((leads_runBatch hdrives (hs₁.of_step .taken) ?_).bind fun _ _ _ _ => leads_pure _)
  exact fun task htask => hs₁.queued task (Array.mem_toList_iff.1 htask)

/-- To move the time to a deadline is a step. -/
theorem leads_makeRunnable (horizon : Horizon) : Leads r s (makeRunnable horizon s) := by
  rw [makeRunnable_eq]
  split
  · exact leads_pure true
  · split
    · split
      · exact ⟨.single (.advanced _), rfl⟩
      · exact leads_pure false
    · exact leads_pure false

theorem leads_discard {act : Act π κ α} (h : Leads r s (act s)) : Leads r s (discard act s) :=
  Leads.bind (f := fun _ => pure PUnit.unit) h fun _ _ _ _ => leads_pure _

/-- A drive leads to where its ticks lead. By induction on the budget. -/
theorem leads_drive (hdrives : r.Drives) (horizon : Horizon) (budget : Nat) (hs : r.Closed s) :
    Leads r s (drive horizon budget s) := by
  induction budget generalizing s with
  | zero =>
    unfold drive
    refine (leads_makeRunnable horizon).bind fun runnable s₁ _ hsteps => ?_
    cases runnable with
    | true => exact leads_throw trivial
    | false => exact leads_pure _
  | succ budget ih =>
    unfold drive
    refine (leads_makeRunnable horizon).bind fun runnable s₁ _ hsteps => ?_
    have hs₁ := hs.of_steps hsteps
    cases runnable with
    | true =>
      exact (leads_discard (leads_tick hdrives hs₁)).bind fun _ s₂ _ hsteps => ih (hs₁.of_steps hsteps)
    | false => exact leads_pure _

theorem leads_driveAll (hdrives : r.Drives) (horizon : Horizon) (hs : r.Closed s) :
    Leads r s (driveAll horizon s) := by
  unfold driveAll
  rw [get_bind]
  exact (leads_drive hdrives horizon _ hs).bind fun _ _ _ _ => leads_pure _

theorem leads_runUntilIdle (hdrives : r.Drives) (hs : r.Closed s) : Leads r s (runUntilIdle s) :=
  leads_driveAll hdrives .now hs

/-- To let time pass leads to where the drive leads, and then moves the time. -/
theorem leads_advanceBy (hdrives : r.Drives) (span : Nat) (hs : r.Closed s) :
    Leads r s (advanceBy span s) := by
  unfold advanceBy
  rw [get_bind]
  cases Duration.add? s.clock.now span with
  | none => exact leads_throw trivial
  | some target =>
    exact (leads_discard (leads_driveAll hdrives (.upTo target) hs)).bind fun _ s₁ _ _ =>
      leads_modify (.advanced target) rfl

theorem leads_settle (hdrives : r.Drives) (hs : r.Closed s) : Leads r s (settle s) :=
  leads_discard (leads_driveAll hdrives .unbounded hs)

end Engine

end Dataflow
