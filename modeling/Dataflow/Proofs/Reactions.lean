import Dataflow.Leaf.Script
import Dataflow.Proofs.Limits
import Dataflow.Proofs.Routing
import Dataflow.Proofs.Tracing

/-!
# What a run of a leaf amounts to

What a process does while it runs is a sequence of calls, which end well or with a failure. State
writes take place at once and stand in any case; the effects it asks for wait for the end of the run.
So an input of a process comes in two parts (`leaf_runs_apply_in_order`). First the process has run
(`Ran`): its node differs in its cells and its leaf, and nothing else does. If the run has failed, that
is all. Otherwise the effects are applied (`Applied`), in the order of the calls, and each of them is
through with everything that it leads to before the next one is begun (`Completes`). An effect that
stops early leaves the effects before it applied in full, and those behind it are never begun.
-/

namespace Dataflow

/-! ## Behaviours -/

/-- What a process calls for during a run. -/
inductive Call where
  | setState (value : Value)
  | request (effect : Effect)
  deriving Repr, BEq

/-- What a process does in one run. -/
structure Behaviour (π : Type) where
  /-- The process as the run leaves it. -/
  next : π
  /-- The texts that the process announces itself. -/
  announced : List String
  /-- The calls, in order. -/
  calls : List Call
  /-- Why the run fails after these calls, if it does. -/
  failure? : Option LeafError

namespace Behaviour

variable {π : Type}

/-- The values written to the state cell, in order. -/
def writes (b : Behaviour π) : List Value :=
  b.calls.filterMap fun
    | .setState value => some value
    | .request _ => none

/-- The effects asked for, in order. -/
def requests (b : Behaviour π) : List Effect :=
  b.calls.filterMap fun
    | .setState _ => none
    | .request effect => some effect

/-- What the engine gets to see of the run. -/
def reaction (b : Behaviour π) : Reaction π where
  next := b.next
  written? := b.writes.getLast?
  announced := b.announced
  outcome := match b.failure? with
    | none => .ok b.requests
    | some cause => .error cause

/-- Whatever a process answers is what some behaviour amounts to. -/
theorem exists_reaction (r : Reaction π) : ∃ b : Behaviour π, b.reaction = r := by
  obtain ⟨next, written?, announced, outcome⟩ := r
  have hwrites : (written?.toList.map Call.setState).filterMap (fun
      | .setState value => some value
      | .request _ => none) = written?.toList := by cases written? <;> rfl
  have hlast : written?.toList.getLast? = written? := by cases written? <;> rfl
  cases outcome with
  | error cause =>
    refine ⟨⟨next, announced, written?.toList.map .setState, some cause⟩, ?_⟩
    rw [reaction, writes, hwrites, hlast]
  | ok effects =>
    have hrequests : (written?.toList.map Call.setState ++ effects.map Call.request).filterMap (fun
        | .setState _ => none
        | .request effect => some effect) = effects := by
      cases written? <;> simp [List.filterMap_map]
    have hnothing : (effects.map Call.request).filterMap (fun
        | .setState value => some value
        | .request _ => none) = [] := by simp [List.filterMap_map]
    refine ⟨⟨next, announced, written?.toList.map .setState ++ effects.map .request, none⟩, ?_⟩
    rw [reaction, requests, hrequests, writes, List.filterMap_append, hwrites, hnothing,
      List.append_nil, hlast]

end Behaviour

namespace Engine

open Moment

variable {π κ : Type} {s s' s₁ : Engine π κ} {slot : SlotId} {node : Node π κ} {kind : String}
  {leaf : π} {input : Value} {b : Behaviour π} {effects : List Effect}

/-! ## The run -/

/-- The second engine is the first one after the process at a node has run on an input: the input is
taken down, the leaf has become what the run leaves it, the state is the last one written. Reports have
been added, and nothing else is different. -/
structure Ran (s : Engine π κ) (slot : SlotId) (node : Node π κ) (kind : String) (input : Value)
    (b : Behaviour π) (s' : Engine π κ) : Prop where
  cell : s'.arena.get? slot = some { node with
    kind := .process kind b.next
    input? := some input
    state? := b.writes.getLast? <|> node.state? }
  others : ∀ other, other ≠ slot → s'.arena.get? other = s.arena.get? other
  identifiers : s.arena.SameSlots s'.arena
  log : s'.log.toList = s.log.toList ++
    ((if s.config.trace then [.hop (.input slot kind input)] else []) ++ b.announced.map .announced)
  rest : s' = { s with arena := s'.arena, log := s'.log }

/-- What is announced is reported in its order, behind what was reported before. -/
theorem announcing_log (texts : List String) (s : Engine π κ) :
    (s.announcing texts).log.toList = s.log.toList ++ texts.map .announced := by
  unfold announcing
  dsimp only
  generalize s.log = log
  induction texts generalizing log with
  | nil => exact (List.append_nil _).symm
  | cons text texts ih =>
    rw [List.foldl_cons, ih, Array.toList_push, List.append_assoc]
    rfl

/-- The engine after the process at a node has run on an input. -/
def reacted (s : Engine π κ) (slot : SlotId) (node : Node π κ) (kind : String) (input : Value)
    (b : Behaviour π) : Engine π κ :=
  let noted := s.noting slot node kind input
  announcing b.announced { noted with
    arena := noted.arena.set slot { node with
      kind := .process kind b.next
      input? := some input
      state? := b.writes.getLast? <|> node.state? } }

/-- A leaf that runs leaves all but its own node and the log as they are. -/
theorem ran_reacted (hget : s.arena.get? slot = some node) (kind : String) (input : Value)
    (b : Behaviour π) : Ran s slot node kind input b (s.reacted slot node kind input b) := by
  obtain ⟨log, htraced⟩ := traced_eq (.input slot kind input) s
  have hlog : log = (s.traced (.input slot kind input)).log := by rw [htraced]
  unfold reacted noting
  rw [htraced]
  dsimp only
  refine ⟨?_, fun other hother => ?_, ?_, ?_, rfl⟩
  · exact Arena.get?_set_self (Arena.get?_set_self hget _) _
  · exact (Arena.get?_set_of_ne hother _).trans (Arena.get?_set_of_ne hother _)
  · exact (s.arena.sameSlots_set slot _).trans (Arena.sameSlots_set _ slot _)
  · rw [announcing_log, ← List.append_assoc]
    congr 1
    dsimp only
    rw [hlog]
    unfold traced
    split <;> simp

variable [Process π] [Condition κ]

/-- Giving an input to a process runs it, in whatever way inputs are entered. -/
theorem storeAndRun_process (enter : SlotId → Value → Act π κ Unit)
    (hget : s.arena.get? slot = some node) (hkind : node.kind = .process kind leaf)
    (hrun : Process.run leaf input node.state? = b.reaction) :
    storeAndRun enter slot input s = match b.failure? with
      | none => b.requests.forM (applyEffect enter slot) (s.reacted slot node kind input b)
      | some cause => .error (.failed (.leaf kind cause)) (s.reacted slot node kind input b) := by
  obtain ⟨_, input?, state?, outputs⟩ := node
  obtain rfl : _ = NodeKind.process kind leaf := hkind
  unfold storeAndRun
  rw [node?_bind, hget]
  dsimp only
  rw [trace_bind, setNode_bind, runNode]
  dsimp only at hrun ⊢
  rw [runProcess, setNode_bind, bind_of_ok (announce_eq _), hrun]
  unfold Behaviour.reaction
  dsimp only
  cases b.failure? <;> rfl

/-! ## Effects -/

/-- The jobs are done one after the other, and each is through with everything that it leads to before
the next one is begun. -/
inductive Completes : List Job → Engine π κ → Engine π κ → Prop
  | nil {s : Engine π κ} : Completes [] s s
  | cons {s s₁ s' : Engine π κ} {job : Job} {jobs : List Job}
    (hjob : ∀ rest, Comes ⟨s, job :: rest, none⟩ ⟨s₁, rest, none⟩) (hjobs : Completes jobs s₁ s') :
    Completes (job :: jobs) s s'

/-- Acts in sequence complete what their jobs are, if they end well. -/
theorem completes_forM {α : Type} {xs : List α} {f : α → Act π κ PUnit} {job : α → Job}
    (h : ∀ x ∈ xs, ∀ s', Steady s s' → Unfolds [job x] s' (f x s'))
    (hok : xs.forM f s = .ok () s') : Completes (xs.map job) s s' := by
  induction xs generalizing s with
  | nil =>
    cases hok
    exact .nil
  | cons x xs ih =>
    have hx := h x (List.mem_cons_self ..) s (.refl s)
    have hok : (f x >>= fun _ => xs.forM f) s = .ok () s' := hok
    cases hfirst : f x s with
    | error stop s₁ =>
      rw [bind_of_error hfirst] at hok
      cases hok
    | ok _ s₁ =>
      rw [hfirst] at hx
      rw [bind_of_ok hfirst] at hok
      exact .cons hx.2 (ih (fun y hy s' hs' => h y (List.mem_cons_of_mem _ hy) s' (hx.1.trans hs')) hok)

/-- What it is for an effect of a node with these listeners to be applied in full. -/
inductive Applies (slot : SlotId) (listeners : List Listener) :
    Effect → Engine π κ → Engine π κ → Prop
  /-- The value has been sent out: to every listener, in order, with all that came of it. -/
  | emitted {s s' : Engine π κ} {node : Node π κ} {value : Value} {hops : Nat}
    (hemit : setOutput slot value s = .ok () s') (hget : s.arena.get? slot = some node)
    (houtputs : node.outputs = listeners)
    (hlisteners : Completes (listeners.map (.deliver hops · value))
      (s.traced (.output slot node.kind.name value)) s') :
    Applies slot listeners (.emit value) s s'
  | scheduled {s : Engine π κ} {delay : Nat} {value : Value} {clock : Clock Task}
    (hclock : s.clock.schedule? delay (.emit slot value) = some clock) :
    Applies slot listeners (.emitAfter delay value) s { s with clock }
  | rendered {s : Engine π κ} {value : Value} :
    Applies slot listeners (.render value) s
      { s.traced (.render slot value) with rendered := s.rendered.push value }

/-- Effects are applied in full, one after the other. -/
inductive Applied (slot : SlotId) (listeners : List Listener) :
    List Effect → Engine π κ → Engine π κ → Prop
  | nil {s : Engine π κ} : Applied slot listeners [] s s
  | cons {s s₁ s' : Engine π κ} {effect : Effect} {effects : List Effect}
    (heffect : Applies slot listeners effect s s₁) (hrest : Applied slot listeners effects s₁ s') :
    Applied slot listeners (effect :: effects) s s'

/-- What applying effects in order comes to: all of them are applied, or one stops early, after those
before it and without those behind it. -/
inductive Carries (slot : SlotId) (listeners : List Listener) (effects : List Effect) (s : Engine π κ) :
    EStateM.Result Stop (Engine π κ) Unit → Prop
  | all {s' : Engine π κ} (h : Applied slot listeners effects s s') :
    Carries slot listeners effects s (.ok () s')
  /-- Sending out a value has stopped early, which leaves the engine as it is then. -/
  | cutOff {before after : List Effect} {value : Value} {s₁ s' : Engine π κ} {stop : Stop}
    (heffects : effects = before ++ .emit value :: after)
    (hbefore : Applied slot listeners before s s₁) (hemit : setOutput slot value s₁ = .error stop s') :
    Carries slot listeners effects s (.error stop s')
  /-- A deadline is not representable. -/
  | beyond {before after : List Effect} {delay : Nat} {value : Value} {s₁ : Engine π κ}
    (heffects : effects = before ++ .emitAfter delay value :: after)
    (hbefore : Applied slot listeners before s s₁)
    (hclock : s₁.clock.schedule? delay (.emit slot value) = none) :
    Carries slot listeners effects s (.error .timeOverflow s₁)

/-- One more effect is applied before the others. -/
theorem Carries.cons {listeners : List Listener} {effect : Effect}
    {result : EStateM.Result Stop (Engine π κ) Unit} (heffect : Applies slot listeners effect s s₁)
    (h : Carries slot listeners effects s₁ result) :
    Carries slot listeners (effect :: effects) s result := by
  cases h with
  | all h => exact .all (.cons heffect h)
  | cutOff heffects hbefore hemit =>
    exact .cutOff (congrArg (effect :: ·) heffects) (.cons heffect hbefore) hemit
  | beyond heffects hbefore hclock =>
    exact .beyond (congrArg (effect :: ·) heffects) (.cons heffect hbefore) hclock

/-! ## Sending out -/

/-- Acts that unfold to the same jobs come to the same. -/
theorem eq_of_unfolds {x y : Act π κ Unit} {jobs : List Job} (hx : Unfolds jobs s (x s))
    (hy : Unfolds jobs s (y s)) : x s = y s := by
  have hended : ended x s = ended y s :=
    eq_of_comes hx.comes hy.comes (ended_todo ..) (ended_todo ..)
  cases h : y s with
  | ok _ s' =>
    rw [ended, ended, h] at hended
    exact (ok_of_ended hended).choose_spec
  | error stop s' =>
    rw [ended, ended, h] at hended
    exact error_of_ended hended

/-- Sending out a value is the same in whatever depth it is done. -/
theorem emit_enterWithin (slot : SlotId) (value : Value) (s : Engine π κ) :
    emit (enterWithin s.allowance) slot value s = setOutput slot value s :=
  eq_of_unfolds (unfolds_emit (unfolds_enterWithin s.allowance) rfl slot value)
    (unfolds_setOutput slot value s)

/-- A value that was passed on has reached every listener. -/
theorem completes_relay {hops : Nat} {value : Value} (hget : s.arena.get? slot = some node)
    (hok : relay setInput hops slot value s = .ok () s') : ∃ less,
      Completes (node.outputs.map (.deliver less · value))
        (s.traced (.output slot node.kind.name value)) s' := by
  cases hops with
  | zero => cases hok
  | succ less =>
    unfold relay at hok
    rw [node?_bind, hget] at hok
    dsimp only at hok
    rw [trace_bind] at hok
    refine ⟨less, completes_forM (fun listener _ s₁ _ => ?_) hok⟩
    have henter := unfolds_setInput (π := π) (κ := κ) s₁.allowance
    exact unfolds_deliverBy henter rfl
      (fun slot value s hs => unfolds_relay henter less slot value s hs) listener value

/-- A value that is put out goes to all listeners of the output. -/
theorem applies_setOutput {value : Value} (hget : s.arena.get? slot = some node)
    (hok : setOutput slot value s = .ok () s') :
    Applies slot node.outputs (.emit value) s s' := by
  have hrelay : relay setInput (relayLimit s) slot value s = .ok () s' := by
    unfold setOutput emit at hok
    rwa [get_bind] at hok
  obtain ⟨hops, hcompletes⟩ := completes_relay hget hrelay
  exact .emitted hok hget rfl hcompletes

/-- A node is wired to the same listeners after an effect. -/
theorem exists_node_of_applyEffect {effect : Effect} {allowance : Nat} (hget : s.arena.get? slot = some node)
    (hok : applyEffect (enterWithin allowance) slot effect s = .ok () s') :
    s'.allowance = s.allowance ∧
      ∃ node', s'.arena.get? slot = some node' ∧ node'.outputs = node.outputs := by
  have hleads : Leads .everything s (applyEffect (enterWithin allowance) slot effect s) :=
    leads_applyEffect (enters_enterWithin allowance) effect (Reach.closed_everything s) trivial
      fun _ => trivial
  rw [hok] at hleads
  obtain ⟨hsteps, hactive⟩ := hleads
  have hwiring := hsteps.sameWiring
  have hnode := hwiring.nodes slot
  rw [hget, Option.map_some] at hnode
  obtain ⟨node', hget', hsame⟩ := Option.map_eq_some_iff.1 hnode
  exact ⟨Steady.allowance ⟨hwiring.config, hactive⟩, node', hget', congrArg Prod.snd hsame⟩

/-- An effect is applied, or it stops early and nothing behind it is done. -/
theorem applyEffect_cases (hget : s.arena.get? slot = some node) (effect : Effect) :
    (∃ s₁, applyEffect (enterWithin s.allowance) slot effect s = .ok () s₁ ∧
        Applies slot node.outputs effect s s₁) ∨
      ∃ stop s₁, applyEffect (enterWithin s.allowance) slot effect s = .error stop s₁ ∧
        ∀ rest, Carries slot node.outputs (effect :: rest) s (.error stop s₁) := by
  cases effect with
  | emit value =>
    have hemitted : applyEffect (enterWithin s.allowance) slot (.emit value) s =
        setOutput slot value s := emit_enterWithin slot value s
    rw [hemitted]
    cases hemit : setOutput slot value s with
    | ok _ s₁ => exact .inl ⟨s₁, rfl, applies_setOutput hget hemit⟩
    | error stop s₁ => exact .inr ⟨stop, s₁, rfl, fun rest => .cutOff (List.nil_append _).symm .nil hemit⟩
  | emitAfter delay value =>
    rw [applyEffect, get_bind]
    cases hclock : s.clock.schedule? delay (.emit slot value) with
    | some clock => exact .inl ⟨_, rfl, .scheduled hclock⟩
    | none => exact .inr ⟨_, s, rfl, fun rest => .beyond (List.nil_append _).symm .nil hclock⟩
  | render value =>
    have hrendered : (s.traced (.render slot value)).rendered = s.rendered := by
      obtain ⟨log, htraced⟩ := traced_eq (.render slot value) s
      rw [htraced]
    refine .inl ⟨_, ?_, .rendered⟩
    rw [← hrendered]
    exact trace_bind (.render slot value) _

/-- Applying effects in order, in any depth. -/
theorem carries_forM (effects : List Effect) (hget : s.arena.get? slot = some node) :
    Carries slot node.outputs effects s
      (effects.forM (applyEffect (enterWithin s.allowance) slot) s) := by
  induction effects generalizing s node with
  | nil => exact .all .nil
  | cons effect rest ih =>
    show Carries slot node.outputs (effect :: rest) s
      ((applyEffect (enterWithin s.allowance) slot effect >>= fun _ => rest.forM _) s)
    rcases applyEffect_cases hget effect with ⟨s₁, happly, happlies⟩ | ⟨stop, s₁, happly, hcarries⟩
    · rw [bind_of_ok happly]
      obtain ⟨hallowance, node', hget', houtputs⟩ := exists_node_of_applyEffect hget happly
      have hrest := ih hget'
      rw [hallowance, houtputs] at hrest
      exact .cons happlies hrest
    · rw [bind_of_error happly]
      exact hcarries rest

/-! ## The whole input -/

/-- What an act comes to, with these inputs in progress afterwards. -/
def resting (active : List SlotId) :
    EStateM.Result Stop (Engine π κ) Unit → EStateM.Result Stop (Engine π κ) Unit
  | .ok _ s => .ok () { s with active }
  | .error stop s => .error stop { s with active }

/-- What becomes of an input of a process when its leaf has run. -/
inductive Reacts (slot : SlotId) (listeners : List Listener) (kind : String) (b : Behaviour π)
    (s : Engine π κ) : EStateM.Result Stop (Engine π κ) Unit → Prop
  /-- The run has failed, and nothing is done for it. -/
  | failed {cause : LeafError} (hfails : b.failure? = some cause) :
    Reacts slot listeners kind b s (.error (.failed (.leaf kind cause)) s)
  /-- The run has ended well, and its effects are applied while the input is in progress. -/
  | carried {result : EStateM.Result Stop (Engine π κ) Unit} (hsucceeds : b.failure? = none)
    (hcarries : Carries slot listeners b.requests { s with active := slot :: s.active } result) :
    Reacts slot listeners kind b s (resting s.active result)

omit [Process π] [Condition κ] in
/-- Which inputs are in progress makes no difference to a run. -/
theorem Ran.with_active (h : Ran s slot node kind input b s') (active : List SlotId) :
    Ran { s with active } slot node kind input b { s' with active } where
  cell := h.cell
  others := h.others
  identifiers := h.identifiers
  log := h.log
  rest := by rw [h.rest]

omit [Process π] [Condition κ] in
/-- An act that leaves the inputs in progress, done as part of one more. -/
theorem nested_eq {act : Act π κ Unit}
    (h : match act { s with active := slot :: s.active } with
      | .ok _ s' | .error _ s' => s'.active = slot :: s.active) :
    nested slot act s = resting s.active (act { s with active := slot :: s.active }) := by
  unfold nested
  cases hact : act { s with active := slot :: s.active } with
  | ok _ s' =>
    rw [hact] at h
    dsimp only at h ⊢
    rw [h]
    rfl
  | error stop s' =>
    rw [hact] at h
    dsimp only at h ⊢
    rw [h]
    rfl

/-- **A run of a leaf takes effect all or nothing, and in order.** An input of a process that is not too
deep runs the leaf, which changes the cells of its own node and the leaf and adds to the reports
(`Ran`). If the run fails, that is all. If it ends well, its effects are applied to the engine that this
leaves, in the order in which they were asked for: each is applied in full before the next one, and if
one of them stops early, those before it have been applied in full, and those behind it are dropped. -/
theorem leaf_runs_apply_in_order (hget : s.arena.get? slot = some node)
    (hkind : node.kind = .process kind leaf) (hrun : Process.run leaf input node.state? = b.reaction) :
    (s.allowance = 0 ∧
        setInput slot input s = .error (.failed (.depthExceeded s.config.maxDepth)) s) ∨
      ∃ s', Ran s slot node kind input b s' ∧
        Reacts slot node.outputs kind b s' (setInput slot input s) := by
  have hdeep : setInput slot input s = enterWithin s.allowance slot input s := rfl
  cases hallowance : s.allowance with
  | zero =>
    refine .inl ⟨rfl, ?_⟩
    rw [hdeep, hallowance]
    rfl
  | succ allowance =>
    let inside : Engine π κ := { s with active := slot :: s.active }
    have hran := ran_reacted (s := inside) hget kind input b
    have hstore := storeAndRun_process (s := inside) (enterWithin allowance) hget hkind hrun
    generalize inside.reacted slot node kind input b = s₁ at hran hstore
    have hactive : s₁.active = slot :: s.active := by rw [hran.rest]
    have hleads : Leads .everything inside (storeAndRun (enterWithin allowance) slot input inside) :=
      leads_storeAndRun (enters_enterWithin allowance) input (Reach.closed_everything inside) trivial
    have hresult : setInput slot input s =
        resting s.active (storeAndRun (enterWithin allowance) slot input inside) := by
      rw [hdeep, hallowance]
      refine nested_eq ?_
      revert hleads
      cases storeAndRun (enterWithin allowance) slot input inside with
      | ok _ s' => exact fun hleads => hleads.2
      | error stop s' => exact fun hleads => hleads.2.1
    refine .inr ⟨{ s₁ with active := s.active }, hran.with_active s.active, ?_⟩
    rw [hresult, hstore]
    cases hfailure : b.failure? with
    | some cause => exact .failed hfailure
    | none =>
      have hdepth : s₁.allowance = allowance := by
        have hbelow : s.config.maxDepth - s.active.length = allowance + 1 := hallowance
        have hconfig : s₁.config = s.config := by rw [hran.rest]
        rw [Engine.allowance, depth, hactive, hconfig, List.length_cons]
        omega
      have hcarries := carries_forM b.requests hran.cell
      rw [hdepth] at hcarries
      -- The effects start from the engine that the run has left, with the input in progress.
      have hinside : ({ s₁ with active := slot :: s.active } : Engine π κ) = s₁ := by rw [← hactive]
      exact .carried hfailure (hinside.symm ▸ hcarries)

/-- A process that writes its state and asks for three effects. -/
def chatty : Script := ⟨[.setState (.literal (.bool true)), .render .input, .emit .input, .emitAfter 5 .input]⟩

/-- What the process does on an input. -/
def Behaviour.chatty (input : Value) : Behaviour Script where
  next := Engine.chatty
  announced := []
  calls := [.setState (.bool true), .request (.render input), .request (.emit input),
    .request (.emitAfter 5 input)]
  failure? := none

/-- The process with a listener that fails on every input. -/
def chattering : Engine Script Test :=
  let arena := Arena.empty.alloc (.fresh (.process "chatty" chatty) [.input ⟨1, 0⟩])
  { (initial {} : Engine Script Test) with
    arena := arena.alloc (.fresh (.process "broken" ⟨[.fail "broken"]⟩) []) }

/-- The effect before the one that fails is applied, and the one behind it is dropped. -/
theorem leaf_runs_apply_in_order_chattering :
    (∃ s', Ran chattering ⟨0, 0⟩ (.fresh (.process "chatty" chatty) [.input ⟨1, 0⟩]) "chatty" .unit
        (Behaviour.chatty .unit) s' ∧
      Reacts ⟨0, 0⟩ [.input ⟨1, 0⟩] "chatty" (Behaviour.chatty .unit) s'
        (setInput ⟨0, 0⟩ .unit chattering)) ∧
      (match setInput ⟨0, 0⟩ .unit chattering with
        | .ok _ s' => (none, s'.rendered.size, s'.clock.pending.length)
        | .error stop s' => (some stop, s'.rendered.size, s'.clock.pending.length)) =
      (some (.failed (.leaf "broken" (.other "broken"))), 1, 0) := by
  refine ⟨?_, rfl⟩
  have hget : chattering.arena.get? ⟨0, 0⟩ =
      some (.fresh (.process "chatty" chatty) [.input ⟨1, 0⟩]) := rfl
  have hrun : Process.run chatty .unit none = (Behaviour.chatty .unit).reaction := rfl
  obtain ⟨hzero, -⟩ | hreacts := leaf_runs_apply_in_order hget rfl hrun
  · cases hzero
  · exact hreacts

end Engine

end Dataflow
