import Dataflow.Graph.Build
import Dataflow.Proofs.History
import Dataflow.Proofs.Jobs

/-!
# Acts are what their jobs come to

An act of the engine and the jobs that it stands for come to the same. `Unfolds jobs s result` says
so of a result: doing the jobs before any others leaves the engine that the act leaves, and if the
act stops early, the others are given up. As in the definitions of propagation, everything is first
shown for any way to enter an input which is what its job comes to, and the knot is tied by
induction on the allowance.

So the operations of a history are told moment by moment by a `Story`, which ends in the engine that
the history ends in (`Graph.story_operateAll`).
-/

namespace Dataflow

open Moment

namespace Engine

variable {π κ : Type} {s s₁ : Engine π κ}

/-- The engines are configured alike and have the same inputs in progress. -/
structure Steady (s s' : Engine π κ) : Prop where
  config : s'.config = s.config
  active : s'.active = s.active

namespace Steady

theorem refl (s : Engine π κ) : Steady s s := ⟨rfl, rfl⟩

theorem trans {s' s'' : Engine π κ} (h : Steady s s') (h' : Steady s' s'') : Steady s s'' :=
  ⟨h'.config.trans h.config, h'.active.trans h.active⟩

/-- What has the same inputs in progress has the same room for more. -/
theorem allowance {s' : Engine π κ} (h : Steady s s') : s'.allowance = s.allowance := by
  rw [Engine.allowance, Engine.allowance, depth, depth, h.config, h.active]

end Steady

/-- What is still is steady. -/
theorem Still.steady {s' : Engine π κ} (h : Still s s') : Steady s s' := ⟨h.wiring.config, h.active⟩

theorem steady_makeRunnable {horizon : Horizon} {runnable : Bool}
    (h : makeRunnable horizon s = .ok runnable s₁) : Steady s s₁ := by
  rcases makeRunnable_engine h with rfl | ⟨time, rfl⟩ <;> exact ⟨rfl, rfl⟩

end Engine

namespace Job

open Engine

variable {π κ : Type} {s s' : Engine π κ} {job : Job}

/-- No job of propagation begins or ends an input on its own. -/
theorem Begins.steady {jobs : List Job} (h : job.Begins s jobs s') (hjob : job.Propagates) :
    Steady s s' := by
  cases h with
  | propagated _ _ h => exact h.steady
  | sent hget h => exact ⟨h.wiring.config, h.active⟩
  | scheduled => exact ⟨rfl, rfl⟩
  | _ => exact hjob.elim

/-- A job of propagation that fails leaves the inputs in progress as they are. -/
theorem Fails.steady {stop : Stop} (h : job.Fails s stop s') (hjob : job.Propagates) : Steady s s' := by
  cases h with
  | propagated _ _ h => exact h.steady
  | _ => exact hjob.elim

end Job

namespace Moment

open Engine

variable {π κ : Type} [Process π] [Condition κ] {s s₁ : Engine π κ} {α β : Type}
  {jobs jobs' : List Job} {job : Job}

/-! ## Results that jobs come to -/

/-- Doing the jobs before any others comes to the result. -/
def Unfolds (jobs : List Job) (s : Engine π κ) : EStateM.Result Stop (Engine π κ) α → Prop
  | .ok _ s' => Steady s s' ∧ ∀ rest, Comes ⟨s, jobs ++ rest, none⟩ ⟨s', rest, none⟩
  | .error stop s' =>
    Steady s s' ∧ ∀ rest, Comes ⟨s, jobs ++ rest, none⟩ ⟨unwind rest s', [], some stop⟩

/-- The jobs that a job leads to come before those that were left. -/
theorem next?_of_ok {rest : List Job} {stop? : Option Stop} (h : job.start s = .ok jobs s₁) :
    (⟨s, job :: rest, stop?⟩ : Moment π κ).next? = some ⟨s₁, jobs ++ rest, none⟩ := by
  simp only [next?, h]

/-- When a job fails, those behind it are given up. -/
theorem next?_of_error {rest : List Job} {stop? : Option Stop} {stop : Stop}
    (h : job.start s = .error stop s₁) :
    (⟨s, job :: rest, stop?⟩ : Moment π κ).next? = some ⟨unwind rest s₁, [], some stop⟩ := by
  simp only [next?, h]

theorem unfolds_pure (a : α) (s : Engine π κ) : Unfolds [] s (.ok a s) := ⟨.refl s, fun _ => .refl⟩

/-- An input that ends leads nowhere. -/
theorem next?_leave (s : Engine π κ) (rest : List Job) :
    (⟨s, .leave :: rest, none⟩ : Moment π κ).next? =
      some ⟨{ s with active := s.active.tail }, rest, none⟩ := rfl

/-- Jobs that come to other jobs, in an engine with the same inputs in progress. -/
theorem Unfolds.of_comes {result : EStateM.Result Stop (Engine π κ) α} (hsteady : Steady s s₁)
    (hcomes : ∀ rest, Comes ⟨s, jobs ++ rest, none⟩ ⟨s₁, jobs' ++ rest, none⟩)
    (h : Unfolds jobs' s₁ result) : Unfolds jobs s result := by
  cases result with
  | ok a s' => exact ⟨hsteady.trans h.1, fun rest => (hcomes rest).trans (h.2 rest)⟩
  | error stop s' => exact ⟨hsteady.trans h.1, fun rest => (hcomes rest).trans (h.2 rest)⟩

/-- An act whose first job is done comes to what the jobs after it come to. -/
theorem Unfolds.after {result : EStateM.Result Stop (Engine π κ) α} (hstart : job.start s = .ok jobs s₁)
    (hsteady : Steady s s₁) (h : Unfolds jobs s₁ result) : Unfolds [job] s result :=
  h.of_comes hsteady fun _ => .single (next?_of_ok hstart)

/-- A job of propagation that leads to others. -/
theorem Unfolds.of_start {result : EStateM.Result Stop (Engine π κ) α} (hjob : job.Propagates)
    (hstart : job.start s = .ok jobs s₁) (h : Unfolds jobs s₁ result) : Unfolds [job] s result :=
  .after hstart ((Job.begins_of_start hstart).steady hjob) h

/-- A job of propagation that fails. -/
theorem Unfolds.of_error {stop : Stop} (hjob : job.Propagates) (hstart : job.start s = .error stop s₁) :
    Unfolds [job] s (.error stop s₁ : EStateM.Result Stop (Engine π κ) α) :=
  ⟨(Job.fails_of_start hstart).steady hjob, fun _ => .single (next?_of_error hstart)⟩

/-- Acts in sequence come to what their jobs come to in sequence, if giving up the later jobs leaves
the engine alone. -/
theorem Unfolds.bind {x : Act π κ α} {f : α → Act π κ β} (hx : Unfolds jobs s (x s))
    (hidle : ∀ s : Engine π κ, unwind jobs' s = s)
    (hf : ∀ a s', Steady s s' → Unfolds jobs' s' (f a s')) :
    Unfolds (jobs ++ jobs') s ((x >>= f) s) := by
  cases h : x s with
  | error stop s' =>
    rw [h] at hx
    rw [bind_of_error h]
    refine ⟨hx.1, fun rest => ?_⟩
    have hcomes := hx.2 (jobs' ++ rest)
    rwa [← List.append_assoc, unwind, List.foldl_append, ← unwind, ← unwind, hidle] at hcomes
  | ok a s' =>
    rw [h] at hx
    rw [bind_of_ok h]
    refine (hf a s' hx.1).of_comes hx.1 fun rest => ?_
    rw [List.append_assoc]
    exact hx.2 (jobs' ++ rest)

/-- What only looks at the answer of an act adds no job. -/
theorem Unfolds.map {x : Act π κ α} (hx : Unfolds jobs s (x s)) (f : α → β) :
    Unfolds jobs s ((x >>= fun a => pure (f a)) s) := by
  have hpure : ∀ a s', Steady s s' → Unfolds [] s' ((pure (f a) : Act π κ β) s') :=
    fun a s' _ => unfolds_pure (f a) s'
  have h := hx.bind (fun _ => rfl) hpure
  rwa [List.append_nil] at h

omit [Process π] [Condition κ] in
/-- To give up jobs that hold nothing changes nothing. -/
theorem unwind_map {job : β → Job} (hidle : ∀ x, ∀ s : Engine π κ, (job x).giveUp s = s) (xs : List β)
    (s : Engine π κ) : unwind (xs.map job) s = s := by
  induction xs with
  | nil => rfl
  | cons x xs ih => rw [List.map_cons, unwind, List.foldl_cons, hidle, ← unwind, ih]

/-- A loop comes to the jobs of its turns, in order. -/
theorem unfolds_forM {xs : List β} {f : β → Act π κ PUnit} {job : β → Job}
    (hidle : ∀ x, ∀ s : Engine π κ, (job x).giveUp s = s)
    (h : ∀ x ∈ xs, ∀ s', Steady s s' → Unfolds [job x] s' (f x s')) :
    Unfolds (xs.map job) s (xs.forM f s) := by
  induction xs generalizing s with
  | nil => exact unfolds_pure _ s
  | cons x xs ih =>
    refine (h x (List.mem_cons_self ..) s (.refl s)).bind (unwind_map hidle xs) fun _ s' hs' => ?_
    exact ih fun y hy s'' hs'' => h y (List.mem_cons_of_mem _ hy) s'' (hs'.trans hs'')

/-! ## Propagation -/

section Entered

variable {enter : SlotId → Value → Act π κ Unit} {allowance : Nat}

/-- With such an allowance, a way to enter inputs is what its job comes to. -/
def UnfoldsEnter (allowance : Nat) (enter : SlotId → Value → Act π κ Unit) : Prop :=
  ∀ slot value s, s.allowance = allowance → Unfolds [.enter slot value] s (enter slot value s)

/-- A delivery comes to its job. -/
theorem unfolds_deliverBy {relay : SlotId → Value → Act π κ Unit} {hops : Nat}
    (henter : UnfoldsEnter allowance enter) (hs : s.allowance = allowance)
    (hrelay : ∀ slot value s, s.allowance = allowance →
      Unfolds [.relay hops slot value] s (relay slot value s)) (listener : Listener) (value : Value) :
    Unfolds [.deliver hops listener value] s (deliverBy enter relay value listener s) := by
  cases listener with
  | input slot => exact .of_start trivial rfl (henter slot value s hs)
  | output slot => exact .of_start trivial rfl (hrelay slot value s hs)
  | state slot =>
    show Unfolds _ s (setState slot value s)
    cases h : setState slot value s with
    | ok a s₁ =>
      have hstart : (Job.deliver hops (.state slot) value).start s = .ok [] s₁ :=
        bind_of_ok (f := fun _ => pure []) h
      exact .of_start trivial hstart (unfolds_pure a s₁)
    | error stop s₁ =>
      have hstart : (Job.deliver hops (.state slot) value).start s = .error stop s₁ :=
        bind_of_error (f := fun _ => pure []) h
      exact .of_error trivial hstart
  | broadcast id =>
    have hstart : (Job.deliver hops (.broadcast id) value).start s = .ok [] _ :=
      bind_of_ok (f := fun _ => pure []) (send_eq id value s)
    show Unfolds _ s (send id value s)
    rw [send_eq]
    exact .of_start trivial hstart (unfolds_pure () _)
  | sink => exact .of_start trivial rfl (unfolds_pure () _)

/-- A relay comes to its job. By induction on the hops, as a listener may be the output of another node. -/
theorem unfolds_relay (henter : UnfoldsEnter allowance enter) (hops : Nat) (slot : SlotId)
    (value : Value) (s : Engine π κ) (hs : s.allowance = allowance) :
    Unfolds [.relay hops slot value] s (relay enter hops slot value s) := by
  induction hops generalizing slot value s with
  | zero => exact .of_error trivial rfl
  | succ hops ih =>
    have hstart : (Job.relay (hops + 1) slot value).start s =
        Job.startRelay (hops + 1) slot value s := rfl
    rw [Job.startRelay, node?_bind] at hstart
    rw [relay, node?_bind]
    cases hget : s.arena.get? slot with
    | none =>
      rw [hget] at hstart
      exact .of_start trivial hstart (unfolds_pure () _)
    | some node =>
      rw [hget] at hstart
      dsimp only at hstart ⊢
      rw [trace_bind] at hstart ⊢
      refine .of_start trivial hstart (unfolds_forM (fun _ _ => rfl) fun listener _ s' hs' => ?_)
      -- Tracing and earlier deliveries enter no input that is not left again, so the allowance is the
      -- same.
      have hallowance : s'.allowance = allowance := by
        rw [hs'.allowance, (Still.traced _ s).steady.allowance, hs]
      exact unfolds_deliverBy henter hallowance ih listener value

/-- An emitted value comes to its job. -/
theorem unfolds_emit (henter : UnfoldsEnter allowance enter) (hs : s.allowance = allowance)
    (slot : SlotId) (value : Value) :
    Unfolds [.carryOut slot (.emit value)] s (emit enter slot value s) := by
  unfold emit
  rw [get_bind]
  have hstart : (Job.carryOut slot (.emit value)).start s =
      .ok [.relay (relayLimit s) slot value] s := rfl
  generalize relayLimit s = limit at hstart ⊢
  exact .of_start trivial hstart (unfolds_relay henter limit slot value s hs)

/-- An effect comes to its job. -/
theorem unfolds_applyEffect (henter : UnfoldsEnter allowance enter) (hs : s.allowance = allowance)
    (slot : SlotId) (effect : Effect) :
    Unfolds [.carryOut slot effect] s (applyEffect enter slot effect s) := by
  cases effect with
  | emit value => exact unfolds_emit henter hs slot value
  | emitAfter delay value =>
    have hstart : (Job.carryOut slot (.emitAfter delay value)).start s =
        Job.startCarryOut slot (.emitAfter delay value) s := rfl
    unfold Job.startCarryOut at hstart
    dsimp only at hstart
    rw [applyEffect, get_bind]
    cases hclock : s.clock.schedule? delay (.emit slot value) with
    | some clock =>
      rw [hclock] at hstart
      exact .of_start trivial hstart (unfolds_pure () _)
    | none =>
      rw [hclock] at hstart
      exact .of_error trivial hstart
  | render value =>
    have hstart : (Job.carryOut slot (.render value)).start s =
        Job.startCarryOut slot (.render value) s := rfl
    rw [Job.startCarryOut, trace_bind] at hstart
    rw [applyEffect, trace_bind]
    exact .of_start trivial hstart (unfolds_pure () _)

/-- A conditional comes to its job: the conditions are asked when it begins, and then a branch is entered. -/
theorem unfolds_routeBy (henter : UnfoldsEnter allowance enter) (hs : s.allowance = allowance)
    (slot : SlotId) (input : Value) :
    Unfolds [.route slot input] s (routeBy enter slot input s) := by
  have hstart : (Job.route slot input).start s = Job.startRoute slot input s := rfl
  rw [Job.startRoute, node?_bind] at hstart
  rw [routeBy, node?_bind]
  cases hget : s.arena.get? slot with
  | none =>
    rw [hget] at hstart
    exact .of_start trivial hstart (unfolds_pure _ _)
  | some node =>
    rw [hget] at hstart
    obtain ⟨kind, input?, state?, outputs⟩ := node
    cases kind with
    | conditional conditions positive negative? =>
      dsimp only at hstart ⊢
      have hcalm : Calm s (allHold input conditions s) := calm_allHold input conditions
      cases hall : allHold input conditions s with
      | error stop s₁ =>
        rw [bind_of_error hall] at hstart ⊢
        exact .of_error trivial hstart
      | ok matched s₁ =>
        rw [hall] at hcalm
        rw [bind_of_ok hall, trace_bind] at hstart ⊢
        have hallowance := Steady.allowance (Still.steady (Still.trans hcalm
          (.traced (.branch slot (conditionalKind negative?).name matched) s₁)))
        rw [hs] at hallowance
        cases matched with
        | true =>
          exact .of_start trivial hstart ((henter positive input _ hallowance).map fun _ => true)
        | false =>
          cases negative? with
          | none => exact .of_start trivial hstart (unfolds_pure false _)
          | some negative =>
            exact .of_start trivial hstart ((henter negative input _ hallowance).map fun _ => true)
    | _ => exact .of_start trivial hstart (unfolds_pure false s)

/-- An input that is stored and run comes to its job, whatever the kind of its node. -/
theorem unfolds_storeAndRun (henter : UnfoldsEnter allowance enter) (hs : s.allowance = allowance)
    (slot : SlotId) (value : Value) :
    Unfolds [.handle slot value] s (storeAndRun enter slot value s) := by
  have hstart : (Job.handle slot value).start s = Job.startHandle slot value s := rfl
  rw [Job.startHandle, node?_bind] at hstart
  rw [storeAndRun, node?_bind]
  cases hget : s.arena.get? slot with
  | none =>
    rw [hget] at hstart
    exact .of_start trivial hstart (unfolds_pure () _)
  | some node =>
    rw [hget] at hstart
    dsimp only at hstart ⊢
    rw [trace_bind, setNode_bind] at hstart ⊢
    have hallowance : ∀ {s'}, Steady s s' → s'.allowance = allowance := fun h => h.allowance.trans hs
    -- Storing the input takes no room, so what follows may enter inputs with the same allowance.
    obtain ⟨kind, input?, state?, outputs⟩ := node
    cases kind with
    | placeholder => exact .of_start trivial hstart (unfolds_pure () _)
    | composite producers =>
      refine .of_start trivial hstart (unfolds_forM (fun _ _ => rfl) fun producer _ s' hs' => ?_)
      have hbegun : Steady s _ := (Job.begins_of_start hstart).steady trivial
      exact henter producer value s' (hallowance (hbegun.trans hs'))
    | conditional conditions positive negative? =>
      have hrouted := unfolds_routeBy henter
        (hallowance ((Job.begins_of_start hstart).steady trivial)) slot value
      exact .of_start trivial hstart (hrouted.map fun _ => ())
    | constant constant => exact .of_start trivial hstart (unfolds_pure () _)
    | condition kind leaf =>
      rw [runNode]
      dsimp only at hstart ⊢
      cases htest : Condition.test leaf value state? with
      | ok holds =>
        rw [htest] at hstart
        exact .of_start trivial hstart (unfolds_emit henter
          (hallowance ((Job.begins_of_start hstart).steady trivial)) slot (.bool holds))
      | error cause =>
        rw [htest] at hstart
        exact .of_error trivial hstart
    | process kind leaf =>
      rw [runNode]
      dsimp only at hstart ⊢
      rw [setNode_bind, bind_of_ok (announce_eq _)] at hstart
      rw [runProcess, setNode_bind, bind_of_ok (announce_eq _)]
      dsimp only at hstart ⊢
      cases hout : (Process.run leaf value state?).outcome with
      | ok effects =>
        rw [hout] at hstart
        refine .of_start trivial hstart (unfolds_forM (fun _ _ => rfl) fun effect _ s' hs' => ?_)
        exact unfolds_applyEffect henter
          (hallowance (((Job.begins_of_start hstart).steady trivial).trans hs')) slot effect
      | error cause =>
        rw [hout] at hstart
        exact .of_error trivial hstart

end Entered

/-! ## Inputs -/

/-- The knot is tied: to enter an input comes to its job, by induction on the allowance. -/
theorem unfolds_enterWithin (allowance : Nat) :
    UnfoldsEnter allowance (enterWithin allowance : SlotId → Value → Act π κ Unit) := by
  induction allowance with
  | zero =>
    intro slot value s hs
    have hstart : (Job.enter slot value).start s =
        .error (.failed (.depthExceeded s.config.maxDepth)) s := if_pos hs
    exact ⟨.refl s, fun _ => .single (next?_of_error hstart)⟩
  | succ allowance ih =>
    intro slot value s hs
    have hstart : (Job.enter slot value).start s =
        .ok [.handle slot value, .leave] { s with active := slot :: s.active } :=
      if_neg (by rw [hs]; exact Nat.succ_ne_zero _)
    -- With one more input in progress there is room for one less.
    have hin : ({ s with active := slot :: s.active } : Engine π κ).allowance = allowance := by
      rw [Engine.allowance, depth, List.length_cons]
      rw [Engine.allowance, depth] at hs
      dsimp only
      omega
    have hhandle := unfolds_storeAndRun ih hin slot value
    rw [enterWithin, nested]
    -- The input ends with its own job, or is given up with the others.
    cases h : storeAndRun (enterWithin allowance) slot value { s with active := slot :: s.active } with
    | ok a s' =>
      rw [h] at hhandle
      refine ⟨⟨hhandle.1.config, congrArg List.tail hhandle.1.active⟩, fun rest => ?_⟩
      exact .head (next?_of_ok hstart) ((hhandle.2 (.leave :: rest)).tail
        (next?_leave s' rest))
    | error stop s' =>
      rw [h] at hhandle
      refine ⟨⟨hhandle.1.config, congrArg List.tail hhandle.1.active⟩, fun rest => ?_⟩
      exact .head (next?_of_ok hstart) (hhandle.2 (.leave :: rest))

/-- An input from outside comes to its job, whatever else is in progress. -/
theorem unfolds_setInput (allowance : Nat) :
    UnfoldsEnter allowance (setInput : SlotId → Value → Act π κ Unit) := by
  intro slot value s _
  unfold setInput
  rw [get_bind]
  exact unfolds_enterWithin _ slot value s rfl

/-- An output from outside comes to the job of emitting. -/
theorem unfolds_setOutput (slot : SlotId) (value : Value) (s : Engine π κ) :
    Unfolds [.carryOut slot (.emit value)] s (setOutput slot value s) :=
  unfolds_emit (unfolds_setInput _) rfl slot value

/-- A delivery from outside relays nothing, so it does not matter how it would. -/
theorem unfolds_handed {listener : Listener} (h : ∀ slot, listener ≠ .output slot) (value : Value)
    (s : Engine π κ) (relay : SlotId → Value → Act π κ Unit) :
    Unfolds [.deliver 0 listener value] s (deliverBy setInput relay value listener s) := by
  have hrelay : deliverBy setInput relay value listener =
      deliverBy setInput (Engine.relay setInput 0) value listener := by
    cases listener with
    | output slot => exact absurd rfl (h slot)
    | _ => rfl
  rw [hrelay]
  exact unfolds_deliverBy (unfolds_setInput _) rfl
    (fun slot value s hs => unfolds_relay (unfolds_setInput _) 0 slot value s hs) listener value

/-- What is handed on comes to its job. -/
theorem unfolds_deliver (listener : Listener) (value : Value) (s : Engine π κ) :
    Unfolds [.hand listener value] s (deliver listener value s) := by
  have hother : ∀ {jobs}, (Job.hand listener value).start s = .ok jobs s →
      jobs = [.deliver 0 listener value] → (∀ slot, listener ≠ .output slot) →
      Unfolds [.hand listener value] s (deliver listener value s) := fun hstart hjobs h =>
    .of_start trivial hstart (hjobs ▸ unfolds_handed h value s _)
  cases listener with
  | output slot =>
    have hstart : (Job.hand (.output slot) value).start s = .ok [.carryOut slot (.emit value)] s := rfl
    exact .of_start trivial hstart (unfolds_setOutput slot value s)
  | _ => exact hother rfl rfl fun _ h => by cases h

/-! ## Driving -/

/-- A task comes to its jobs. -/
theorem unfolds_runTask (task : Task) (s : Engine π κ) : Unfolds task.jobs s (runTask task s) := by
  cases task with
  | deliver channel listeners value =>
    exact unfolds_forM (fun _ _ => rfl) fun listener _ s' _ => unfolds_deliver listener value s'
  | emit slot value => exact unfolds_setOutput slot value s

/-- A batch comes to one job, which leads to those of each task in turn. -/
theorem unfolds_runBatch (tasks : List Task) (s : Engine π κ) :
    Unfolds [.batch tasks] s (runBatch tasks s) := by
  induction tasks generalizing s with
  | nil => exact .after rfl (.refl s) (unfolds_pure () s)
  | cons task rest ih =>
    have htask := unfolds_runTask task s
    have hcomes : ∀ todo, Comes ⟨s, .batch (task :: rest) :: todo, none⟩
        ⟨s, task.jobs ++ (.batch rest :: todo), none⟩ := fun todo => by
      have hstart : (Job.batch (task :: rest)).start s = .ok (task.jobs ++ [.batch rest]) s := rfl
      have hnext : next? ⟨s, .batch (task :: rest) :: todo, none⟩ = _ := next?_of_ok hstart
      rw [List.append_assoc] at hnext
      exact .single hnext
    unfold runBatch
    cases h : runTask task s with
    | ok a s' =>
      rw [h] at htask
      exact (ih s').of_comes htask.1 fun todo => (hcomes todo).trans (htask.2 (.batch rest :: todo))
    -- Giving up the rest of the batch puts it back into the queue.
    | error stop s' =>
      rw [h] at htask
      refine ⟨⟨htask.1.config, htask.1.active⟩, fun todo => ?_⟩
      exact (hcomes todo).trans (htask.2 (.batch rest :: todo))

/-- A tick comes to its job. -/
theorem unfolds_tick (s : Engine π κ) : Unfolds [.tick] s (tick s) := by
  rw [tick_eq]
  exact .after rfl ⟨rfl, rfl⟩ ((unfolds_runBatch _ _).map fun _ => _)

/-- A drive and the time that passes at its end. -/
def driveThrough (horizon : Horizon) (budget : Nat) : Act π κ Nat := do
  let left ← drive horizon budget
  modify fun s => { s with clock := horizon.finish s.clock }
  return left

/-- A drive and the time after it come to one job, which ticks and drives on. -/
theorem unfolds_driveThrough (horizon : Horizon) (budget : Nat) (s : Engine π κ) :
    Unfolds [.drive horizon budget] s (driveThrough horizon budget s) := by
  induction budget generalizing s with
  | zero =>
    rcases makeRunnable_cases horizon s with ⟨s₁, h⟩ | h
    · have hstart : (Job.drive horizon 0).start s = _ := bind_of_ok h
      rw [driveThrough, bind_of_error (drive_zero_of_runnable h)]
      exact ⟨steady_makeRunnable h, fun _ => .single (next?_of_error hstart)⟩
    · have hstart : (Job.drive horizon 0).start s = _ := bind_of_ok h
      rw [driveThrough, bind_of_ok (drive_of_idle h)]
      exact .after hstart ⟨rfl, rfl⟩ (unfolds_pure _ _)
  | succ budget ih =>
    rcases makeRunnable_cases horizon s with ⟨s₁, h⟩ | h
    · have hstart : (Job.drive horizon (budget + 1)).start s = _ := bind_of_ok h
      -- The time passes after the last tick, so it can be left to the drive that goes on.
      have heq : driveThrough horizon (budget + 1) s =
          (tick >>= fun _ => driveThrough horizon budget : Act π κ Nat) s₁ := by
        rw [driveThrough, bind_of_eq (drive_succ_of_runnable h), bind_assoc]
        rfl
      rw [heq]
      exact .after hstart (steady_makeRunnable h)
        ((unfolds_tick s₁).bind (fun _ => rfl) fun _ s' _ => ih s')
    · have hstart : (Job.drive horizon (budget + 1)).start s = _ := bind_of_ok h
      rw [driveThrough, bind_of_ok (drive_of_idle h)]
      exact .after hstart ⟨rfl, rfl⟩ (unfolds_pure _ _)

/-! ## Acts from beginning to end -/

/-- The moment in which an act has ended. -/
def ended {α : Type} (act : Act π κ α) (s : Engine π κ) : Moment π κ :=
  match act s with
  | .ok _ s' => ⟨s', [], none⟩
  | .error stop s' => ⟨s', [], some stop⟩

omit [Process π] [Condition κ] in
/-- What is made of an answer does not change how an act ends. -/
theorem ended_map (act : Act π κ α) (f : α → β) (s : Engine π κ) :
    ended (act >>= fun a => pure (f a)) s = ended act s := by
  unfold ended
  cases h : act s with
  | ok a s' =>
    rw [bind_of_ok h]
    rfl
  | error stop s' => rw [bind_of_error h]

omit [Process π] [Condition κ] in
/-- Nothing is left to do when an act has ended. -/
@[simp] theorem ended_todo (act : Act π κ α) (s : Engine π κ) : (ended act s).todo = [] := by
  unfold ended
  split <;> rfl

/-- An act ends in the moment that its jobs come to. -/
theorem Unfolds.comes {act : Act π κ α} (h : Unfolds jobs s (act s)) :
    Comes ⟨s, jobs, none⟩ (ended act s) := by
  unfold ended
  cases hact : act s with
  | ok a s' =>
    rw [hact] at h
    have hcomes := h.2 []
    rwa [List.append_nil] at hcomes
  | error stop s' =>
    rw [hact] at h
    have hcomes := h.2 []
    rwa [List.append_nil] at hcomes

/-- A drive with the whole budget. -/
def driving (horizon : Horizon) (s : Engine π κ) : Moment π κ :=
  ⟨s, [.drive horizon s.config.maxTicks], none⟩

/-- A drive for a span of time, if its end is representable. -/
def advancing (span : Nat) (s : Engine π κ) : Moment π κ :=
  match Duration.add? s.clock.now span with
  | none => ⟨s, [], some .timeOverflow⟩
  | some target => driving (.upTo target) s

omit [Process π] [Condition κ] in
/-- Nothing has happened yet when time is to pass. -/
@[simp] theorem engine_advancing (span : Nat) (s : Engine π κ) : (advancing span s).engine = s := by
  unfold advancing
  split <;> rfl

/-- A drive whose horizon does not let time pass at the end. -/
theorem comes_driveAll {horizon : Horizon} (hfinish : ∀ clock, horizon.finish clock = clock)
    (s : Engine π κ) : Comes (driving horizon s) (ended (driveAll horizon) s) := by
  have hended : ended (driveAll horizon) s = ended (driveThrough horizon s.config.maxTicks) s := by
    have hthrough : driveThrough horizon s.config.maxTicks s =
        (drive horizon s.config.maxTicks >>= fun left => pure left : Act π κ Nat) s := by
      unfold driveThrough
      cases h : drive horizon s.config.maxTicks s with
      | ok left s' =>
        rw [bind_of_ok h, bind_of_ok h]
        show EStateM.Result.ok left { s' with clock := horizon.finish s'.clock } = .ok left s'
        rw [hfinish]
      | error stop s' => rw [bind_of_error h, bind_of_error h]
    unfold ended
    rw [driveAll_eq, hthrough]
    exact (ended_map _ _ s).trans (ended_map _ (fun left => left) s).symm
  rw [hended]
  exact (unfolds_driveThrough horizon s.config.maxTicks s).comes

/-- To let time pass comes to a drive, or fails before it if the time is not representable. -/
theorem comes_advanceBy (span : Nat) (s : Engine π κ) :
    Comes (advancing span s) (ended (advanceBy span) s) := by
  unfold advancing ended
  rw [advanceBy_eq]
  cases Duration.add? s.clock.now span with
  | none => exact .refl
  | some target =>
    have hcomes := (unfolds_driveThrough (.upTo target) s.config.maxTicks s).comes
    unfold ended driveThrough at hcomes
    dsimp only
    cases h : drive (.upTo target) s.config.maxTicks s with
    | ok left s' =>
      rw [bind_of_ok h] at hcomes ⊢
      exact hcomes
    | error stop s' =>
      rw [bind_of_error h] at hcomes ⊢
      exact hcomes

end Moment

/-! ## Operations and histories -/

namespace Graph

variable {π κ : Type} [Process π] [Condition κ]

/-- The moment in which an operation begins. Operations that lead to no delivery have then ended. -/
def begin (root : SlotId) (op : Operation) (s : Engine π κ) : Moment π κ :=
  match op with
  | .push value => ⟨s, [.enter root value], none⟩
  | .tick => ⟨s, [.tick], none⟩
  | .runUntilIdle => driving .now s
  | .advanceBy span => advancing span s
  | .settle => driving .unbounded s
  | .tap slot => ended (tap slot) s
  | .takeOutputs => ended Engine.takeOutputs s
  | .takeRendered => ended Engine.takeRendered s

/-- The moment in which a wired graph begins to send out its constants. -/
def activation (config : Config) (wired : Plan.Wired π κ) : Moment π κ :=
  ⟨engineOf config wired, wired.constants.map .kindle, none⟩

/-- An operation ends in the moment that its jobs come to. -/
theorem comes_act (g : Graph π κ) (op : Operation) (s : Engine π κ) :
    Comes (begin g.root op s) (ended (g.act op) s) := by
  cases op with
  | push value =>
    rw [act, ended_map]
    exact (unfolds_setInput _ g.root value s rfl).comes
  | tick =>
    rw [act, ended_map]
    exact (unfolds_tick s).comes
  | runUntilIdle =>
    rw [act, ended_map]
    exact comes_driveAll (fun _ => rfl) s
  | advanceBy span =>
    rw [act, ended_map]
    exact comes_advanceBy span s
  | settle =>
    have hsettle : ended (act g .settle) s = ended (Engine.driveAll .unbounded) s := by
      rw [act, ended_map]
      exact ended_map _ (fun _ => ()) s
    rw [hsettle]
    exact comes_driveAll (fun _ => rfl) s
  | tap slot =>
    rw [act, ended_map]
    exact .refl
  | takeOutputs => exact .refl
  | takeRendered => exact .refl

/-- A constant that is sent out comes to its job. -/
theorem unfolds_sendConstant (slot : SlotId) (s : Engine π κ) :
    Unfolds [.kindle slot] s (sendConstant slot s) := by
  have hstart : (Job.kindle slot).start s = Job.startKindle slot s := rfl
  rw [Job.startKindle, Engine.node?_bind] at hstart
  rw [sendConstant, Engine.node?_bind]
  cases hget : s.arena.get? slot with
  | none =>
    rw [hget] at hstart
    exact .of_start trivial hstart (unfolds_pure _ s)
  | some node =>
    rw [hget] at hstart
    obtain ⟨kind, input?, state?, outputs⟩ := node
    cases kind with
    | constant value => exact .of_start trivial hstart (unfolds_setOutput slot value s)
    | _ => exact .of_start trivial hstart (unfolds_pure _ s)

/-- The activation of a graph ends in the moment that its jobs come to. -/
theorem comes_activate (config : Config) (wired : Plan.Wired π κ) :
    Comes (activation config wired) (ended (activate wired.constants) (engineOf config wired)) :=
  (unfolds_forM (fun _ _ => rfl) fun slot _ s _ => unfolds_sendConstant slot s).comes

end Graph

namespace Story

variable {π κ ω : Type} [Process π] [Condition κ] {begin : ω → Engine π κ → Moment π κ}
  {start : Moment π κ} {ops : List ω} {ds : List Deed} {m m' : Moment π κ}

/-- A story goes on with whatever comes. -/
theorem comes (h : Story begin start ops ds m) (hcomes : Comes m m') :
    ∃ ds', Story begin start ops (ds ++ ds') m' := by
  induction hcomes with
  | refl => exact ⟨[], by rwa [List.append_nil]⟩
  | @tail m₁ m₂ _ hnext ih =>
    obtain ⟨ds', hstory⟩ := ih
    exact ⟨ds' ++ m₁.deeds, by rw [← List.append_assoc]; exact hstory.next hnext⟩

end Story

namespace Graph

variable {π κ : Type} [Process π] [Condition κ] {start : Moment π κ}

/-- Every history is told by a story, and whenever an operation of it fails, so does a moment of a
story. -/
theorem story_operateAll (g : Graph π κ) (ops : List Operation) {before : List Operation}
    {ds : List Deed} {m : Moment π κ} (h : Story (begin g.root) start before ds m) (hrest : m.todo = [])
    (hengine : m.engine = g.engine) :
    (∃ ds' m', Story (begin g.root) start (before ++ ops) ds' m' ∧ m'.todo = [] ∧
        m'.engine = (g.operateAll ops).2.engine) ∧
      ∀ stop, .error stop ∈ (g.operateAll ops).1 →
        ∃ ops' ds' m', Story (begin g.root) start ops' ds' m' ∧ m'.stop? = some stop := by
  induction ops generalizing g before ds m with
  | nil => exact ⟨⟨ds, m, by rwa [List.append_nil], hrest, hengine⟩, fun _ hstop => by cases hstop⟩
  | cons op ops ih =>
    have hbegun := h.begin op hrest
    rw [hengine] at hbegun
    obtain ⟨ds', hstory⟩ := hbegun.comes (comes_act g op g.engine)
    have hroot := operate_root g op
    have hended : (ended (g.act op) g.engine).engine = (g.operate op).2.engine ∧
        ∀ stop, (g.operate op).1 = .error stop → (ended (g.act op) g.engine).stop? = some stop := by
      unfold operate perform ended
      cases g.act op g.engine with
      | ok answer s => exact ⟨rfl, fun stop hstop => by cases hstop⟩
      | error stop s => exact ⟨rfl, fun stop hstop => by cases hstop; rfl⟩
    obtain ⟨⟨ds'', m', hstory', hrest', hengine'⟩, hstops⟩ :=
      ih (g.operate op).2 (hroot ▸ hstory) (ended_todo _ _) hended.1
    rw [hroot] at hstory' hstops
    refine ⟨⟨ds'', m', by rwa [List.append_assoc] at hstory', hrest', hengine'⟩, fun stop hstop => ?_⟩
    rcases List.mem_cons.1 hstop with hstop | hstop
    · exact ⟨_, _, _, hstory, hended.2 stop hstop.symm⟩
    · exact hstops stop hstop

section Built

variable {registry : Registry π κ} {config : Config} {spec : SpecNode} {root : SlotId} {scope : Scope}
  {wired : Plan.Wired π κ} (hassemble : assemble registry spec = .ok (root, scope, wired))

include hassemble

/-- The activation of a graph that is built, and every history of it, are told by a story. -/
theorem story_of_build {g : Graph π κ} (hbuild : build registry config spec = .ok g)
    (ops : List Operation) :
    (∃ ds m, Story (begin root) (activation config wired) ops ds m ∧ m.todo = [] ∧
        m.engine = (g.operateAll ops).2.engine) ∧
      ∀ stop, .error stop ∈ (g.operateAll ops).1 →
        ∃ ops' ds m, Story (begin root) (activation config wired) ops' ds m ∧ m.stop? = some stop := by
  have hstart : Story (begin root) (activation config wired) [] [] (activation config wired) := .start
  obtain ⟨ds, hstory⟩ := hstart.comes (comes_activate config wired)
  unfold build at hbuild
  unfold ended at hstory
  rw [hassemble] at hbuild
  dsimp only at hbuild
  cases hact : activate wired.constants (engineOf config wired) with
  | error stop s =>
    rw [hact] at hbuild
    cases stop <;> cases hbuild
  | ok a s =>
    rw [hact] at hbuild hstory
    cases hbuild
    exact story_operateAll ⟨root, scope, s⟩ ops hstory rfl rfl

/-- When a build fails in the activation, so does a moment of a story. -/
theorem story_of_build_error {e : RunError} {log : Array Event}
    (hbuild : build registry config spec = .error (.failed ⟨.run e, log⟩)) :
    ∃ ds m, Story (begin root) (activation config wired) [] ds m ∧ m.stop? = some (.failed e) := by
  have hstart : Story (begin root) (activation config wired) [] [] (activation config wired) := .start
  obtain ⟨ds, hstory⟩ := hstart.comes (comes_activate config wired)
  unfold build at hbuild
  unfold ended at hstory
  rw [hassemble] at hbuild
  dsimp only at hbuild
  cases hact : activate wired.constants (engineOf config wired) with
  | error stop s =>
    rw [hact] at hbuild hstory
    cases stop <;> cases hbuild
    exact ⟨_, _, hstory, rfl⟩
  | ok a s =>
    rw [hact] at hbuild
    cases hbuild

end Built

end Graph

end Dataflow
