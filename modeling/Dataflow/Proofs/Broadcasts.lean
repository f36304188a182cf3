import Dataflow.Proofs.Ledger

/-!
# Broadcasts

An event loop can be used in more ways than a graph: nodes, channels and listeners are added at any
time, and values are delivered anywhere. Still every send queues one task with the listeners of that
moment, which a later tick hands to these listeners in order, and all tasks are run in the order in
which they were queued.
-/

namespace Dataflow

open Moment

/-! ## Uses of an event loop -/

/-- A use of an event loop. -/
inductive LoopOperation (π κ : Type) where
  | alloc (kind : NodeKind π κ) (outputs : List Listener)
  | setKind (slot : SlotId) (kind : NodeKind π κ)
  | addListener (slot : SlotId) (listener : Listener)
  | release (slot : SlotId)
  | createChannel (key : String)
  | listen (channel : ChannelId) (listeners : List Listener)
  | schedule (delay : Nat) (task : Task)
  | setInput (slot : SlotId) (value : Value)
  | setOutput (slot : SlotId) (value : Value)
  | setState (slot : SlotId) (value : Value)
  | deliver (listener : Listener) (value : Value)
  | send (channel : ChannelId) (value : Value)
  | runConditional (slot : SlotId) (input : Value)
  | evaluateCondition (slot : SlotId) (input : Value)
  | tick
  | runUntilIdle
  | advanceBy (span : Nat)
  | settle
  | takeOutputs
  | takeRendered

namespace LoopOperation

variable {π κ : Type}

/-- Lets a task wait on the clock. -/
def wait (delay : Nat) (task : Task) : Act π κ Unit := fun s =>
  match s.clock.schedule? delay task with
  | some clock => .ok () { s with clock }
  | none => .error .timeOverflow s

variable [Process π] [Condition κ]

/-- The act of an operation. -/
def act : LoopOperation π κ → Act π κ Unit
  | .alloc kind outputs => discard (Engine.alloc kind outputs)
  | .setKind slot kind => Engine.setKind slot kind
  | .addListener slot listener => discard (Engine.addListener slot listener)
  | .release slot => modify fun s => { s with arena := s.arena.release slot }
  | .createChannel key => modify fun s => { s with channels := s.channels.create key }
  | .listen channel listeners =>
    modify fun s => { s with channels := s.channels.listen channel listeners }
  | .schedule delay task => wait delay task
  | .setInput slot value => Engine.setInput slot value
  | .setOutput slot value => Engine.setOutput slot value
  | .setState slot value => Engine.setState slot value
  | .deliver listener value => Engine.deliver listener value
  | .send channel value => Engine.send channel value
  | .runConditional slot input => discard (Engine.runConditional slot input)
  | .evaluateCondition slot input => discard (Engine.evaluateCondition slot input)
  | .tick => discard Engine.tick
  | .runUntilIdle => discard Engine.runUntilIdle
  | .advanceBy span => Engine.advanceBy span
  | .settle => Engine.settle
  | .takeOutputs => discard Engine.takeOutputs
  | .takeRendered => discard Engine.takeRendered

/-- The moment in which an operation begins. Operations that lead to no delivery have then ended. -/
def begin (op : LoopOperation π κ) (s : Engine π κ) : Moment π κ :=
  match op with
  | .setInput slot value => ⟨s, [.enter slot value], none⟩
  | .setOutput slot value => ⟨s, [.carryOut slot (.emit value)], none⟩
  | .deliver listener value => ⟨s, [.hand listener value], none⟩
  | .send channel value => ⟨s, [.deliver 0 (.broadcast channel) value], none⟩
  | .runConditional slot input => ⟨s, [.route slot input], none⟩
  | .tick => ⟨s, [.tick], none⟩
  | .runUntilIdle => driving .now s
  | .advanceBy span => advancing span s
  | .settle => driving .unbounded s
  | op => ended op.act s

/-- The engine after operations, one after the other, whether they fail or not. -/
def performAll (s : Engine π κ) (ops : List (LoopOperation π κ)) : Engine π κ :=
  ops.foldl (fun s op => (ended op.act s).engine) s

omit [Process π] [Condition κ] in
/-- It makes no difference to what has ended whether the answer is needed. -/
theorem ended_discard {α : Type} (act : Act π κ α) (s : Engine π κ) :
    ended (discard act) s = ended act s := ended_map act (fun _ => ()) s

/-- Each operation of a loop is what its jobs come to. -/
theorem comes_act (op : LoopOperation π κ) (s : Engine π κ) : Comes (op.begin s) (ended op.act s) := by
  cases op with
  | setInput slot value => exact (unfolds_setInput _ slot value s rfl).comes
  | setOutput slot value => exact (unfolds_setOutput slot value s).comes
  | deliver listener value => exact (unfolds_deliver listener value s).comes
  | send channel value =>
    -- A broadcast is never handed on to an output, so it is the same delivery however outputs are
    -- relayed.
    have hother : ∀ slot, Listener.broadcast channel ≠ .output slot := fun _ h => by cases h
    exact (unfolds_handed hother value s fun _ _ => pure ()).comes
  | runConditional slot input =>
    rw [act, ended_discard]
    exact (unfolds_routeBy (unfolds_setInput _) rfl slot input).comes
  | tick =>
    rw [act, ended_discard]
    exact (unfolds_tick s).comes
  | runUntilIdle =>
    rw [act, ended_discard]
    exact comes_driveAll (fun _ => rfl) s
  | advanceBy span => exact comes_advanceBy span s
  | settle =>
    rw [act, Engine.settle, ended_discard]
    exact comes_driveAll (fun _ => rfl) s
  -- The operations left over are over as they begin: they change the engine and call nothing.
  | _ => exact .refl

/-- A use of an event loop is told by a story. -/
theorem story_performAll {start : Moment π κ} {before : List (LoopOperation π κ)} {ds : List Deed}
    {m : Moment π κ} (h : Story begin start before ds m) (hrest : m.todo = [])
    (ops : List (LoopOperation π κ)) :
    ∃ ds' m', Story begin start (before ++ ops) ds' m' ∧ m'.todo = [] ∧
      m'.engine = performAll m.engine ops := by
  induction ops generalizing before ds m with
  | nil => exact ⟨ds, m, by rwa [List.append_nil], hrest, rfl⟩
  | cons op ops ih =>
    obtain ⟨ds', hstory⟩ := (h.begin op hrest).comes (comes_act op m.engine)
    obtain ⟨ds'', m', hstory', hrest', hengine⟩ := ih hstory (ended_todo _ _)
    exact ⟨ds'', m', by rwa [List.append_assoc] at hstory', hrest', hengine⟩

/-! ## Operations and the queue -/

omit [Process π] [Condition κ] in
/-- Acts that end at once and leave the queue as it is. -/
theorem queue_ended {α : Type} {act : Act π κ α} {s : Engine π κ}
    (h : Engine.Calm s (act s)) : (ended act s).engine.queue = s.queue := by
  unfold ended
  cases hact : act s with
  | ok a s' =>
    rw [hact] at h
    exact Engine.Still.queue h
  | error stop s' =>
    rw [hact] at h
    exact h.1.queue

/-- However an operation begins, it has queued nothing yet, and its jobs are drives and calls in their
order. -/
theorem queuesNothing_begin : QueuesNothing (begin : LoopOperation π κ → Engine π κ → Moment π κ) where
  shaped op s := by
    cases op with
    | advanceBy span => exact .of_drives (drives_advancing span s)
    | _ => first
      | exact List.pairwise_singleton _ _
      | exact (ended_todo _ s).symm ▸ .nil
  tasks op s := by
    cases op with
    | advanceBy span => exact Shaped.tasks_of_drives (drives_advancing span s)
    | _ => first
      | rfl
      | exact (ended_todo _ s).symm ▸ rfl
  queue op s := by
    cases op with
    | setKind slot kind =>
      show (ended (Engine.setKind slot kind) s).engine.queue = s.queue
      rw [ended, Engine.setKind, Engine.node?_bind]
      cases s.arena.get? slot <;> rfl
    | addListener slot listener =>
      show (ended (discard (Engine.addListener slot listener)) s).engine.queue = s.queue
      rw [ended_discard, ended, Graph.addListener_eq]
      cases s.arena.get? slot <;> rfl
    | schedule delay task =>
      show (ended (wait delay task) s).engine.queue = s.queue
      rw [ended, wait]
      cases s.clock.schedule? delay task <;> rfl
    | setState slot value => exact queue_ended (Engine.calm_setState value)
    | evaluateCondition slot input =>
      show (ended (discard (Engine.evaluateCondition slot input)) s).engine.queue = s.queue
      rw [ended_discard]
      exact queue_ended (Engine.calm_evaluateCondition input)
    | advanceBy span => exact congrArg Engine.queue (engine_advancing span s)
    | _ => rfl

end LoopOperation

/-! ## Running a task -/

section

variable {π κ : Type} [Process π] [Condition κ]

/-- A task hands its value to its listeners in order, up to the first delivery that fails. -/
theorem runTask_deliver (id : ChannelId) (listeners : List Listener) (value : Value) (s : Engine π κ) :
    ∃ done left s', listeners = done ++ left ∧
      done.forM (fun listener => Engine.deliver listener value) s = .ok () s' ∧
      match left with
      | [] => Engine.runTask (.deliver id listeners value) s = .ok () s'
      | listener :: _ => ∃ stop s'', Engine.deliver listener value s' = .error stop s'' ∧
        Engine.runTask (.deliver id listeners value) s = .error stop s'' := by
  induction listeners generalizing s with
  | nil => exact ⟨[], [], s, rfl, rfl, rfl⟩
  | cons listener rest ih =>
    have hrun : Engine.runTask (.deliver id (listener :: rest) value) s =
        (Engine.deliver listener value >>= fun _ => Engine.runTask (.deliver id rest value)) s := rfl
    cases h : Engine.deliver listener value s with
    -- The first failure is the end of the list: what is left begins with the listener that failed.
    | error stop s'' =>
      refine ⟨[], listener :: rest, s, rfl, rfl, stop, s'', h, ?_⟩
      rw [hrun, Engine.bind_of_error h]
    | ok _ s₁ =>
      obtain ⟨done, left, s', rfl, hdone, hleft⟩ := ih s₁
      rw [hrun, Engine.bind_of_ok h]
      exact ⟨listener :: done, left, s', rfl, (Engine.bind_of_ok h).trans hdone, hleft⟩

/-- When a broadcast is the next task of a tick, what comes is that its value is delivered to its
listeners in order: to all of them, and then the tick goes on, or up to the first delivery that
fails, and then what is left of the tick is put back. -/
theorem comes_broadcast {m : Moment π κ} {id : ChannelId} {listeners : List Listener} {value : Value}
    {tasks : List Task} {rest : List Job}
    (htodo : m.todo = .batch (.deliver id listeners value :: tasks) :: rest) :
    ∃ done left s', listeners = done ++ left ∧
      done.forM (fun listener => Engine.deliver listener value) m.engine = .ok () s' ∧
      match left with
      | [] => Comes m ⟨s', .batch tasks :: rest, none⟩
      | listener :: _ => ∃ stop s'', Engine.deliver listener value s' = .error stop s'' ∧
        Comes m ⟨unwind (.batch tasks :: rest) s'', [], some stop⟩ := by
  obtain ⟨s, todo, stop?⟩ := m
  obtain rfl : todo = _ := htodo
  obtain ⟨done, left, s', hlisteners, hdone, hleft⟩ := runTask_deliver id listeners value s
  refine ⟨done, left, s', hlisteners, hdone, ?_⟩
  have htask := unfolds_runTask (.deliver id listeners value) s
  have hnext : (⟨s, .batch (.deliver id listeners value :: tasks) :: rest, stop?⟩ : Moment π κ).next? =
      some ⟨s, (Task.deliver id listeners value).jobs ++ (.batch tasks :: rest), none⟩ := by
    have hstart : (Job.batch (.deliver id listeners value :: tasks)).start s =
        .ok ((Task.deliver id listeners value).jobs ++ [.batch tasks]) s := rfl
    rw [next?_of_ok hstart, List.append_assoc]
    rfl
  cases left with
  | nil =>
    have hrun : Engine.runTask (.deliver id listeners value) s = .ok () s' := hleft
    rw [hrun] at htask
    exact .head hnext (htask.2 _)
  | cons listener left =>
    obtain ⟨stop, s'', hfails, hrun⟩ := hleft
    rw [hrun] at htask
    exact ⟨stop, s'', hfails, .head hnext (htask.2 _)⟩

end

/-! ## Broadcasts -/

section

variable {π κ : Type} [Process π] [Condition κ]

/-- A send into a channel queues one task, with the listeners of that moment. -/
theorem Moment.next?_send {m : Moment π κ} {hops : Nat} {id : ChannelId} {channel : Channel}
    {value : Value} {rest : List Job} (htodo : m.todo = .deliver hops (.broadcast id) value :: rest)
    (hget : m.engine.channels.get? id = some channel) :
    m.deeds = [.sent (.deliver id channel.listeners value)] ∧
      ∃ s', m.next? = some ⟨s', rest, none⟩ ∧
        s'.queue = m.engine.queue.push (.deliver id channel.listeners value) := by
  refine ⟨(deeds_of_cons htodo).trans (Job.deeds_broadcast hget), ?_⟩
  obtain ⟨s, todo, stop?⟩ := m
  obtain rfl : todo = _ := htodo
  have hstart : (Job.deliver hops (.broadcast id) value).start s = .ok [] _ :=
    Engine.bind_of_ok (f := fun _ => pure []) (Engine.send_eq id value s)
  refine ⟨_, next?_of_ok hstart, ?_⟩
  rw [hget]
  show ((s.traced _).queue.push _) = _
  rw [(Engine.Still.traced _ s).queue]

/-- What is known of broadcasts at a moment, after the deeds done since the first engine. -/
structure Broadcasting (s₀ : Engine π κ) (ds : List Deed) (m : Moment π κ) : Prop where
  /-- The tasks that were run, followed by those that still wait, are those that were in the queue
  at the start, followed by those queued since: none is lost, run twice or overtaken. -/
  ledger : ds.flatMap Deed.executed ++ m.waiting = s₀.queue.toList ++ ds.flatMap Deed.queued
  /-- What was queued since the last tick began is still in the queue. -/
  waits : ∀ before after, ds = before ++ after → (∀ deed ∈ after, ¬deed.IsTick) →
    after.flatMap Deed.queued <:+ m.engine.queue.toList
  /-- A tick begins when no input and no other tick is in progress. -/
  apart : ∀ rest, m.todo = .tick :: rest → ∀ job ∈ rest, job.IsDrive
  /-- A send into a channel queues one task, for the listeners that the channel then has. -/
  sends : ∀ hops id value rest channel, m.todo = .deliver hops (.broadcast id) value :: rest →
    m.engine.channels.get? id = some channel →
    m.deeds = [.sent (.deliver id channel.listeners value)] ∧
      ∃ s', m.next? = some ⟨s', rest, none⟩ ∧
        s'.queue = m.engine.queue.push (.deliver id channel.listeners value)
  /-- When the task is run, the value is delivered to these listeners in order, each one once, up to
  the first delivery that fails. -/
  delivers : ∀ id listeners value tasks rest,
    m.todo = .batch (.deliver id listeners value :: tasks) :: rest →
    ∃ done left s', listeners = done ++ left ∧
      done.forM (fun listener => Engine.deliver listener value) m.engine = .ok () s' ∧
      match left with
      | [] => Comes m ⟨s', .batch tasks :: rest, none⟩
      | listener :: _ => ∃ stop s'', Engine.deliver listener value s' = .error stop s'' ∧
        Comes m ⟨unwind (.batch tasks :: rest) s'', [], some stop⟩

/-- **Broadcasts are delivered once, in order, later, to the listeners of the time of sending**,
however an event loop is used and whatever fails on the way. The moments are those of the event
loop: each use of it is told by a story. -/
theorem broadcasts_deferred (s₀ : Engine π κ) :
    (∀ ops ds m, Story LoopOperation.begin ⟨s₀, [], none⟩ ops ds m → Broadcasting s₀ ds m) ∧
      ∀ ops, ∃ ds m, Story LoopOperation.begin ⟨s₀, [], none⟩ ops ds m ∧ m.todo = [] ∧
        m.engine = LoopOperation.performAll s₀ ops := by
  have hbegin : QueuesNothing (LoopOperation.begin : LoopOperation π κ → Engine π κ → Moment π κ) :=
    LoopOperation.queuesNothing_begin
  refine ⟨fun ops ds m h => ?_, fun ops => LoopOperation.story_performAll .start rfl ops⟩
  have hstart : Shaped (⟨s₀, [], none⟩ : Moment π κ).todo := .nil
  have hshaped := h.shaped hbegin hstart
  exact ⟨h.ledger hbegin hstart, fun before after => h.queued_since_tick hbegin hstart,
    fun rest htodo => (htodo ▸ hshaped).drives fun h => h, fun _ _ _ _ _ => next?_send,
    fun _ _ _ _ _ => comes_broadcast⟩

end

end Dataflow
