import Dataflow.Proofs.Driving

/-!
# What an engine has still to do

An act says what it comes to, not what the engine is like on the way. Here its course is told: at
every moment there is a list of jobs still to be done, the next one first. Beginning a job makes one
change to the engine and leads to the jobs that are to be done before the others; when a job fails,
those behind it are given up. The jobs of one moment are the stack of calls of that moment, with
what each call has still to do.

`Job.start` is what happens when a job begins, and `begins_of_start` and `fails_of_start` list it
once and for all: every invariant of moments is proved by going through `Begins` and `Fails`. That
acts come to what their jobs come to is the matter of `Dataflow.Proofs.Unfolding`.
-/

namespace Dataflow

/-- Something an engine has still to do. -/
inductive Job where
  /-- Begin to process an input. -/
  | enter (slot : SlotId) (value : Value)
  /-- Store an input and run the node. -/
  | handle (slot : SlotId) (value : Value)
  /-- End the innermost input. -/
  | leave
  /-- Choose the branch of a conditional. -/
  | route (slot : SlotId) (input : Value)
  /-- Deliver to the listeners of a node, passing outputs on at most so many times. -/
  | relay (hops : Nat) (slot : SlotId) (value : Value)
  | deliver (hops : Nat) (listener : Listener) (value : Value)
  /-- Deliver outside of any output. -/
  | hand (listener : Listener) (value : Value)
  | carryOut (slot : SlotId) (effect : Effect)
  /-- Send out a constant. -/
  | kindle (slot : SlotId)
  /-- Run the tasks of a tick. -/
  | batch (tasks : List Task)
  | tick
  | drive (horizon : Engine.Horizon) (budget : Nat)

/-- The jobs of running a task. -/
def Task.jobs : Task → List Job
  | .deliver _ listeners value => listeners.map (.hand · value)
  | .emit slot value => [.carryOut slot (.emit value)]

/-- The time at the end of a drive that nothing stops. -/
def Engine.Horizon.finish : Engine.Horizon → Clock Task → Clock Task
  | .upTo time, clock => clock.advanceTo time
  | _, clock => clock

namespace Job

open Engine

/-- The tasks of a tick that a job has still to run. -/
def tasks : Job → List Task
  | .batch tasks => tasks
  | _ => []

/-- Whether a job is one of passing values on within an input or a task. -/
def Propagates : Job → Prop
  | .handle .. | .route .. | .relay .. | .deliver .. | .hand .. | .carryOut .. | .kindle _ => True
  | _ => False

variable {π κ : Type}

/-- What becomes of the engine when a job is given up: an input in progress ends, and tasks that
were not run go back to the front of the queue. -/
def giveUp (s : Engine π κ) : Job → Engine π κ
  | .leave => { s with active := s.active.tail }
  | .batch tasks => { s with queue := tasks.toArray ++ s.queue }
  | _ => s

/-! ### How jobs begin -/

/-- Begins to process an input, if it is not too deep. -/
def startEnter (slot : SlotId) (value : Value) : Act π κ (List Job) := fun s =>
  if s.allowance = 0 then fail (.depthExceeded s.config.maxDepth) s
  else .ok [.handle slot value, .leave] { s with active := slot :: s.active }

/-- Reports an output. -/
def startRelay : Nat → SlotId → Value → Act π κ (List Job)
  | 0, _, _ => throw .endless
  | hops + 1, slot, value => do
    match ← node? slot with
    | some node =>
      trace (.output slot node.kind.name value)
      return node.outputs.map (.deliver hops · value)
    | none =>
      warn (.outputDropped slot)
      return []

/-- Delivers a value that goes no further, or leads to where it goes. -/
def startDeliver (hops : Nat) (value : Value) : Listener → Act π κ (List Job)
  | .input slot => return [.enter slot value]
  | .output slot => return [.relay hops slot value]
  | .state slot => do
    setState slot value
    return []
  | .broadcast channel => do
    send channel value
    return []
  | .sink => do
    sink value
    return []

/-- Lets a value be delivered, an output as if its node had emitted the value. -/
def startHand (value : Value) : Listener → Act π κ (List Job)
  | .output slot => return [.carryOut slot (.emit value)]
  | listener => return [.deliver 0 listener value]

/-- Does what a process asked for, but for passing a value on. -/
def startCarryOut (slot : SlotId) : Effect → Act π κ (List Job)
  | .emit value => do return [.relay (relayLimit (← get)) slot value]
  | .emitAfter delay value => fun s =>
    match s.clock.schedule? delay (.emit slot value) with
    | some clock => .ok [] { s with clock }
    | none => .error .timeOverflow s
  | .render value => do
    trace (.render slot value)
    modify fun s => { s with rendered := s.rendered.push value }
    return []

/-- Lets a constant emit its value. -/
def startKindle (slot : SlotId) : Act π κ (List Job) := do
  match ← node? slot with
  | some { kind := .constant value, .. } => return [.carryOut slot (.emit value)]
  | _ => return []

/-- Takes the batch of a tick. -/
def startTick : Act π κ (List Job) := do
  moveDue
  let batch ← modifyGet fun s => (s.queue.toList, { s with queue := #[] })
  return [.batch batch]

/-- Ticks if anything within the horizon is runnable, or else lets the time pass. -/
def startDrive (horizon : Horizon) (budget : Nat) : Act π κ (List Job) := do
  if ← makeRunnable horizon then
    match budget with
    | 0 => fail (.tickBudgetExhausted (← get).config.maxTicks)
    | budget + 1 => return [.tick, .drive horizon budget]
  else
    modify fun s => { s with clock := horizon.finish s.clock }
    return []

variable [Condition κ]

/-- Asks the conditions of a conditional. -/
def startRoute (slot : SlotId) (input : Value) : Act π κ (List Job) := do
  match ← node? slot with
  | some { kind := .conditional conditions positive negative?, .. } =>
    let matched ← allHold input conditions
    trace (.branch slot (conditionalKind negative?).name matched)
    match if matched then some positive else negative? with
    | some branch => return [.enter branch input]
    | none => return []
  | _ => return []

variable [Process π]

/-- Stores an input, and lets a process run or a condition be asked. -/
def startHandle (slot : SlotId) (value : Value) : Act π κ (List Job) := do
  match ← node? slot with
  | some node =>
    trace (.input slot node.kind.name value)
    let node := { node with input? := some value }
    setNode slot node
    match node.kind with
    | .placeholder =>
      warn (.unwired slot)
      return []
    | .composite producers => return producers.map (.enter · value)
    | .conditional .. => return [.route slot value]
    | .constant _ => return []
    | .process kind leaf =>
      let reaction := Process.run leaf value node.state?
      setNode slot (ranNode node kind leaf value)
      reaction.announced.forM fun text => report (.announced text)
      match reaction.outcome with
      | .ok effects => return effects.map (.carryOut slot)
      | .error cause => fail (.leaf kind cause)
    | .condition kind leaf =>
      match Condition.test leaf value node.state? with
      | .ok holds => return [.carryOut slot (.emit (.bool holds))]
      | .error cause => fail (.leaf kind cause)
  | none =>
    warn (.inputDropped slot)
    return []

/-- Begins a job. Returns the jobs that it leads to. -/
def start : Job → Act π κ (List Job)
  | .enter slot value => startEnter slot value
  | .handle slot value => startHandle slot value
  | .leave => fun s => .ok [] { s with active := s.active.tail }
  | .route slot input => startRoute slot input
  | .relay hops slot value => startRelay hops slot value
  | .deliver hops listener value => startDeliver hops value listener
  | .hand listener value => startHand value listener
  | .carryOut slot effect => startCarryOut slot effect
  | .kindle slot => startKindle slot
  | .batch [] => return []
  | .batch (task :: tasks) => return task.jobs ++ [.batch tasks]
  | .tick => startTick
  | .drive horizon budget => startDrive horizon budget

end Job

/-! ## Moments -/

/-- What is worth telling of a job that begins. -/
inductive Deed where
  /-- A value is sent into a channel, which queues a task. -/
  | sent (task : Task)
  /-- A process asks for a value to be emitted later. -/
  | requested (timer : Timer Task)
  /-- A task is run, at the given time. -/
  | ran (task : Task) (time : Nat)
  /-- A tick begins, which queues the tasks of the timers that are due. -/
  | ticked (due : List Task)

/-- The deeds of a job that begins. -/
def Job.deeds {π κ : Type} (s : Engine π κ) : Job → List Deed
  | .deliver _ (.broadcast id) value =>
    (s.channels.get? id).toList.map fun channel => .sent (.deliver id channel.listeners value)
  | .carryOut slot (.emitAfter delay value) =>
    (s.clock.schedule? delay (.emit slot value)).toList.map fun _ =>
      .requested ⟨s.clock.now + delay, s.clock.scheduled, .emit slot value⟩
  | .batch (task :: _) => [.ran task s.clock.now]
  | .tick => [.ticked s.clock.takeDue.1]
  | _ => []

/-- A moment in the course of an engine. -/
structure Moment (π κ : Type) where
  engine : Engine π κ
  /-- The jobs still to be done, the next one first. -/
  todo : List Job
  /-- Why the jobs that were to be done have ended early. -/
  stop? : Option Stop

namespace Moment

variable {π κ : Type}

/-- The tasks that are still to be run, in order: the rest of the tick in progress and the queue. -/
def waiting (m : Moment π κ) : List Task := m.todo.flatMap Job.tasks ++ m.engine.queue.toList

/-- What becomes of the engine when all jobs are given up. -/
def unwind (todo : List Job) (s : Engine π κ) : Engine π κ := todo.foldl Job.giveUp s

/-- The deeds of the next job. -/
def deeds (m : Moment π κ) : List Deed := m.todo.head?.elim [] (Job.deeds m.engine)

variable [Process π] [Condition κ]

/-- The moment after the next job has begun, if there is one. -/
def next? (m : Moment π κ) : Option (Moment π κ) :=
  match m.todo with
  | [] => none
  | job :: rest =>
    match job.start m.engine with
    | .ok jobs s => some ⟨s, jobs ++ rest, none⟩
    | .error stop s => some ⟨unwind rest s, [], some stop⟩

/-- The second moment comes after the first one, or is the same. -/
abbrev Comes : Moment π κ → Moment π κ → Prop := Relation.ReflTransGen fun m m' => m.next? = some m'

end Moment

section

variable {π κ ω : Type} [Process π] [Condition κ]

/-- A story: the moments an engine comes to, with the operations begun and the deeds done since the
start. An operation begins only when nothing is left to do of the one before. -/
inductive Story (begin : ω → Engine π κ → Moment π κ) (start : Moment π κ) :
    List ω → List Deed → Moment π κ → Prop
  | start : Story begin start [] [] start
  | next {ops : List ω} {ds : List Deed} {m m' : Moment π κ} (h : Story begin start ops ds m)
    (hnext : m.next? = some m') : Story begin start ops (ds ++ m.deeds) m'
  | begin {ops : List ω} {ds : List Deed} {m : Moment π κ} (op : ω)
    (h : Story begin start ops ds m) (hrest : m.todo = []) :
    Story begin start (ops ++ [op]) ds (begin op m.engine)

end

/-! ## What a job can do -/

namespace Engine

variable {π κ : Type}

/-- The engines differ in cells and reports at most: nothing is put off, no time passes and no input
begins or ends. -/
structure Still (s s' : Engine π κ) : Prop where
  wiring : SameWiring s s'
  clock : s'.clock = s.clock
  queue : s'.queue = s.queue
  active : s'.active = s.active

namespace Still

variable {s s' s'' : Engine π κ}

theorem refl (s : Engine π κ) : Still s s := ⟨.refl s, rfl, rfl, rfl⟩

theorem trans (h : Still s s') (h' : Still s' s'') : Still s s'' where
  wiring := h.wiring.trans h'.wiring
  clock := h'.clock.trans h.clock
  queue := h'.queue.trans h.queue
  active := h'.active.trans h.active

/-- A node may be replaced by one that is wired alike. -/
theorem set {slot : SlotId} {node node' : Node π κ} (hget : s.arena.get? slot = some node)
    (hwiring : node'.wiring = node.wiring) : Still s { s with arena := s.arena.set slot node' } :=
  ⟨.set hget hwiring, rfl, rfl, rfl⟩

theorem trans_set {slot : SlotId} {node node' : Node π κ} (h : Still s s')
    (hget : s'.arena.get? slot = some node) (hwiring : node'.wiring = node.wiring) :
    Still s { s' with arena := s'.arena.set slot node' } := h.trans (.set hget hwiring)

/-- To note an input changes a cell and nothing else. -/
theorem noted {slot : SlotId} {node : Node π κ} (hget : s.arena.get? slot = some node) (value : Value) :
    Still s { s with arena := s.arena.set slot { node with input? := some value } } := .set hget rfl

theorem report (s : Engine π κ) (log : Array Event) : Still s { s with log } :=
  ⟨⟨rfl, rfl, fun _ => rfl, rfl⟩, rfl, rfl, rfl⟩

/-- To trace a hop adds to the log at most. -/
theorem traced (hop : Hop) (s : Engine π κ) : Still s (s.traced hop) := by
  obtain ⟨log, h⟩ := traced_eq hop s
  rw [h]
  exact .report s log

theorem announcing (texts : List String) (s : Engine π κ) : Still s (s.announcing texts) := .report s _

end Still

end Engine

/-- The jobs that a job of propagation can lead to. -/
inductive Job.Spawns {π κ : Type} (s : Engine π κ) : Job → Job → Prop
  | producer {slot producer : SlotId} {node : Node π κ} {value : Value} {producers : List SlotId}
    (hget : s.arena.get? slot = some node) (hkind : node.kind = .composite producers)
    (hp : producer ∈ producers) : Spawns s (.handle slot value) (.enter producer value)
  | route {slot positive : SlotId} {node : Node π κ} {value : Value} {conditions : List SlotId}
    {negative? : Option SlotId} (hget : s.arena.get? slot = some node)
    (hkind : node.kind = .conditional conditions positive negative?) :
    Spawns s (.handle slot value) (.route slot value)
  | request {slot : SlotId} {node : Node π κ} {value : Value} {kind : String} {leaf : π}
    (effect : Effect) (hget : s.arena.get? slot = some node) (hkind : node.kind = .process kind leaf) :
    Spawns s (.handle slot value) (.carryOut slot effect)
  | answer {slot : SlotId} {node : Node π κ} {value : Value} {kind : String} {leaf : κ}
    (holds : Bool) (hget : s.arena.get? slot = some node)
    (hkind : node.kind = .condition kind leaf) :
    Spawns s (.handle slot value) (.carryOut slot (.emit (.bool holds)))
  | positive {slot positive : SlotId} {node : Node π κ} {value : Value} {conditions : List SlotId}
    {negative? : Option SlotId} (hget : s.arena.get? slot = some node)
    (hkind : node.kind = .conditional conditions positive negative?) :
    Spawns s (.route slot value) (.enter positive value)
  | negative {slot positive negative : SlotId} {node : Node π κ} {value : Value}
    {conditions : List SlotId} (hget : s.arena.get? slot = some node)
    (hkind : node.kind = .conditional conditions positive (some negative)) :
    Spawns s (.route slot value) (.enter negative value)
  | listener {hops : Nat} {slot : SlotId} {node : Node π κ} {value : Value} {listener : Listener}
    (hget : s.arena.get? slot = some node) (hl : listener ∈ node.outputs) :
    Spawns s (.relay (hops + 1) slot value) (.deliver hops listener value)
  | input (hops : Nat) (slot : SlotId) (value : Value) :
    Spawns s (.deliver hops (.input slot) value) (.enter slot value)
  | output (hops : Nat) (slot : SlotId) (value : Value) :
    Spawns s (.deliver hops (.output slot) value) (.relay hops slot value)
  | emit (slot : SlotId) (value : Value) :
    Spawns s (.carryOut slot (.emit value)) (.relay (Engine.relayLimit s) slot value)
  | handOutput (slot : SlotId) (value : Value) :
    Spawns s (.hand (.output slot) value) (.carryOut slot (.emit value))
  | hand {listener : Listener} (value : Value) (h : ∀ slot, listener ≠ .output slot) :
    Spawns s (.hand listener value) (.deliver 0 listener value)
  | kindle {slot : SlotId} {node : Node π κ} {value : Value}
    (hget : s.arena.get? slot = some node) (hkind : node.kind = .constant value) :
    Spawns s (.kindle slot) (.carryOut slot (.emit value))

/-- What a job does that begins: the jobs it leads to, and the engine. -/
inductive Job.Begins {π κ : Type} (s : Engine π κ) : Job → List Job → Engine π κ → Prop
  | entered {slot : SlotId} {value : Value} (h : s.allowance ≠ 0) :
    Begins s (.enter slot value) [.handle slot value, .leave] { s with active := slot :: s.active }
  | left : Begins s .leave [] { s with active := s.active.tail }
  | propagated {job : Job} {jobs : List Job} {s' : Engine π κ} (hjob : job.Propagates)
    (hdeeds : job.deeds s = []) (h : s.Still s') (hjobs : ∀ j ∈ jobs, job.Spawns s j) :
    Begins s job jobs s'
  | sent {hops : Nat} {id : ChannelId} {channel : Channel} {value : Value} {s' : Engine π κ}
    (hget : s.channels.get? id = some channel) (h : s.Still s') :
    Begins s (.deliver hops (.broadcast id) value) []
      { s' with queue := s'.queue.push (.deliver id channel.listeners value) }
  | scheduled {slot : SlotId} {delay : Nat} {value : Value} {clock : Clock Task}
    (h : s.clock.schedule? delay (.emit slot value) = some clock) :
    Begins s (.carryOut slot (.emitAfter delay value)) [] { s with clock }
  | emptied : Begins s (.batch []) [] s
  | batched (task : Task) (tasks : List Task) :
    Begins s (.batch (task :: tasks)) (task.jobs ++ [.batch tasks]) s
  | ticked : Begins s .tick [.batch (s.queue ++ s.clock.takeDue.1).toList]
      { s with clock := s.clock.takeDue.2, queue := #[] }
  | driven {horizon : Engine.Horizon} {budget : Nat} {s' : Engine π κ}
    (h : Engine.makeRunnable horizon s = .ok true s') :
    Begins s (.drive horizon (budget + 1)) [.tick, .drive horizon budget] s'
  | rested {horizon : Engine.Horizon} {budget : Nat} (h : Engine.makeRunnable horizon s = .ok false s) :
    Begins s (.drive horizon budget) [] { s with clock := horizon.finish s.clock }

/-- Whether a leaf refuses an input, or a condition has no truth value to give. -/
def Stop.IsRefusal : Stop → Prop
  | .failed (.leaf ..) | .failed (.notBool ..) => True
  | _ => False

/-- Why a job of propagation can fail, other than for the depth of inputs. -/
inductive Job.Stops {π κ : Type} (s : Engine π κ) : Job → Stop → Prop
  | refused {job : Job} {stop : Stop} (h : stop.IsRefusal) : Stops s job stop
  | overflowed {slot : SlotId} {delay : Nat} {value : Value}
    (h : s.clock.schedule? delay (.emit slot value) = none) :
    Stops s (.carryOut slot (.emitAfter delay value)) .timeOverflow
  | circled (slot : SlotId) (value : Value) : Stops s (.relay 0 slot value) .endless

/-- Only an input that begins can be too deep. -/
theorem Job.Stops.ne_depthExceeded {π κ : Type} {s : Engine π κ} {job : Job} {stop : Stop}
    (h : job.Stops s stop) (depth : Nat) : stop ≠ .failed (.depthExceeded depth) := by
  rintro rfl
  cases h with
  | refused h => exact h

/-- Why a job fails, and what becomes of the engine. -/
inductive Job.Fails {π κ : Type} (s : Engine π κ) : Job → Stop → Engine π κ → Prop
  | tooDeep {slot : SlotId} {value : Value} (h : s.allowance = 0) :
    Fails s (.enter slot value) (.failed (.depthExceeded s.config.maxDepth)) s
  | propagated {job : Job} {stop : Stop} {s' : Engine π κ} (hjob : job.Propagates)
    (hdeeds : job.deeds s = []) (h : s.Still s') (hstop : job.Stops s stop) : Fails s job stop s'
  | exhausted {horizon : Engine.Horizon} {s' : Engine π κ}
    (h : Engine.makeRunnable horizon s = .ok true s') :
    Fails s (.drive horizon 0) (.failed (.tickBudgetExhausted s'.config.maxTicks)) s'

/-! ## What jobs do -/

namespace Engine

variable {π κ : Type} {s s₁ : Engine π κ} {slot : SlotId} {α : Type}

/-- The act does nothing but to cells and reports, whether it succeeds or an input is refused. -/
def Calm (s : Engine π κ) : EStateM.Result Stop (Engine π κ) α → Prop
  | .ok _ s' => Still s s'
  | .error stop s' => Still s s' ∧ stop.IsRefusal

/-- A refusal leaves things still, as it comes before anything is passed on. -/
theorem calm_fail {e : RunError} (he : (Stop.failed e).IsRefusal) (h : Still s s₁) :
    Calm s ((fail e : Act π κ α) s₁) := ⟨h, he⟩

/-- To send reports an event or queues one task. -/
theorem send_eq (id : ChannelId) (value : Value) (s : Engine π κ) :
    send id value s = .ok () (match s.channels.get? id with
      | some channel =>
        let s' := s.traced (.broadcast id channel.key channel.listeners.length value)
        { s' with queue := s'.queue.push (.deliver id channel.listeners value) }
      | none => { s with log := s.log.push (.warning (.sendDropped id)) }) := by
  unfold send
  rw [get_bind]
  cases s.channels.get? id with
  | none => rfl
  | some channel =>
    dsimp only
    rw [trace_bind]
    rfl

/-- To store a state changes a cell, or drops the value with a warning. -/
theorem calm_setState (value : Value) : Calm s (setState slot value s) := by
  unfold setState
  rw [node?_bind]
  cases hget : s.arena.get? slot with
  | none => exact .report s _
  | some node =>
    dsimp only
    rw [trace_bind]
    have hget' : (s.traced (.state slot node.kind.name value)).arena.get? slot = some node := by
      rw [traced_arena, hget]
    exact (Still.traced _ s).trans_set hget' rfl

variable [Condition κ]

/-- To ask a condition notes its input, and may be refused by its leaf. -/
theorem calm_evaluateCondition (input : Value) : Calm s (evaluateCondition slot input s) := by
  unfold evaluateCondition
  rw [node?_bind]
  cases hget : s.arena.get? slot with
  | none =>
    dsimp only
    rw [bind_of_ok (x := warn (.conditionFreed slot)) rfl]
    exact .report s _
  | some node =>
    dsimp only
    rw [trace_bind, setNode_bind]
    have hget' : (s.traced (.input slot node.kind.name input)).arena.get? slot = some node := by
      rw [traced_arena, hget]
    have hnoted := (Still.traced (.input slot node.kind.name input) s).trans
      (.noted hget' input)
    obtain ⟨kind, input?, state?, outputs⟩ := node
    cases kind with
    | condition kind leaf =>
      dsimp only
      cases Condition.test leaf input state? with
      | ok holds => exact hnoted
      | error cause => exact calm_fail trivial hnoted
    | constant value =>
      cases value with
      | bool holds => exact hnoted
      | _ => exact calm_fail trivial hnoted
    | _ => exact calm_fail trivial hnoted

/-- To ask conditions one by one is as still as to ask one. -/
theorem calm_allHold (input : Value) (conditions : List SlotId) :
    Calm s (allHold input conditions s) := by
  induction conditions generalizing s with
  | nil => exact .refl s
  | cons condition rest ih =>
    have hcondition : Calm s (evaluateCondition condition input s) := calm_evaluateCondition input
    unfold allHold
    cases h : evaluateCondition condition input s with
    | error stop s₁ =>
      rw [h] at hcondition
      rw [bind_of_error h]
      exact hcondition
    | ok holds s₁ =>
      rw [h] at hcondition
      rw [bind_of_ok h]
      cases holds with
      | false => exact hcondition
      | true =>
        -- The other conditions are asked in the engine that the first one leaves.
        have hrest := ih (s := s₁)
        show Calm s (allHold input rest s₁)
        cases h' : allHold input rest s₁ with
        | ok a s₂ =>
          rw [h'] at hrest
          exact Still.trans hcondition hrest
        | error stop s₂ =>
          rw [h'] at hrest
          exact ⟨Still.trans hcondition hrest.1, hrest.2⟩

end Engine

namespace Job

open Engine

variable {π κ : Type} {s : Engine π κ}

/-- What a job comes to when it begins. -/
def Does (s : Engine π κ) (job : Job) : EStateM.Result Stop (Engine π κ) (List Job) → Prop
  | .ok jobs s' => job.Begins s jobs s'
  | .error stop s' => job.Fails s stop s'

/-- An input begins if there is room for one more. -/
theorem does_enter (slot : SlotId) (value : Value) :
    Does s (.enter slot value) (startEnter slot value s) := by
  unfold startEnter
  split
  · rename_i h
    exact .tooDeep h
  · rename_i h
    exact .entered h

/-- A relay leads to a delivery for each listener, unless its hops are used up. -/
theorem does_relay (hops : Nat) (slot : SlotId) (value : Value) :
    Does s (.relay hops slot value) (startRelay hops slot value s) := by
  cases hops with
  | zero => exact .propagated trivial rfl (.refl s) (.circled slot value)
  | succ hops =>
    rw [startRelay, node?_bind]
    cases hget : s.arena.get? slot with
    | none => exact .propagated trivial rfl (.report s _) (List.forall_mem_nil _)
    | some node =>
      dsimp only
      rw [trace_bind]
      refine .propagated trivial rfl (.traced _ s) fun job hjob => ?_
      obtain ⟨listener, hl, rfl⟩ := List.mem_map.1 hjob
      exact .listener hget hl

/-- A delivery ends here, or leads to the input or output that it is for. -/
theorem does_deliver (hops : Nat) (listener : Listener) (value : Value) :
    Does s (.deliver hops listener value) (startDeliver hops value listener s) := by
  cases listener with
  | input slot =>
    exact .propagated trivial rfl (.refl s) (List.forall_mem_singleton.2 (.input hops slot value))
  | output slot =>
    exact .propagated trivial rfl (.refl s) (List.forall_mem_singleton.2 (.output hops slot value))
  | state slot =>
    have hcalm : Calm s (setState slot value s) := calm_setState value
    unfold startDeliver
    dsimp only
    cases h : setState slot value s with
    | ok _ s₁ =>
      rw [h] at hcalm
      rw [bind_of_ok h]
      exact .propagated trivial rfl hcalm (List.forall_mem_nil _)
    | error stop s₁ =>
      rw [h] at hcalm
      rw [bind_of_error h]
      exact .propagated trivial rfl hcalm.1 (.refused hcalm.2)
  | broadcast id =>
    unfold startDeliver
    dsimp only
    rw [bind_of_ok (send_eq id value s)]
    cases hget : s.channels.get? id with
    | none =>
      -- Nothing is sent into a channel that is gone.
      have hdeeds : (deliver hops (.broadcast id) value).deeds s = [] := by rw [deeds, hget]; rfl
      exact .propagated trivial hdeeds (.report s _) (List.forall_mem_nil _)
    | some channel => exact .sent hget (.traced _ s)
  | sink =>
    exact .propagated trivial rfl ⟨⟨rfl, rfl, fun _ => rfl, rfl⟩, rfl, rfl, rfl⟩ (List.forall_mem_nil _)

/-- What is handed to an output goes the way of an emitted value. -/
theorem does_hand (listener : Listener) (value : Value) :
    Does s (.hand listener value) (startHand value listener s) := by
  have hother : (∀ slot, listener ≠ .output slot) →
      Begins s (.hand listener value) [.deliver 0 listener value] s := fun h =>
    .propagated trivial rfl (.refl s) (List.forall_mem_singleton.2 (.hand value h))
  cases listener with
  | output slot =>
    exact .propagated trivial rfl (.refl s) (List.forall_mem_singleton.2 (.handOutput slot value))
  | _ => exact hother fun _ h => by cases h

/-- An effect leads to an output, schedules a timer or renders a value. -/
theorem does_carryOut (slot : SlotId) (effect : Effect) :
    Does s (.carryOut slot effect) (startCarryOut slot effect s) := by
  cases effect with
  | emit value =>
    exact .propagated trivial rfl (.refl s) (List.forall_mem_singleton.2 (.emit slot value))
  | emitAfter delay value =>
    unfold startCarryOut
    dsimp only
    cases hclock : s.clock.schedule? delay (.emit slot value) with
    | some clock => exact .scheduled hclock
    | none =>
      -- A delay that is not representable is no deed.
      have hdeeds : (carryOut slot (.emitAfter delay value)).deeds s = [] := by
        rw [deeds, hclock]
        rfl
      exact .propagated trivial hdeeds (.refl s) (.overflowed hclock)
  | render value =>
    unfold startCarryOut
    dsimp only
    rw [trace_bind]
    have hrendered : ∀ s : Engine π κ, Still s { s with rendered := s.rendered.push value } := fun s =>
      ⟨⟨rfl, rfl, fun _ => rfl, rfl⟩, rfl, rfl, rfl⟩
    exact .propagated trivial rfl ((Still.traced _ s).trans (hrendered _)) (List.forall_mem_nil _)

/-- Only a constant is kindled. -/
theorem does_kindle (slot : SlotId) : Does s (.kindle slot) (startKindle slot s) := by
  unfold startKindle
  rw [node?_bind]
  cases hget : s.arena.get? slot with
  | none => exact .propagated trivial rfl (.refl s) (List.forall_mem_nil _)
  | some node =>
    obtain ⟨kind, input?, state?, outputs⟩ := node
    cases kind with
    | constant value =>
      exact .propagated trivial rfl (.refl s) (List.forall_mem_singleton.2 (.kindle hget rfl))
    | _ => exact .propagated trivial rfl (.refl s) (List.forall_mem_nil _)

/-- A drive leads to a tick and to itself, with one tick less to spend. -/
theorem does_drive (horizon : Horizon) (budget : Nat) :
    Does s (.drive horizon budget) (startDrive horizon budget s) := by
  unfold startDrive
  -- A drive that finds nothing to do leaves the engine as it is.
  rcases makeRunnable_cases horizon s with ⟨s₁, h⟩ | h
  · rw [bind_of_ok h]
    cases budget with
    | zero => exact .exhausted h
    | succ budget => exact .driven h
  · rw [bind_of_ok h]
    exact .rested h

variable [Condition κ]

/-- A conditional leads to one input at most, in the branch that its conditions choose. -/
theorem does_route (slot : SlotId) (input : Value) :
    Does s (.route slot input) (startRoute slot input s) := by
  unfold startRoute
  rw [node?_bind]
  cases hget : s.arena.get? slot with
  | none => exact .propagated trivial rfl (.refl s) (List.forall_mem_nil _)
  | some node =>
    obtain ⟨kind, input?, state?, outputs⟩ := node
    cases kind with
    | conditional conditions positive negative? =>
      dsimp only
      have hcalm : Calm s (allHold input conditions s) := calm_allHold input conditions
      cases h : allHold input conditions s with
      | error stop s₁ =>
        rw [h] at hcalm
        rw [bind_of_error h]
        exact .propagated trivial rfl hcalm.1 (.refused hcalm.2)
      | ok matched s₁ =>
        rw [h] at hcalm
        rw [bind_of_ok h, trace_bind]
        have hstill := Still.trans hcalm
          (.traced (.branch slot (conditionalKind negative?).name matched) s₁)
        cases matched with
        | true =>
          exact .propagated trivial rfl hstill (List.forall_mem_singleton.2 (.positive hget rfl))
        | false =>
          cases negative? with
          | none => exact .propagated trivial rfl hstill (List.forall_mem_nil _)
          | some negative =>
            exact .propagated trivial rfl hstill (List.forall_mem_singleton.2 (.negative hget rfl))
    | _ => exact .propagated trivial rfl (.refl s) (List.forall_mem_nil _)

variable [Process π]

/-- An input is noted, and leads to what the kind of its node calls for. -/
theorem does_handle (slot : SlotId) (value : Value) :
    Does s (.handle slot value) (startHandle slot value s) := by
  unfold startHandle
  rw [node?_bind]
  cases hget : s.arena.get? slot with
  | none => exact .propagated trivial rfl (.report s _) (List.forall_mem_nil _)
  | some node =>
    dsimp only
    rw [trace_bind, setNode_bind]
    have hget' : (s.traced (.input slot node.kind.name value)).arena.get? slot = some node := by
      rw [traced_arena, hget]
    -- Whatever the kind of node, the input is noted first.
    have hnoted := (Still.traced (.input slot node.kind.name value) s).trans
      (.noted hget' value)
    obtain ⟨kind, input?, state?, outputs⟩ := node
    cases kind with
    | placeholder => exact .propagated trivial rfl (hnoted.trans (.report _ _)) (List.forall_mem_nil _)
    | composite producers =>
      refine .propagated trivial rfl hnoted fun job hjob => ?_
      obtain ⟨producer, hp, rfl⟩ := List.mem_map.1 hjob
      exact .producer hget rfl hp
    | conditional conditions positive negative? =>
      exact .propagated trivial rfl hnoted (List.forall_mem_singleton.2 (.route hget rfl))
    | constant constant => exact .propagated trivial rfl hnoted (List.forall_mem_nil _)
    | condition kind leaf =>
      dsimp only
      cases Condition.test leaf value state? with
      | ok holds =>
        exact .propagated trivial rfl hnoted (List.forall_mem_singleton.2 (.answer holds hget rfl))
      | error cause => exact .propagated trivial rfl hnoted (.refused trivial)
    | process kind leaf =>
      dsimp only
      rw [setNode_bind, bind_of_ok (announce_eq _)]
      have hself := Arena.get?_set_self hget' ⟨.process kind leaf, some value, state?, outputs⟩
      have hran := (hnoted.trans_set hself (ranNode_wiring value rfl)).trans
        (.announcing (Process.run leaf value state?).announced _)
      cases hout : (Process.run leaf value state?).outcome with
      | ok effects =>
        refine .propagated trivial rfl hran fun job hjob => ?_
        obtain ⟨effect, -, rfl⟩ := List.mem_map.1 hjob
        exact .request effect hget rfl
      | error cause => exact .propagated trivial rfl hran (.refused trivial)

/-- What happens when a job begins is listed by `Begins` and `Fails`. -/
theorem does_start (job : Job) : Does s job (job.start s) := by
  cases job with
  | enter slot value => exact does_enter slot value
  | handle slot value => exact does_handle slot value
  | leave => exact .left
  | route slot input => exact does_route slot input
  | relay hops slot value => exact does_relay hops slot value
  | deliver hops listener value => exact does_deliver hops listener value
  | hand listener value => exact does_hand listener value
  | carryOut slot effect => exact does_carryOut slot effect
  | kindle slot => exact does_kindle slot
  | batch tasks =>
    cases tasks with
    | nil => exact .emptied
    | cons task tasks => exact .batched task tasks
  | tick => exact .ticked
  | drive horizon budget => exact does_drive horizon budget

/-- To be used wherever a job has gone well, instead of going through what it does. -/
theorem begins_of_start {job : Job} {jobs : List Job} {s' : Engine π κ}
    (h : job.start s = .ok jobs s') : job.Begins s jobs s' := by
  have hdoes := does_start (s := s) job
  rw [h] at hdoes
  exact hdoes

/-- To be used wherever a job has failed, instead of going through what it does. -/
theorem fails_of_start {job : Job} {stop : Stop} {s' : Engine π κ}
    (h : job.start s = .error stop s') : job.Fails s stop s' := by
  have hdoes := does_start (s := s) job
  rw [h] at hdoes
  exact hdoes

end Job

/-! ## From jobs to moments and stories -/

section

variable {π κ ω : Type} [Process π] [Condition κ]

/-- The next moment is the one after the next job has begun, or after it has failed. -/
theorem Moment.next?_cases {m m' : Moment π κ} (h : m.next? = some m') :
    ∃ job rest, m.todo = job :: rest ∧
      ((∃ jobs s', job.Begins m.engine jobs s' ∧ m' = ⟨s', jobs ++ rest, none⟩) ∨
        ∃ stop s', job.Fails m.engine stop s' ∧ m' = ⟨unwind rest s', [], some stop⟩) := by
  obtain ⟨s, todo, stop?⟩ := m
  cases todo with
  | nil => cases h
  | cons job rest =>
    refine ⟨job, rest, rfl, ?_⟩
    cases hstart : job.start s with
    | ok jobs s' =>
      simp only [next?, hstart, Option.some.injEq] at h
      exact .inl ⟨jobs, s', Job.begins_of_start hstart, h.symm⟩
    | error stop s' =>
      simp only [next?, hstart, Option.some.injEq] at h
      exact .inr ⟨stop, s', Job.fails_of_start hstart, h.symm⟩

/-- When jobs have ended early, one of them has failed. -/
theorem Moment.exists_fails {m m' : Moment π κ} {stop : Stop} (hcomes : Comes m m')
    (hstart : m.stop? = none) (hstop : m'.stop? = some stop) :
    ∃ before job rest s', Comes m before ∧ before.todo = job :: rest ∧
      job.Fails before.engine stop s' := by
  rcases hcomes.cases_tail with rfl | ⟨before, hbefore, hnext⟩
  · rw [hstart] at hstop
    cases hstop
  · obtain ⟨job, rest, htodo, ⟨jobs, s', -, rfl⟩ | ⟨stop', s', hfails, rfl⟩⟩ := next?_cases hnext
    · cases hstop
    · cases hstop
      exact ⟨before, job, rest, s', hbefore, htodo, hfails⟩

/-- What holds at the start, and is kept by every job and by beginning an operation when nothing is
left to do, holds at every moment of a story. -/
theorem Story.invariant {begin : ω → Engine π κ → Moment π κ} {start : Moment π κ}
    {P : Moment π κ → Prop} (hstart : P start) (hnext : ∀ m m', P m → m.next? = some m' → P m')
    (hbegin : ∀ op m, P m → m.todo = [] → P (begin op m.engine)) {ops : List ω} {ds : List Deed}
    {m : Moment π κ} (h : Story begin start ops ds m) : P m := by
  induction h with
  | start => exact hstart
  | next _ hm ih => exact hnext _ _ ih hm
  | begin op _ hrest ih => exact hbegin op _ ih hrest

end

namespace Engine

variable {π κ : Type} {s s' : Engine π κ} {job : Job}

/-- Time may pass, but no wire is touched. -/
theorem SameWiring.of_makeRunnable {horizon : Horizon} {runnable : Bool}
    (h : makeRunnable horizon s = .ok runnable s') : SameWiring s s' := by
  rcases makeRunnable_engine h with rfl | ⟨time, rfl⟩ <;> exact ⟨rfl, rfl, fun _ => rfl, rfl⟩

/-- No job that begins rewires anything. -/
theorem SameWiring.of_begins {jobs : List Job} (h : job.Begins s jobs s') : SameWiring s s' := by
  cases h with
  | propagated hjob hdeeds hstill => exact hstill.wiring
  | sent hget hstill => exact hstill.wiring.trans ⟨rfl, rfl, fun _ => rfl, rfl⟩
  | driven hrunnable => exact .of_makeRunnable hrunnable
  | _ => exact ⟨rfl, rfl, fun _ => rfl, rfl⟩

/-- No job that fails rewires anything. -/
theorem SameWiring.of_fails {stop : Stop} (h : job.Fails s stop s') : SameWiring s s' := by
  cases h with
  | tooDeep => exact .refl s
  | propagated hjob hdeeds hstill => exact hstill.wiring
  | exhausted hrunnable => exact .of_makeRunnable hrunnable

/-- To give up jobs puts tasks back and ends inputs, and rewires nothing. -/
theorem SameWiring.unwind (todo : List Job) (s : Engine π κ) : SameWiring s (Moment.unwind todo s) := by
  induction todo generalizing s with
  | nil => exact .refl s
  | cons job rest ih =>
    have hgiveUp : SameWiring s (job.giveUp s) := by
      cases job <;> exact ⟨rfl, rfl, fun _ => rfl, rfl⟩
    exact hgiveUp.trans (ih _)

end Engine

/-- No time passes when jobs are given up. -/
theorem Moment.clock_unwind {π κ : Type} (todo : List Job) (s : Engine π κ) :
    (unwind todo s).clock = s.clock := by
  induction todo generalizing s with
  | nil => rfl
  | cons job rest ih =>
    have hgiveUp : (job.giveUp s).clock = s.clock := by cases job <;> rfl
    exact (ih _).trans hgiveUp

/-- No job rewires a graph. -/
theorem Moment.sameWiring_of_next? {π κ : Type} [Process π] [Condition κ] {m m' : Moment π κ}
    (h : m.next? = some m') : m.engine.SameWiring m'.engine := by
  obtain ⟨job, rest, -, ⟨jobs, s', hbegins, rfl⟩ | ⟨stop, s', hfails, rfl⟩⟩ := next?_cases h
  · exact .of_begins hbegins
  · exact (Engine.SameWiring.of_fails hfails).trans (.unwind rest s')

end Dataflow
