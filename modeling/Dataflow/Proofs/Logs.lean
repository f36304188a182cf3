import Dataflow.Proofs.Probed

/-!
# What an engine does not look back at

An engine adds to three logs: values put out, values rendered, and events. It never reads them, so an
engine whose logs were taken does what it would have done otherwise, and adds the same to its logs. Nor do
calls look at the queue. They add to its end, whatever tasks stand in front of it.

Both are one property of acts: to change the engine first, or to change what the act comes to, is the same
(`Oblivious`). It is known of each call for logs and queue together (`Job.start_following`) and of every
job for the logs (`Job.start_after`), and so holds of what comes of a moment (`Moment.comes_after`) and of
each operation that takes no log (`Graph.operate_after`).
-/

namespace Dataflow

open Moment

/-- What the logs of an engine held when they were taken. -/
structure Logs where
  outputs : Array Value := #[]
  rendered : Array Value := #[]
  log : Array Event := #[]

namespace Engine

variable {π κ : Type} {α β : Type} {tasks : Array Task} {past : Logs}

/-- The engine as it were if its logs had not been taken. -/
def after (past : Logs) (s : Engine π κ) : Engine π κ :=
  { s with
    outputs := past.outputs ++ s.outputs
    rendered := past.rendered ++ s.rendered
    log := past.log ++ s.log }

/-- The engine as it were if its logs had not been taken and these tasks stood in front of its queue. -/
def following (tasks : Array Task) (past : Logs) (s : Engine π κ) : Engine π κ :=
  { s.after past with queue := tasks ++ s.queue }

/-- In front of no task, only the logs are changed. -/
theorem following_empty (past : Logs) : (following #[] past : Engine π κ → Engine π κ) = after past := by
  funext s
  rw [following, Array.empty_append]
  rfl

/-- What an act comes to, with the engine changed. -/
def resultChanged (f : Engine π κ → Engine π κ) :
    EStateM.Result Stop (Engine π κ) α → EStateM.Result Stop (Engine π κ) α
  | .ok a s => .ok a (f s)
  | .error stop s => .error stop (f s)

/-- A hop is added to the end of the log, whatever stands before it. -/
theorem traced_following (hop : Hop) (s : Engine π κ) :
    (s.following tasks past).traced hop = (s.traced hop).following tasks past := by
  have htrace : (s.following tasks past).config.trace = s.config.trace := rfl
  unfold traced
  rw [htrace]
  split
  · simp [following, after]
  · rfl

/-! ## Acts that do not look back -/

/-- The act does the same in the changed engine, and changes it in the same way. -/
def Oblivious (f : Engine π κ → Engine π κ) (act : Act π κ α) : Prop :=
  ∀ s, act (f s) = resultChanged f (act s)

namespace Oblivious

section

variable {f : Engine π κ → Engine π κ}

theorem pure (a : α) : Oblivious f (Pure.pure a : Act π κ α) := fun _ => rfl

theorem throw (stop : Stop) : Oblivious f (MonadExcept.throw stop : Act π κ α) := fun _ => rfl

/-- Acts in sequence look back at nothing if none of them does. -/
theorem bind {x : Act π κ α} {next : α → Act π κ β} (hx : Oblivious f x)
    (hnext : ∀ a, Oblivious f (next a)) : Oblivious f (x >>= next) := by
  intro s
  have hfirst := hx s
  cases h : x s with
  | ok a s' =>
    rw [h] at hfirst
    rw [bind_of_ok h, bind_of_ok hfirst]
    exact hnext a s'
  | error stop s' =>
    rw [h] at hfirst
    rw [bind_of_error h, bind_of_error hfirst]
    rfl

/-- An act that looks at the engine, but not at what is changed. -/
theorem get {next : Engine π κ → Act π κ β} (hsame : ∀ s, next (f s) = next s)
    (h : ∀ s, Oblivious f (next s)) : Oblivious f (MonadState.get >>= next) := by
  intro s
  rw [get_bind, get_bind, hsame]
  exact h s s

end

theorem node? (slot : SlotId) : Oblivious (following tasks past) (Engine.node? slot : Act π κ _) :=
  fun _ => rfl

theorem setNode (slot : SlotId) (node : Node π κ) :
    Oblivious (following tasks past) (Engine.setNode slot node) := fun _ => rfl

/-- An event is added to the end of the log. -/
theorem report (event : Event) :
    Oblivious (following tasks past) (Engine.report event : Act π κ Unit) := by
  intro s
  have hlog : past.log ++ s.log.push event = (past.log ++ s.log).push event := by simp
  show EStateM.Result.ok () { s.following tasks past with log := (past.log ++ s.log).push event } = _
  rw [← hlog]
  rfl

theorem trace (hop : Hop) : Oblivious (following tasks past) (Engine.trace hop : Act π κ Unit) := by
  intro s
  rw [trace_eq, trace_eq, traced_following]
  rfl

/-- Announcements are added to the end of the log. -/
theorem announce (texts : List String) :
    Oblivious (following tasks past)
      (texts.forM fun text => Engine.report (.announced text) : Act π κ PUnit) := by
  induction texts with
  | nil => exact .pure _
  | cons text texts ih => exact (report _).bind fun _ => ih

/-- A cell is no log. -/
theorem setState (slot : SlotId) (value : Value) :
    Oblivious (following tasks past) (Engine.setState slot value : Act π κ Unit) := by
  refine (node? slot).bind fun node? => ?_
  cases node? with
  | some node => exact (trace _).bind fun _ => setNode slot _
  | none => exact report _

/-- A task goes to the end of the queue, behind all that stand in front. -/
theorem enqueue (task : Task) :
    Oblivious (following tasks past)
      (modify fun s => { s with queue := s.queue.push task } : Act π κ PUnit) := by
  intro s
  have hqueue : tasks ++ s.queue.push task = (tasks ++ s.queue).push task := by simp
  show EStateM.Result.ok () { s.after past with queue := (tasks ++ s.queue).push task } = _
  rw [← hqueue]
  rfl

/-- To send adds a task to the end of the queue, or a warning to the end of the log. -/
theorem send (id : ChannelId) (value : Value) :
    Oblivious (following tasks past) (Engine.send id value : Act π κ Unit) := by
  refine get (fun _ => rfl) fun s => ?_
  cases s.channels.get? id with
  | some channel => exact (trace _).bind fun _ => enqueue _
  | none => exact report _

/-- A value that is put out is added to the end of its log. -/
theorem sink (value : Value) :
    Oblivious (following tasks past) (Engine.sink value : Act π κ Unit) := by
  intro s
  have houtputs : past.outputs ++ s.outputs.push value = (past.outputs ++ s.outputs).push value := by
    simp
  show EStateM.Result.ok ()
    { s.following tasks past with outputs := (past.outputs ++ s.outputs).push value } = _
  rw [← houtputs]
  rfl

/-- A value that is rendered is added to the end of its log. -/
theorem render (value : Value) :
    Oblivious (following tasks past)
      (modify fun s => { s with rendered := s.rendered.push value } : Act π κ PUnit) := by
  intro s
  have hrendered : past.rendered ++ s.rendered.push value =
      (past.rendered ++ s.rendered).push value := by simp
  show EStateM.Result.ok () { s.following tasks past with
    rendered := (past.rendered ++ s.rendered).push value } = _
  rw [← hrendered]
  rfl

/-- Whether anything is runnable depends on the queue, but not on the logs. -/
theorem makeRunnable (horizon : Horizon) :
    Oblivious (after past) (Engine.makeRunnable horizon : Act π κ Bool) := by
  intro s
  have hrunnable : (s.after past).isRunnable = s.isRunnable := rfl
  have hclock : (s.after past).clock = s.clock := rfl
  rw [makeRunnable_eq, makeRunnable_eq, hrunnable, hclock]
  split
  · rfl
  · cases s.clock.nextDeadline? with
    | none => rfl
    | some deadline =>
      dsimp only
      split <;> rfl

variable [Condition κ]

/-- A condition looks at its node only. -/
theorem evaluateCondition (slot : SlotId) (input : Value) :
    Oblivious (following tasks past) (Engine.evaluateCondition slot input : Act π κ Bool) := by
  refine (node? slot).bind fun node? => ?_
  cases node? with
  | none => exact (report _).bind fun _ => pure false
  | some node =>
    refine (trace _).bind fun _ => (setNode slot _).bind fun _ => ?_
    obtain ⟨kind, input?, state?, outputs⟩ := node
    cases kind with
    | condition kind leaf =>
      dsimp only
      cases Condition.test leaf input state? with
      | ok holds => exact pure holds
      | error cause => exact throw _
    | constant value =>
      cases value with
      | bool holds => exact pure holds
      | _ => exact throw _
    | _ => exact throw _

/-- Conditions are asked up to the same one. -/
theorem allHold (input : Value) (conditions : List SlotId) :
    Oblivious (following tasks past) (Engine.allHold input conditions : Act π κ Bool) := by
  induction conditions with
  | nil => exact pure true
  | cons condition rest ih =>
    refine (evaluateCondition condition input).bind fun holds => ?_
    cases holds with
    | true => exact ih
    | false => exact pure false

end Oblivious

end Engine

/-! ## Jobs -/

namespace Job

open Engine

variable {π κ : Type} {tasks : Array Task} {past : Logs}

/-- An output is relayed to the same listeners. -/
theorem oblivious_startRelay (hops : Nat) (slot : SlotId) (value : Value) :
    Oblivious (following tasks past) (startRelay hops slot value : Act π κ _) := by
  cases hops with
  | zero => exact .throw _
  | succ hops =>
    refine (Oblivious.node? slot).bind fun node? => ?_
    cases node? with
    | some node => exact (Oblivious.trace _).bind fun _ => .pure _
    | none => exact (Oblivious.report _).bind fun _ => .pure _

/-- A delivery leads to the same job, or adds to the end of a log or of the queue. -/
theorem oblivious_startDeliver (hops : Nat) (value : Value) (listener : Listener) :
    Oblivious (following tasks past) (startDeliver hops value listener : Act π κ _) := by
  cases listener with
  | state slot => exact (Oblivious.setState slot value).bind fun _ => .pure _
  | broadcast id => exact (Oblivious.send id value).bind fun _ => .pure _
  | sink => exact (Oblivious.sink value).bind fun _ => .pure _
  | _ => exact .pure _

/-- A timer is scheduled on the clock, which is neither a log nor the queue. -/
theorem oblivious_startCarryOut (slot : SlotId) (effect : Effect) :
    Oblivious (following tasks past) (startCarryOut slot effect : Act π κ _) := by
  cases effect with
  | emit value => exact .get (fun _ => rfl) fun _ => .pure _
  | emitAfter delay value =>
    intro s
    show startCarryOut slot (.emitAfter delay value) (s.following tasks past) = _
    unfold startCarryOut following after
    dsimp only
    cases s.clock.schedule? delay (.emit slot value) <;> rfl
  | render value =>
    exact (Oblivious.trace _).bind fun _ => (Oblivious.render value).bind fun _ => .pure _

theorem oblivious_startKindle (slot : SlotId) :
    Oblivious (following tasks past) (startKindle slot : Act π κ _) := by
  refine (Oblivious.node? slot).bind fun node? => ?_
  rcases node? with - | ⟨kind, input?, state?, outputs⟩
  · exact .pure _
  · cases kind <;> exact .pure _

/-- A drive looks at the queue, so this is said of the logs alone. -/
theorem oblivious_startDrive (horizon : Horizon) (budget : Nat) :
    Oblivious (after past) (startDrive horizon budget : Act π κ _) := by
  refine (Oblivious.makeRunnable horizon).bind fun runnable => ?_
  cases runnable with
  | false => exact fun _ => rfl
  | true =>
    cases budget with
    | zero => exact .get (fun _ => rfl) fun _ => .throw _
    | succ budget => exact .pure _

variable [Condition κ]

/-- A conditional chooses the same branch. -/
theorem oblivious_startRoute (slot : SlotId) (input : Value) :
    Oblivious (following tasks past) (startRoute slot input : Act π κ _) := by
  refine (Oblivious.node? slot).bind fun node? => ?_
  rcases node? with - | ⟨kind, input?, state?, outputs⟩
  · exact .pure _
  · cases kind with
    | conditional conditions positive negative? =>
      refine (Oblivious.allHold input conditions).bind fun matched => ?_
      refine (Oblivious.trace _).bind fun _ => ?_
      cases matched with
      | true => exact .pure _
      | false => cases negative? <;> exact .pure _
    | _ => exact .pure _

variable [Process π]

/-- An input is noted and run, and whatever it reports is added to the end of the log. -/
theorem oblivious_startHandle (slot : SlotId) (value : Value) :
    Oblivious (following tasks past) (startHandle slot value : Act π κ _) := by
  refine (Oblivious.node? slot).bind fun node? => ?_
  cases node? with
  | none => exact (Oblivious.report _).bind fun _ => .pure _
  | some node =>
    refine (Oblivious.trace _).bind fun _ => (Oblivious.setNode slot _).bind fun _ => ?_
    obtain ⟨kind, input?, state?, outputs⟩ := node
    cases kind with
    | placeholder => exact (Oblivious.report _).bind fun _ => .pure _
    | condition kind leaf =>
      dsimp only
      cases Condition.test leaf value state? with
      | ok holds => exact .pure _
      | error cause => exact .throw _
    | process kind leaf =>
      refine (Oblivious.setNode slot _).bind fun _ => (Oblivious.announce _).bind fun _ => ?_
      dsimp only
      cases (Process.run leaf value state?).outcome with
      | ok effects => exact .pure _
      | error cause => exact .throw _
    | _ => exact .pure _

/-- Calls look neither at the logs nor at the queue. -/
theorem start_following {job : Job} (hjob : job.IsCall) :
    Oblivious (following tasks past) (job.start : Act π κ _) := by
  cases job with
  | enter slot value =>
    intro s
    show startEnter slot value (s.following tasks past) = resultChanged _ (startEnter slot value s)
    have hallowance : (s.following tasks past).allowance = s.allowance := rfl
    unfold startEnter
    rw [hallowance]
    split <;> rfl
  | handle slot value => exact oblivious_startHandle slot value
  | leave => exact fun _ => rfl
  | route slot input => exact oblivious_startRoute slot input
  | relay hops slot value => exact oblivious_startRelay hops slot value
  | deliver hops listener value => exact oblivious_startDeliver hops value listener
  | hand listener value => cases listener <;> exact .pure _
  | carryOut slot effect => exact oblivious_startCarryOut slot effect
  | kindle slot => exact oblivious_startKindle slot
  | batch tasks => exact hjob.elim
  | tick => exact hjob.elim
  | drive horizon budget => exact hjob.elim

/-- No job looks at the logs. -/
theorem start_after (job : Job) : Oblivious (after past) (job.start : Act π κ _) := by
  cases job with
  | batch tasks => cases tasks <;> exact fun _ => rfl
  | tick => exact fun _ => rfl
  | drive horizon budget => exact oblivious_startDrive horizon budget
  | _ =>
    rw [← following_empty]
    exact start_following trivial

end Job

/-! ## Moments -/

namespace Moment

open Engine

variable {π κ : Type} {past : Logs}

/-- The moment with the engine changed. -/
def changed (f : Engine π κ → Engine π κ) (m : Moment π κ) : Moment π κ :=
  { m with engine := f m.engine }

/-- The moment as it were if the logs had not been taken. -/
def after (past : Logs) (m : Moment π κ) : Moment π κ := m.changed (Engine.after past)

/-- Jobs are given up alike if each of them is. -/
theorem unwind_changed {f : Engine π κ → Engine π κ} {todo : List Job}
    (hgiveUp : ∀ job ∈ todo, ∀ s, job.giveUp (f s) = f (job.giveUp s)) (s : Engine π κ) :
    unwind todo (f s) = f (unwind todo s) := by
  induction todo generalizing s with
  | nil => rfl
  | cons job rest ih =>
    obtain ⟨hjob, hrest⟩ := List.forall_mem_cons.1 hgiveUp
    rw [unwind, List.foldl_cons, hjob]
    exact ih hrest (job.giveUp s)

variable [Process π] [Condition κ] {m m' : Moment π κ}

/-- What comes next is the same in the changed engine if the next job does not look at the change, and
neither do the jobs that are given up when it fails. -/
theorem next?_changed {f : Engine π κ → Engine π κ}
    (hstart : ∀ job ∈ m.todo, Oblivious f (job.start : Act π κ _))
    (hgiveUp : ∀ job ∈ m.todo, ∀ s : Engine π κ, job.giveUp (f s) = f (job.giveUp s))
    (hnext : m.next? = some m') : (m.changed f).next? = some (m'.changed f) := by
  obtain ⟨s, todo, stop?⟩ := m
  cases todo with
  | nil => cases hnext
  | cons job rest =>
    have hjob := hstart job (List.mem_cons_self ..) s
    cases hresult : job.start s with
    | ok jobs s' =>
      cases (next?_of_ok hresult).symm.trans hnext
      rw [hresult] at hjob
      exact next?_of_ok hjob
    | error stop s' =>
      cases (next?_of_error hresult).symm.trans hnext
      rw [hresult] at hjob
      have hnext' : (⟨f s, job :: rest, stop?⟩ : Moment π κ).next? = _ := next?_of_error hjob
      rw [unwind_changed (List.forall_mem_cons.1 hgiveUp).2] at hnext'
      exact hnext'

/-- What comes if the logs were taken is what comes otherwise. -/
theorem comes_after (past : Logs) (hcomes : Comes m m') : Comes (m.after past) (m'.after past) := by
  induction hcomes with
  | refl => exact .refl
  | tail _ hnext ih =>
    refine ih.tail (next?_changed (fun job _ => job.start_after) (fun job _ s => ?_) hnext)
    cases job <;> rfl

end Moment

/-! ## Operations -/

/-- Whether an operation leaves the logs where they are. -/
def Operation.LeavesLogs : Operation → Prop
  | .takeOutputs | .takeRendered => False
  | _ => True

namespace Graph

open Engine

variable {π κ : Type} {past : Logs}

/-- The graph as it were if its logs had not been taken. -/
def after (past : Logs) (g : Graph π κ) : Graph π κ := { g with engine := g.engine.after past }

/-- An operation begins alike if the logs were taken, unless it is to take one itself. -/
theorem begin_after (root : SlotId) {op : Operation} (hop : op.LeavesLogs) (s : Engine π κ) :
    begin root op (s.after past) = (begin root op s).after past := by
  cases op with
  | advanceBy span =>
    have hadd : Duration.add? (s.after past).clock.now span = Duration.add? s.clock.now span := rfl
    show advancing span (s.after past) = (advancing span s).after past
    unfold advancing
    rw [hadd]
    cases Duration.add? s.clock.now span <;> rfl
  | tap slot =>
    have hget : (s.after past).arena.get? slot = s.arena.get? slot := rfl
    rw [begin_tap, begin_tap, hget]
    cases s.arena.get? slot <;> rfl
  | takeOutputs => exact hop.elim
  | takeRendered => exact hop.elim
  | _ => rfl

variable [Process π] [Condition κ]

/-- The last operation is done to the graph that the others leave. -/
theorem operateAll_concat (g : Graph π κ) (ops : List Operation) (op : Operation) :
    (g.operateAll (ops ++ [op])).2 = ((g.operateAll ops).2.operate op).2 := by
  induction ops generalizing g with
  | nil => rfl
  | cons first ops ih => exact ih (g.operate first).2

/-- An operation comes to the same if the logs were taken, and adds the same to them. -/
theorem operate_after (past : Logs) (g : Graph π κ) {op : Operation} (hop : op.LeavesLogs) :
    ((g.after past).operate op).2 = (g.operate op).2.after past ∧
      ∀ stop, ((g.after past).operate op).1 = .error stop ↔ (g.operate op).1 = .error stop := by
  have hcomes := comes_after past (comes_act g op g.engine)
  rw [← begin_after g.root hop] at hcomes
  have hended : ended ((g.after past).act op) (g.after past).engine =
      (ended (g.act op) g.engine).after past :=
    eq_of_comes (comes_act (g.after past) op (g.after past).engine) hcomes (ended_todo ..)
      (ended_todo (g.act op) g.engine)
  obtain ⟨hengine, hstop⟩ := perform_of_ended g (g.act op)
  obtain ⟨hengine', hstop'⟩ := perform_of_ended (g.after past) ((g.after past).act op)
  rw [operate, operate, hengine, hengine', hended]
  refine ⟨rfl, fun stop => ?_⟩
  rw [hstop, hstop', hended]
  rfl

end Graph

end Dataflow
