import Dataflow.Proofs.Unfolding

/-!
# The ledger of tasks

Tasks are queued by sends and by ticks, and run by ticks. Whatever happens in between, and however
often it fails, no task is lost, none is run twice and none overtakes another: those that were run
followed by those that still wait are those that were queued, in order (`Story.ledger`). What is
queued while a tick is in progress stays in the queue until the next tick
(`Story.queued_since_tick`).
-/

namespace Dataflow

open Moment

/-! ## Jobs in their places -/

namespace Job

/-- Whether a job is part of processing an input or a task. -/
def IsCall : Job → Prop
  | .batch _ | .tick | .drive .. => False
  | _ => True

/-- Whether a job lets time pass. -/
def IsDrive : Job → Prop
  | .drive .. => True
  | _ => False

variable {π κ : Type} {s : Engine π κ} {job j : Job}

/-- A job of propagation is part of processing something. -/
theorem Propagates.isCall (h : job.Propagates) : job.IsCall := by
  cases job <;> first | exact h | trivial

/-- Jobs of propagation lead to such jobs, or to inputs. -/
theorem Spawns.isCall (h : job.Spawns s j) : j.IsCall := by
  cases h <;> trivial

theorem IsCall.not_isDrive (h : job.IsCall) : ¬job.IsDrive := by
  cases job <;> first | exact id | exact h.elim

/-- A call has no tasks of its own to run. -/
theorem IsCall.tasks (h : job.IsCall) : job.tasks = [] := by
  cases job <;> first | rfl | exact h.elim

/-- A drive has no tasks of its own to run. -/
theorem IsDrive.tasks (h : job.IsDrive) : job.tasks = [] := by
  cases job <;> first | rfl | exact h.elim

end Job

/-- A task is run by calls. -/
theorem Task.isCall_jobs (task : Task) : ∀ job ∈ task.jobs, job.IsCall := by
  cases task with
  | deliver channel listeners value =>
    intro job hjob
    obtain ⟨listener, -, rfl⟩ := List.mem_map.1 hjob
    trivial
  | emit slot value => exact List.forall_mem_singleton.2 trivial

/-- Jobs that are calls come before what they are part of, and nothing comes after a tick but the
drive that it belongs to. -/
def Shaped (todo : List Job) : Prop := todo.Pairwise fun job later => job.IsCall ∨ later.IsDrive

namespace Shaped

variable {π κ : Type} {s s' : Engine π κ} {job : Job} {jobs rest : List Job}

theorem tail (h : Shaped (job :: rest)) : Shaped rest := (List.pairwise_cons.1 h).2

theorem drives (h : Shaped (job :: rest)) (hjob : ¬job.IsCall) : ∀ later ∈ rest, later.IsDrive :=
  fun later hlater => ((List.pairwise_cons.1 h).1 later hlater).resolve_left hjob

/-- Calls may come before whatever is there. -/
theorem append (h : Shaped rest) (hjobs : ∀ j ∈ jobs, j.IsCall) : Shaped (jobs ++ rest) := by
  induction jobs with
  | nil => exact h
  | cons j jobs ih =>
    obtain ⟨hj, hjobs⟩ := List.forall_mem_cons.1 hjobs
    exact List.pairwise_cons.2 ⟨fun _ _ => .inl hj, ih hjobs⟩

theorem cons (h : Shaped rest) (hdrives : ∀ later ∈ rest, later.IsDrive) : Shaped (job :: rest) :=
  List.pairwise_cons.2 ⟨fun later hlater => .inr (hdrives later hlater), h⟩

/-- Drives may stand behind each other. -/
theorem of_drives {todo : List Job} (h : ∀ job ∈ todo, job.IsDrive) : Shaped todo := by
  induction todo with
  | nil => exact .nil
  | cons job rest ih =>
    have hrest := (List.forall_mem_cons.1 h).2
    exact (ih hrest).cons hrest

/-- What a job leads to has the shape that the job was part of. -/
theorem of_begins (h : Shaped (job :: rest)) (hbegins : job.Begins s jobs s') :
    Shaped (jobs ++ rest) := by
  cases hbegins with
  | entered =>
    exact h.tail.append (List.forall_mem_cons.2 ⟨trivial, List.forall_mem_singleton.2 trivial⟩)
  | propagated hjob hdeeds hstill hjobs => exact h.tail.append fun j hj => (hjobs j hj).isCall
  | batched task tasks =>
    rw [List.append_assoc]
    exact append (h.tail.cons (h.drives fun h => h)) task.isCall_jobs
  | ticked => exact h.tail.cons (h.drives fun h => h)
  | driven =>
    have hdrives := h.drives fun h => h
    exact (h.tail.cons hdrives).cons (List.forall_mem_cons.2 ⟨trivial, hdrives⟩)
  | _ => exact h.tail

/-- What is to be done after a tick runs no tasks. -/
theorem tasks_of_drives (h : ∀ job ∈ rest, job.IsDrive) : rest.flatMap Job.tasks = [] :=
  List.flatMap_eq_nil_iff.2 fun job hjob => (h job hjob).tasks

/-- No task waits in calls. -/
theorem tasks_of_calls (h : ∀ job ∈ jobs, job.IsCall) : jobs.flatMap Job.tasks = [] :=
  List.flatMap_eq_nil_iff.2 fun job hjob => (h job hjob).tasks

/-- A drive that is given up puts nothing back. -/
theorem unwind_of_drives (h : ∀ job ∈ rest, job.IsDrive) (s : Engine π κ) : unwind rest s = s := by
  induction rest generalizing s with
  | nil => rfl
  | cons job rest ih =>
    obtain ⟨hjob, hrest⟩ := List.forall_mem_cons.1 h
    have hgiveUp : job.giveUp s = s := by
      cases job <;> first | rfl | exact hjob.elim
    rw [unwind, List.foldl_cons, hgiveUp]
    exact ih hrest s

/-- Giving up jobs puts the tasks they have still to run back into the queue. -/
theorem queue_unwind {todo : List Job} (h : Shaped todo) (s : Engine π κ) :
    (unwind todo s).queue.toList = todo.flatMap Job.tasks ++ s.queue.toList := by
  induction todo generalizing s with
  | nil => rfl
  | cons job rest ih =>
    by_cases hjob : job.IsCall
    · have hqueue : (job.giveUp s).queue = s.queue := by
        cases job <;> first | rfl | exact hjob.elim
      rw [List.flatMap_cons, hjob.tasks, List.nil_append, ← hqueue]
      exact ih h.tail _
    · have hdrives := h.drives hjob
      rw [List.flatMap_cons, tasks_of_drives hdrives, List.append_nil, unwind, List.foldl_cons]
      show (unwind rest (job.giveUp s)).queue.toList = _
      rw [unwind_of_drives hdrives]
      cases job with
      | batch tasks => simp [Job.giveUp, Job.tasks]
      | tick => rfl
      | drive horizon budget => rfl
      | _ => exact absurd trivial hjob

end Shaped

/-! ## What is queued and what is run -/

namespace Deed

/-- The tasks that a deed queues. -/
def queued : Deed → List Task
  | .sent task => [task]
  | .ticked due => due
  | _ => []

/-- The task that a deed runs. -/
def executed : Deed → List Task
  | .ran task _ => [task]
  | _ => []

/-- Whether a deed is the beginning of a tick. -/
def IsTick : Deed → Prop
  | .ticked _ => True
  | _ => False

end Deed

section

variable {π κ : Type} {s s' : Engine π κ} {job : Job} {jobs rest : List Job}

/-- To move the time queues nothing. -/
theorem Engine.queue_of_makeRunnable {horizon : Engine.Horizon} {runnable : Bool}
    (h : Engine.makeRunnable horizon s = .ok runnable s') : s'.queue = s.queue := by
  rcases Engine.makeRunnable_engine h with rfl | ⟨time, rfl⟩ <;> rfl

/-- A job that fails does no deed and leaves the queue as it is. -/
theorem Job.Fails.quiet {stop : Stop} (h : job.Fails s stop s') :
    job.deeds s = [] ∧ job.tasks = [] ∧ s'.queue = s.queue := by
  cases h with
  | tooDeep => exact ⟨rfl, rfl, rfl⟩
  | propagated hjob hdeeds hstill => exact ⟨hdeeds, hjob.isCall.tasks, hstill.queue⟩
  | exhausted hrunnable => exact ⟨rfl, rfl, Engine.queue_of_makeRunnable hrunnable⟩

/-- To send into a channel is a deed. -/
theorem Job.deeds_broadcast {hops : Nat} {id : ChannelId} {channel : Channel} {value : Value}
    (hget : s.channels.get? id = some channel) :
    (Job.deliver hops (.broadcast id) value).deeds s =
      [.sent (.deliver id channel.listeners value)] := by
  rw [Job.deeds, hget]
  rfl

/-- To put a value off is a deed. -/
theorem Job.deeds_emitAfter {slot : SlotId} {delay : Nat} {value : Value} {clock : Clock Task}
    (hclock : s.clock.schedule? delay (.emit slot value) = some clock) :
    (Job.carryOut slot (.emitAfter delay value)).deeds s =
      [.requested ⟨s.clock.now + delay, s.clock.scheduled, .emit slot value⟩] := by
  rw [Job.deeds, hclock]
  rfl

/-- The tasks a job is left with and those it runs are those there were and those it queues. -/
theorem Shaped.ledger_of_begins (h : Shaped (job :: rest)) (hbegins : job.Begins s jobs s') :
    (job.deeds s).flatMap Deed.executed ++ ((jobs ++ rest).flatMap Job.tasks ++ s'.queue.toList) =
      (job :: rest).flatMap Job.tasks ++ s.queue.toList ++ (job.deeds s).flatMap Deed.queued := by
  rw [List.flatMap_append, List.flatMap_cons]
  cases hbegins with
  | entered => simp [Job.deeds, Job.tasks]
  | left => simp [Job.deeds, Job.tasks]
  | propagated hjob hdeeds hstill hjobs =>
    have hcalls := Shaped.tasks_of_calls fun j hj => (hjobs j hj).isCall
    simp [hdeeds, hjob.isCall.tasks, hcalls, hstill.queue]
  | sent hget hstill =>
    simp [Job.deeds_broadcast hget, Job.tasks, Deed.executed, Deed.queued, hstill.queue]
  | scheduled hclock => simp [Job.deeds_emitAfter hclock, Job.tasks, Deed.executed, Deed.queued]
  | emptied => simp [Job.deeds, Job.tasks]
  | batched task tasks =>
    simp [Job.deeds, Job.tasks, Deed.executed, Deed.queued, Shaped.tasks_of_calls task.isCall_jobs]
  -- Nothing but drives comes after a tick, so nothing but the queue is waiting.
  | ticked =>
    have hdrives := Shaped.tasks_of_drives (h.drives fun h => h)
    simp [Job.deeds, Job.tasks, Deed.executed, Deed.queued, hdrives]
  | driven hrunnable => simp [Job.deeds, Job.tasks, Engine.queue_of_makeRunnable hrunnable]
  | rested => simp [Job.deeds, Job.tasks]

/-- But for a tick, a job leaves the queue and adds what it queues. -/
theorem Job.Begins.queue (h : job.Begins s jobs s') (htick : ∀ deed ∈ job.deeds s, ¬deed.IsTick) :
    s'.queue.toList = s.queue.toList ++ (job.deeds s).flatMap Deed.queued := by
  cases h with
  | propagated hjob hdeeds hstill => simp [hdeeds, hstill.queue]
  | sent hget hstill => simp [Job.deeds_broadcast hget, Deed.queued, hstill.queue]
  | scheduled hclock => simp [Job.deeds_emitAfter hclock, Deed.queued]
  | ticked => exact absurd trivial (htick _ (List.mem_singleton_self _))
  | driven hrunnable => simp [Job.deeds, Engine.queue_of_makeRunnable hrunnable]
  | batched task tasks => simp [Job.deeds, Deed.queued]
  | _ => simp [Job.deeds]

end

/-! ## Moments and stories -/

section

variable {π κ ω : Type} [Process π] [Condition κ] {m m' start : Moment π κ}

omit [Process π] [Condition κ] in
/-- What is done next is told by the next job. -/
theorem Moment.deeds_of_cons {job : Job} {rest : List Job} (h : m.todo = job :: rest) :
    m.deeds = job.deeds m.engine := by
  rw [Moment.deeds, h]
  rfl

/-- What a step queues and runs, and the shape of what is left to do. -/
theorem Moment.ledger_next (h : Shaped m.todo) (hnext : m.next? = some m') :
    Shaped m'.todo ∧
      m.deeds.flatMap Deed.executed ++ m'.waiting = m.waiting ++ m.deeds.flatMap Deed.queued := by
  obtain ⟨job, rest, htodo, hcases⟩ := next?_cases hnext
  rw [deeds_of_cons htodo, waiting, waiting, htodo]
  rw [htodo] at h
  rcases hcases with ⟨jobs, s', hbegins, rfl⟩ | ⟨stop, s', hfails, rfl⟩
  · exact ⟨h.of_begins hbegins, h.ledger_of_begins hbegins⟩
  · obtain ⟨hdeeds, htasks, hqueue⟩ := hfails.quiet
    refine ⟨.nil, ?_⟩
    simp [hdeeds, htasks, h.tail.queue_unwind, hqueue]

/-- Nothing is taken from the back of the queue but by a tick. -/
theorem Moment.queue_next (h : Shaped m.todo) (hnext : m.next? = some m')
    (htick : ∀ deed ∈ m.deeds, ¬deed.IsTick) :
    m.engine.queue.toList ++ m.deeds.flatMap Deed.queued <:+ m'.engine.queue.toList := by
  obtain ⟨job, rest, htodo, hcases⟩ := next?_cases hnext
  rw [deeds_of_cons htodo] at htick ⊢
  rw [htodo] at h
  rcases hcases with ⟨jobs, s', hbegins, rfl⟩ | ⟨stop, s', hfails, rfl⟩
  · exact (hbegins.queue htick) ▸ List.suffix_refl _
  · obtain ⟨hdeeds, -, hqueue⟩ := hfails.quiet
    show _ <:+ (unwind rest s').queue.toList
    rw [h.tail.queue_unwind, hqueue, hdeeds]
    exact ⟨rest.flatMap Job.tasks, by simp⟩

omit [Process π] [Condition κ] in
/-- A job does one deed at most. -/
theorem Moment.length_deeds_le (m : Moment π κ) : m.deeds.length ≤ 1 := by
  unfold Moment.deeds
  cases m.todo.head? with
  | none => exact Nat.zero_le 1
  | some job =>
    show (job.deeds m.engine).length ≤ 1
    unfold Job.deeds
    split
    · cases m.engine.channels.get? _ <;> simp
    · cases m.engine.clock.schedule? _ _ <;> simp
    all_goals simp

omit [Process π] [Condition κ] in
/-- To let time pass is a drive, or nothing if the time is not representable. -/
theorem Moment.drives_advancing (span : Nat) (s : Engine π κ) :
    ∀ job ∈ (advancing span s).todo, job.IsDrive := by
  unfold advancing
  split
  · exact List.forall_mem_nil _
  · exact List.forall_mem_singleton.2 trivial

/-- Beginning an operation queues nothing and leaves nothing to be run. -/
structure QueuesNothing (begin : ω → Engine π κ → Moment π κ) : Prop where
  shaped : ∀ op s, Shaped (begin op s).todo
  tasks : ∀ op s, (begin op s).todo.flatMap Job.tasks = []
  queue : ∀ op s, (begin op s).engine.queue = s.queue

namespace Story

variable {begin : ω → Engine π κ → Moment π κ} {ops : List ω} {ds : List Deed}

/-- In a story jobs keep their shape. -/
theorem shaped (hbegin : QueuesNothing begin) (hstart : Shaped start.todo)
    (h : Story begin start ops ds m) : Shaped m.todo :=
  h.invariant (P := fun m => Shaped m.todo) hstart (fun _ _ hm hnext => (ledger_next hm hnext).1)
    fun op m _ _ => hbegin.shaped op m.engine

/-- **No task is lost, run twice or overtaken.** The tasks that were run, followed by those that
still wait, are those that waited at the start, followed by those that were queued since. -/
theorem ledger (hbegin : QueuesNothing begin) (hstart : Shaped start.todo)
    (h : Story begin start ops ds m) :
    ds.flatMap Deed.executed ++ m.waiting = start.waiting ++ ds.flatMap Deed.queued := by
  induction h with
  | start => simp
  | @next ops ds m m' h hnext ih =>
    have hstep := (ledger_next (h.shaped hbegin hstart) hnext).2
    rw [List.flatMap_append, List.flatMap_append, List.append_assoc, hstep, ← List.append_assoc, ih,
      List.append_assoc]
  | @begin ops ds m op h hrest ih =>
    rw [← ih, Moment.waiting, Moment.waiting, hbegin.tasks, hbegin.queue, hrest]
    rfl

/-- **What is queued waits for the next tick.** The tasks queued since the last tick began are still
in the queue. -/
theorem queued_since_tick (hbegin : QueuesNothing begin) (hstart : Shaped start.todo)
    (h : Story begin start ops ds m) {before after : List Deed} (hds : ds = before ++ after)
    (htick : ∀ deed ∈ after, ¬deed.IsTick) :
    after.flatMap Deed.queued <:+ m.engine.queue.toList := by
  induction h generalizing before after with
  | start =>
    obtain ⟨-, rfl⟩ := List.append_eq_nil_iff.1 hds.symm
    exact List.nil_suffix
  | @next ops ds m m' h hnext ih =>
    have hshaped := h.shaped hbegin hstart
    rcases List.append_eq_append_iff.1 hds with ⟨earlier, rfl, hdeeds⟩ | ⟨later, rfl, rfl⟩
    -- Nothing before the last deed is counted, if any deed is.
    · have hlength := m.length_deeds_le
      cases after with
      | nil => exact List.nil_suffix
      | cons deed after =>
        obtain rfl : earlier = [] := by
          rw [hdeeds, List.length_append, List.length_cons] at hlength
          exact List.length_eq_zero_iff.1 (by omega)
        rw [List.nil_append] at hdeeds
        rw [← hdeeds] at htick ⊢
        exact (List.suffix_append _ _).trans (queue_next hshaped hnext htick)
    · rw [List.flatMap_append]
      have hsuffix := queue_next hshaped hnext fun deed hdeed =>
        htick deed (List.mem_append_right _ hdeed)
      refine List.IsSuffix.trans ?_ hsuffix
      obtain ⟨older, holder⟩ := ih rfl fun deed hdeed => htick deed (List.mem_append_left _ hdeed)
      exact ⟨older, by rw [← List.append_assoc, holder]⟩
  | @begin ops ds m op h hrest ih =>
    rw [hbegin.queue]
    exact ih hds htick

end Story

end

end Dataflow
