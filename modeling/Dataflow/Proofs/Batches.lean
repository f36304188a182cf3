import Dataflow.Proofs.Broadcasts
import Dataflow.Proofs.Timing

/-!
# Ticks, deed by deed

A tick runs the batch that is there when it begins, and what its tasks put off stays out of it: a send
comes behind everything that is queued, and a timer is pending after the tick even if it was due when
it was set (`ticks_run_batch`).

Running a task is a course of calls alone, whose deeds are sends and requests (`Course.defers`). The
course is the same whatever is to be done after the task (`Course.behind`), so the courses of the tasks
make up that of the batch.
-/

namespace Dataflow

open Moment

/-! ## Timers that are due -/

namespace Clock

variable {τ : Type}

/-- The pending timers that are due. -/
def due (c : Clock τ) : List (Timer τ) := c.pending.filter fun t => t.fireAt ≤ c.now

/-- The pending timers that are not due yet. -/
def late (c : Clock τ) : List (Timer τ) := c.pending.filter fun t => c.now < t.fireAt

/-- What is taken from a clock in order is all that is due. -/
theorem WellFormed.takeDue_eq {c : Clock τ} (h : c.WellFormed) :
    c.takeDue = (c.due.map Timer.task, { c with pending := c.late }) := by
  have hsplit : ∀ ts : List (Timer τ), (ts.Pairwise fun t u => t.before u = true) →
      (ts.takeWhile fun t => t.fireAt ≤ c.now) = (ts.filter fun t => t.fireAt ≤ c.now) ∧
        (ts.dropWhile fun t => t.fireAt ≤ c.now) = ts.filter fun t => c.now < t.fireAt := fun ts hts => by
    induction ts with
    | nil => exact ⟨rfl, rfl⟩
    | cons t ts ih =>
      obtain ⟨hbefore, hts'⟩ := List.pairwise_cons.1 hts
      obtain ⟨htake, hdrop⟩ := ih hts'
      -- The pending timers are in order, so behind one that is not due none is.
      by_cases hdue : t.fireAt ≤ c.now
      · have hlate : ¬c.now < t.fireAt := Nat.not_lt.2 hdue
        simp [hdue, hlate, htake, hdrop]
      · have hlate : ∀ u ∈ t :: ts, c.now < u.fireAt := fun u hu =>
          Nat.lt_of_lt_of_le (Nat.not_le.1 hdue) (le_of_head hts rfl hu)
        rw [List.takeWhile_cons_of_neg (by simpa using hdue),
          List.dropWhile_cons_of_neg (by simpa using hdue)]
        refine ⟨(List.filter_eq_nil_iff.2 fun u hu => ?_).symm,
          (List.filter_eq_self.2 fun u hu => decide_eq_true (hlate u hu)).symm⟩
        simpa using hlate u hu
  obtain ⟨htake, hdrop⟩ := hsplit c.pending h.ordered
  rw [Clock.takeDue, htake, hdrop]
  rfl

end Clock

/-! ## Clocks of event loops -/

section

variable {π κ : Type} [Process π] [Condition κ] {m m' : Moment π κ}

/-- What a step does to the clock is one of the five changes of `times_of_next?`, and each keeps it
well-formed. -/
theorem Moment.clock_wellFormed_next (hshaped : Shaped m.todo) (hnext : m.next? = some m')
    (hclock : m.engine.clock.WellFormed) : m'.engine.clock.WellFormed := by
  cases times_of_next? hshaped hnext with
  | quiet _ _ hsame => exact hsame ▸ hclock
  | scheduled delay slot value clock hschedule _ hsame => exact hsame ▸ hclock.schedule? hschedule
  | emitted _ _ _ hsame => exact hsame ▸ hclock
  | ticked _ hsame => exact hsame ▸ hclock.takeDue
  | moved time _ _ _ _ hsame => exact hsame ▸ hclock.advanceTo time

/-- A clock stays well-formed as long as the jobs to be done are drives and calls in their order. -/
theorem Moment.clock_wellFormed_comes (hshaped : Shaped m.todo) (hcomes : Comes m m')
    (hclock : m.engine.clock.WellFormed) : m'.engine.clock.WellFormed := by
  have hboth : Shaped m'.todo ∧ m'.engine.clock.WellFormed := by
    induction hcomes with
    | refl => exact ⟨hshaped, hclock⟩
    | tail _ hnext ih =>
      exact ⟨(ledger_next ih.1 hnext).1, clock_wellFormed_next ih.1 hnext ih.2⟩
  exact hboth.2

namespace LoopOperation

omit [Process π] [Condition κ] in
/-- Acts that end at once and leave the clock as it is. -/
theorem clock_ended {α : Type} {act : Act π κ α} {s : Engine π κ} (h : Engine.Calm s (act s)) :
    (ended act s).engine.clock = s.clock := by
  unfold ended
  cases hact : act s with
  | ok a s' =>
    rw [hact] at h
    exact Engine.Still.clock h
  | error stop s' =>
    rw [hact] at h
    exact h.1.clock

/-- Before an operation has its jobs done, only scheduling and time that passes come near the clock. -/
theorem clock_wellFormed_begin (op : LoopOperation π κ) {s : Engine π κ} (hclock : s.clock.WellFormed) :
    (op.begin s).engine.clock.WellFormed := by
  cases op with
  | setKind slot kind =>
    show (ended (Engine.setKind slot kind) s).engine.clock.WellFormed
    rw [ended, Engine.setKind, Engine.node?_bind]
    cases s.arena.get? slot <;> exact hclock
  | addListener slot listener =>
    show (ended (discard (Engine.addListener slot listener)) s).engine.clock.WellFormed
    rw [ended_discard, ended, Graph.addListener_eq]
    cases s.arena.get? slot <;> exact hclock
  | schedule delay task =>
    show (ended (wait delay task) s).engine.clock.WellFormed
    rw [ended, wait]
    cases h : s.clock.schedule? delay task with
    | none => exact hclock
    | some clock => exact hclock.schedule? h
  | setState slot value =>
    show (ended (Engine.setState slot value) s).engine.clock.WellFormed
    rwa [clock_ended (Engine.calm_setState value)]
  | evaluateCondition slot input =>
    show (ended (discard (Engine.evaluateCondition slot input)) s).engine.clock.WellFormed
    rwa [ended_discard, clock_ended (Engine.calm_evaluateCondition input)]
  | advanceBy span => exact (congrArg Engine.clock (engine_advancing span s)) ▸ hclock
  | _ => exact hclock

/-- However an event loop is used, its clock stays well-formed. -/
theorem clock_wellFormed_performAll (ops : List (LoopOperation π κ)) {s : Engine π κ}
    (hclock : s.clock.WellFormed) : (performAll s ops).clock.WellFormed := by
  induction ops generalizing s with
  | nil => exact hclock
  | cons op ops ih =>
    exact ih (clock_wellFormed_comes (queuesNothing_begin.shaped op s) (comes_act op s)
      (clock_wellFormed_begin op hclock))

end LoopOperation

end

/-! ## Courses -/

namespace Moment

variable {π κ ω : Type} [Process π] [Condition κ] {m m' m'' : Moment π κ} {ds ds' : List Deed}

/-- The second moment comes after the first one, or is the same, and these deeds are done on the way. -/
inductive Course (m : Moment π κ) : List Deed → Moment π κ → Prop
  | refl : Course m [] m
  | next {ds : List Deed} {m' m'' : Moment π κ} (h : Course m ds m') (hnext : m'.next? = some m'') :
    Course m (ds ++ m'.deeds) m''

namespace Course

/-- One step is a course, and its deeds are those of the moment it starts from. -/
theorem single (hnext : m.next? = some m') : Course m m.deeds m' := Course.refl.next hnext

/-- Courses that meet are one course. -/
theorem trans (h : Course m ds m') (h' : Course m' ds' m'') : Course m (ds ++ ds') m'' := by
  induction h' with
  | refl => rwa [List.append_nil]
  | next _ hnext ih =>
    rw [← List.append_assoc]
    exact ih.next hnext

/-- Whatever comes to pass has its deeds. -/
theorem of_comes (h : Comes m m') : ∃ ds, Course m ds m' := by
  induction h with
  | refl => exact ⟨[], .refl⟩
  | tail _ hnext ih =>
    obtain ⟨ds, h⟩ := ih
    exact ⟨_, h.next hnext⟩

end Course

/-- The moment with more to be done afterwards; when a job has failed, this is given up as well. -/
def behind (rest : List Job) (m : Moment π κ) : Moment π κ :=
  match m.stop? with
  | none => ⟨m.engine, m.todo ++ rest, none⟩
  | some stop => ⟨unwind rest m.engine, [], some stop⟩

/-- A step is the same step with more to be done afterwards, and does the same deeds. A job that fails
takes the rest down with it, however much there is of it. -/
theorem next?_behind (rest : List Job) (hstop : m.stop? = none) (hnext : m.next? = some m') :
    (m.behind rest).next? = some (m'.behind rest) ∧ (m.behind rest).deeds = m.deeds ∧
      (m'.stop? = none ∨ m'.todo = []) := by
  obtain ⟨s, todo, stop?⟩ := m
  obtain rfl : stop? = none := hstop
  cases todo with
  | nil => cases hnext
  | cons job later =>
    unfold next? at hnext
    dsimp only at hnext
    -- The jobs it leads to come before `later`, so `rest` stays behind both.
    cases hstart : job.start s with
    | ok jobs s' =>
      rw [hstart] at hnext
      cases hnext
      have hbehind : (⟨s', jobs ++ later, none⟩ : Moment π κ).behind rest =
          ⟨s', jobs ++ (later ++ rest), none⟩ := by rw [← List.append_assoc, behind]
      exact ⟨(next?_of_ok hstart).trans (congrArg some hbehind.symm), rfl, .inl rfl⟩
    | error stop s' =>
      rw [hstart] at hnext
      cases hnext
      -- Giving up `later ++ rest` is giving up `later` first and then `rest`.
      have hbehind : (⟨unwind later s', [], some stop⟩ : Moment π κ).behind rest =
          ⟨unwind (later ++ rest) s', [], some stop⟩ := by
        rw [behind, unwind, unwind, unwind, List.foldl_append]
      exact ⟨(next?_of_error hstart).trans (congrArg some hbehind.symm), rfl, .inr rfl⟩

/-- What is to be done afterwards changes nothing of a course. -/
theorem Course.behind (rest : List Job) (hstop : m.stop? = none) (h : Course m ds m') :
    Course (m.behind rest) ds (m'.behind rest) := by
  -- No step follows a moment that failed: it has nothing to do. The induction carries this along.
  have hboth : Course (m.behind rest) ds (m'.behind rest) ∧ (m'.stop? = none ∨ m'.todo = []) := by
    induction h with
    | refl => exact ⟨.refl, .inl hstop⟩
    | @next ds m₁ m₂ _ hnext ih =>
      obtain ⟨hcourse, hstop₁ | htodo⟩ := ih
      · obtain ⟨hnext', hdeeds, hstop₂⟩ := next?_behind rest hstop₁ hnext
        exact ⟨hdeeds ▸ hcourse.next hnext', hstop₂⟩
      · rw [next?, htodo] at hnext
        cases hnext
  exact hboth.1

end Moment

/-! ## What is put off -/

namespace Deed

/-- The task that a deed sends. -/
def sends : Deed → List Task
  | .sent task => [task]
  | _ => []

end Deed

/-- From the first engine to the second one no time has passed and no tick has begun, and what these
deeds put off has been queued and scheduled. -/
structure Engine.Defers {π κ : Type} (s : Engine π κ) (ds : List Deed) (s' : Engine π κ) : Prop where
  queue : s'.queue.toList = s.queue.toList ++ ds.flatMap Deed.sends
  now : s'.clock.now = s.clock.now
  pending : s'.clock.pending.Perm (s.clock.pending ++ ds.flatMap Deed.requests)
  wellFormed : s.clock.WellFormed → s'.clock.WellFormed

namespace Engine.Defers

variable {π κ : Type} {s s' s'' : Engine π κ} {ds ds' : List Deed}

/-- Deeds that put nothing off leave the queue and the clock as they are. -/
theorem of_eq (hsends : ds.flatMap Deed.sends = []) (hrequests : ds.flatMap Deed.requests = [])
    (hqueue : s'.queue = s.queue) (hclock : s'.clock = s.clock) : s.Defers ds s' where
  queue := by rw [hqueue, hsends, List.append_nil]
  now := by rw [hclock]
  pending := by rw [hclock, hrequests, List.append_nil]
  wellFormed h := hclock ▸ h

theorem refl (s : Engine π κ) : s.Defers [] s := of_eq rfl rfl rfl rfl

/-- What is put off first is queued first. -/
theorem trans (h : s.Defers ds s') (h' : s'.Defers ds' s'') : s.Defers (ds ++ ds') s'' where
  queue := by rw [h'.queue, h.queue, List.flatMap_append, List.append_assoc]
  now := h'.now.trans h.now
  pending := by
    rw [List.flatMap_append, ← List.append_assoc]
    exact h'.pending.trans (h.pending.append_right _)
  wellFormed hclock := h'.wellFormed (h.wellFormed hclock)

/-- Scheduling puts off the timer it asks for, whatever the delay, and queues nothing. -/
theorem of_schedule {delay : Nat} {slot : SlotId} {value : Value} {clock : Clock Task}
    (hclock : s.clock.schedule? delay (.emit slot value) = some clock) :
    s.Defers [.requested ⟨s.clock.now + delay, s.clock.scheduled, .emit slot value⟩]
      { s with clock } := by
  have hwell : s.clock.WellFormed → clock.WellFormed := fun h => h.schedule? hclock
  obtain ⟨-, rfl⟩ := Clock.schedule?_eq_some_iff.1 hclock
  exact ⟨(List.append_nil _).symm, rfl,
    (Clock.insert_perm _ _).trans (List.perm_append_singleton _ _).symm, hwell⟩

end Engine.Defers

section

variable {π κ : Type} {s s' : Engine π κ} {job : Job} {jobs : List Job}

/-- A call puts off what its deeds say, and leads to calls. -/
theorem Job.Begins.defers (hjob : job.IsCall) (h : job.Begins s jobs s') :
    s.Defers (job.deeds s) s' ∧ (job.deeds s).flatMap Deed.executed = [] ∧ ∀ j ∈ jobs, j.IsCall := by
  cases h with
  | entered =>
    exact ⟨.of_eq rfl rfl rfl rfl, rfl,
      List.forall_mem_cons.2 ⟨trivial, List.forall_mem_singleton.2 trivial⟩⟩
  | left => exact ⟨.of_eq rfl rfl rfl rfl, rfl, List.forall_mem_nil _⟩
  | propagated hprop hdeeds hstill hjobs =>
    rw [hdeeds]
    exact ⟨.of_eq rfl rfl hstill.queue hstill.clock, rfl, fun j hj => (hjobs j hj).isCall⟩
  -- A send is the one call that queues, and `emitAfter` the one that asks for a timer.
  | sent hget hstill =>
    rw [Job.deeds_broadcast hget]
    refine ⟨⟨?_, ?_, ?_, ?_⟩, rfl, List.forall_mem_nil _⟩
    · rw [Array.toList_push, hstill.queue]
      rfl
    · exact congrArg Clock.now hstill.clock
    · exact .of_eq (by rw [hstill.clock]; exact (List.append_nil _).symm)
    · exact fun h => hstill.clock ▸ h
  | scheduled hclock =>
    rw [Job.deeds_emitAfter hclock]
    exact ⟨.of_schedule hclock, rfl, List.forall_mem_nil _⟩
  | _ => exact hjob.elim

/-- A call that fails has put nothing off. -/
theorem Job.Fails.defers {stop : Stop} (hjob : job.IsCall) (h : job.Fails s stop s') :
    s.Defers (job.deeds s) s' ∧ job.deeds s = [] := by
  obtain ⟨hdeeds, -, hqueue⟩ := h.quiet
  have hclock : s'.clock = s.clock := by
    cases h with
    | tooDeep => rfl
    | propagated _ _ hstill => exact hstill.clock
    | exhausted => exact hjob.elim
  exact ⟨.of_eq (hdeeds ▸ rfl) (hdeeds ▸ rfl) hqueue hclock, hdeeds⟩

/-- Calls that are given up leave the queue and the clock as they are. -/
theorem Engine.Defers.unwind {todo : List Job} (hcalls : ∀ job ∈ todo, job.IsCall) (s : Engine π κ) :
    s.Defers [] (Moment.unwind todo s) := by
  induction todo generalizing s with
  | nil => exact .refl s
  | cons job todo ih =>
    obtain ⟨hjob, htodo⟩ := List.forall_mem_cons.1 hcalls
    have hgiveUp : (job.giveUp s).queue = s.queue ∧ (job.giveUp s).clock = s.clock := by
      -- A call that was in progress is left, which takes its input off and nothing else.
      cases job <;> first | exact ⟨rfl, rfl⟩ | exact hjob.elim
    have hdefers : s.Defers [] (job.giveUp s) := of_eq rfl rfl hgiveUp.1 hgiveUp.2
    exact hdefers.trans (ih htodo (job.giveUp s))

variable [Process π] [Condition κ]

/-- A course of calls runs no task, and puts off what its deeds say. -/
theorem Moment.Course.defers {m m' : Moment π κ} {ds : List Deed} (hcalls : ∀ job ∈ m.todo, job.IsCall)
    (h : Course m ds m') :
    m.engine.Defers ds m'.engine ∧ ds.flatMap Deed.executed = [] ∧ ∀ job ∈ m'.todo, job.IsCall := by
  induction h with
  | refl => exact ⟨.refl _, rfl, hcalls⟩
  | @next ds m₁ m₂ _ hnext ih =>
    obtain ⟨hdefers, hran, hcalls₁⟩ := ih
    obtain ⟨job, rest, htodo, hcases⟩ := next?_cases hnext
    rw [htodo] at hcalls₁
    obtain ⟨hjob, hrest⟩ := List.forall_mem_cons.1 hcalls₁
    rw [deeds_of_cons htodo, List.flatMap_append, hran, List.nil_append]
    -- A call that fails gives the rest up, and that puts nothing off either.
    rcases hcases with ⟨jobs, s', hbegins, rfl⟩ | ⟨stop, s', hfails, rfl⟩
    · obtain ⟨hstep, hran', hjobs⟩ := hbegins.defers hjob
      exact ⟨hdefers.trans hstep, hran', List.forall_mem_append.2 ⟨hjobs, hrest⟩⟩
    · obtain ⟨hstep, hdeeds⟩ := hfails.defers hjob
      refine ⟨?_, hdeeds ▸ rfl, List.forall_mem_nil _⟩
      have hgone := (hdefers.trans hstep).trans (.unwind hrest s')
      rwa [List.append_nil] at hgone

end

/-! ## The batch -/

namespace Engine

variable {π κ α : Type} [Process π] [Condition κ] {s : Engine π κ}

/-- What running a batch comes to. The tasks are run in order, up to the first that stops early, and
those behind it go back to the front of the queue. -/
inductive Consumes (s : Engine π κ) (batch : List Task) (ds : List Deed) (answer : α) :
    EStateM.Result Stop (Engine π κ) α → Prop
  | all {s' : Engine π κ} (hruns : batch.forM runTask s = .ok () s')
    (hran : ds.flatMap Deed.executed = batch) (hdefers : s.Defers ds s') :
    Consumes s batch ds answer (.ok answer s')
  | upTo {done later : List Task} {task : Task} {stop : Stop} {s₁ s₂ : Engine π κ}
    (hbatch : batch = done ++ task :: later) (hruns : done.forM runTask s = .ok () s₁)
    (hstops : runTask task s₁ = .error stop s₂) (hran : ds.flatMap Deed.executed = done ++ [task])
    (hdefers : s.Defers ds s₂) :
    Consumes s batch ds answer (.error stop { s₂ with queue := later.toArray ++ s₂.queue })

/-- One more task is run before the batch. -/
theorem Consumes.cons {task : Task} {later : List Task} {ds ds' : List Deed} {answer : α} {s₁ : Engine π κ}
    {result : EStateM.Result Stop (Engine π κ) α} (hrun : runTask task s = .ok () s₁)
    (hran : ds.flatMap Deed.executed = [task]) (hdefers : s.Defers ds s₁)
    (h : Consumes s₁ later ds' answer result) : Consumes s (task :: later) (ds ++ ds') answer result := by
  have hexecuted : (ds ++ ds').flatMap Deed.executed = task :: ds'.flatMap Deed.executed := by
    rw [List.flatMap_append, hran]
    rfl
  cases h with
  | all hruns hran' hlater =>
    exact .all ((bind_of_ok hrun).trans hruns) (hexecuted.trans (congrArg _ hran')) (hdefers.trans hlater)
  | @upTo done rest last _ _ _ hbatch hruns hstops hran' hlater =>
    have hsplit : task :: later = (task :: done) ++ last :: rest := congrArg _ hbatch
    exact .upTo hsplit ((bind_of_ok hrun).trans hruns) hstops
      (hexecuted.trans (congrArg _ hran')) (hdefers.trans hlater)

/-- The course of a task, whatever is to be done after it. -/
theorem course_runTask (task : Task) (s : Engine π κ) :
    ∃ ds, ds.flatMap Deed.executed = [] ∧ match runTask task s with
      | .ok _ s' => s.Defers ds s' ∧ ∀ rest, Course ⟨s, task.jobs ++ rest, none⟩ ds ⟨s', rest, none⟩
      | .error stop s' => s.Defers ds s' ∧
        ∀ rest, Course ⟨s, task.jobs ++ rest, none⟩ ds ⟨unwind rest s', [], some stop⟩ := by
  obtain ⟨ds, hcourse⟩ := Course.of_comes (unfolds_runTask task s).comes
  obtain ⟨hdefers, hran, -⟩ := hcourse.defers task.isCall_jobs
  refine ⟨ds, hran, ?_⟩
  cases hrun : runTask task s with
  | ok _ s' =>
    rw [ended, hrun] at hcourse hdefers
    exact ⟨hdefers, fun rest => hcourse.behind rest rfl⟩
  | error stop s' =>
    rw [ended, hrun] at hcourse hdefers
    exact ⟨hdefers, fun rest => hcourse.behind rest rfl⟩

/-- The courses of the tasks, one behind the other, are the course of the batch. -/
theorem course_runBatch (tasks : List Task) (s : Engine π κ) :
    ∃ ds, Course ⟨s, [.batch tasks], none⟩ ds (ended (runBatch tasks) s) ∧
      Consumes s tasks ds () (runBatch tasks s) := by
  induction tasks generalizing s with
  | nil =>
    have hnext : (⟨s, [.batch []], none⟩ : Moment π κ).next? = some ⟨s, [], none⟩ := rfl
    exact ⟨[], .single hnext, .all rfl rfl (.refl s)⟩
  | cons task later ih =>
    -- Running the task is the first of the deeds, before the task does anything.
    have hbegins : Course ⟨s, [.batch (task :: later)], none⟩ [.ran task s.clock.now]
        ⟨s, task.jobs ++ [.batch later], none⟩ := by
      have hstart : (Job.batch (task :: later)).start s = .ok (task.jobs ++ [.batch later]) s := rfl
      have hnext : next? ⟨s, [.batch (task :: later)], none⟩ = _ := next?_of_ok hstart
      rw [List.append_nil] at hnext
      exact .single hnext
    have hbegun : s.Defers [.ran task s.clock.now] s := .of_eq rfl rfl rfl rfl
    obtain ⟨ds, hran, htask⟩ := course_runTask task s
    unfold ended runBatch
    -- The batch goes on from a task that succeeds, and ends with one that fails.
    cases hrun : runTask task s with
    | ok _ s₁ =>
      rw [hrun] at htask
      obtain ⟨hdefers, hcourse⟩ := htask
      obtain ⟨ds', hcourse', hconsumes⟩ := ih s₁
      refine ⟨[Deed.ran task s.clock.now] ++ ds ++ ds', (hbegins.trans (hcourse _)).trans hcourse', ?_⟩
      refine hconsumes.cons hrun ?_ (hbegun.trans hdefers)
      rw [List.flatMap_append, hran]
      rfl
    | error stop s₂ =>
      rw [hrun] at htask
      obtain ⟨hdefers, hcourse⟩ := htask
      refine ⟨[Deed.ran task s.clock.now] ++ ds, hbegins.trans (hcourse _), ?_⟩
      have hexecuted : ([Deed.ran task s.clock.now] ++ ds).flatMap Deed.executed = [] ++ [task] := by
        rw [List.flatMap_append, hran]
        rfl
      exact .upTo rfl rfl hrun hexecuted (hbegun.trans hdefers)

/-! ## The tick -/

omit [Process π] [Condition κ] in
/-- What a tick is to run: what is queued, and behind it the tasks of the timers that are due. -/
def batch (s : Engine π κ) : List Task := s.queue.toList ++ s.clock.due.map Timer.task

/-- The engine from which a tick runs its batch. -/
def atBatch (s : Engine π κ) : Engine π κ :=
  { s with clock := { s.clock with pending := s.clock.late }, queue := #[] }

omit [Process π] [Condition κ] in
/-- An engine is runnable exactly if a tick would have something to run. -/
theorem isRunnable_iff (hclock : s.clock.WellFormed) : s.isRunnable = true ↔ s.batch ≠ [] := by
  have hdue : s.clock.due = [] ↔
      ∀ timer, s.clock.pending.head? = some timer → s.clock.now < timer.fireAt := by
    rw [Clock.due, List.filter_eq_nil_iff]
    constructor
    · intro hlate timer hhead
      simpa using hlate timer (List.mem_of_head? hhead)
    · intro hlate timer htimer
      obtain ⟨first, hfirst⟩ := Option.isSome_iff_exists.1
        (List.isSome_head?.2 (List.ne_nil_of_mem htimer))
      have hle := Clock.le_of_head hclock.ordered hfirst htimer
      simpa using Nat.lt_of_lt_of_le (hlate first hfirst) hle
  rw [← Bool.not_eq_false, isRunnable_eq_false_iff, ← hdue, batch]
  simp [Array.toList_eq_nil_iff]

omit [Process π] [Condition κ] in
/-- The tasks that a tick takes are its batch. -/
theorem batch_eq (hclock : s.clock.WellFormed) : (s.queue ++ s.clock.takeDue.1).toList = s.batch := by
  rw [hclock.takeDue_eq, Array.toList_appendList]
  rfl

omit [Process π] [Condition κ] in
/-- With its batch taken out, the engine is what the tick runs it on. -/
theorem atBatch_eq (hclock : s.clock.WellFormed) :
    ({ s with clock := s.clock.takeDue.2, queue := #[] } : Engine π κ) = s.atBatch := by
  rw [hclock.takeDue_eq]
  rfl

/-- The course of a tick is that of its batch. -/
theorem course_tick (hclock : s.clock.WellFormed) :
    ∃ ds, Course ⟨s, [.tick], none⟩ (.ticked (s.clock.due.map Timer.task) :: ds) (ended tick s) ∧
      Consumes s.atBatch s.batch ds s.batch.length (tick s) := by
  obtain ⟨ds, hcourse, hconsumes⟩ := course_runBatch s.batch s.atBatch
  have hbegins : Course ⟨s, [.tick], none⟩ [.ticked (s.clock.due.map Timer.task)]
      ⟨s.atBatch, [.batch s.batch], none⟩ := by
    have hstart : Job.tick.start s = .ok [.batch s.batch] s.atBatch := by
      rw [← batch_eq hclock, ← atBatch_eq hclock]
      rfl
    have hdeeds : (⟨s, [.tick], none⟩ : Moment π κ).deeds = [.ticked (s.clock.due.map Timer.task)] := by
      rw [deeds_of_cons rfl, Job.deeds, hclock.takeDue_eq]
    exact hdeeds ▸ .single (next?_of_ok hstart)
  have htick : tick s = (runBatch s.batch >>= fun _ => pure s.batch.length) s.atBatch := by
    rw [tick_eq, batch_eq hclock, atBatch_eq hclock]
  refine ⟨ds, hbegins.trans ?_, ?_⟩
  · rwa [← ended_map (runBatch s.batch) (fun _ => s.batch.length), ended, ← htick] at hcourse
  -- Counting the batch changes neither the engine nor the failure, so the tick consumes what its batch
  -- does.
  · rw [htick]
    cases hrun : runBatch s.batch s.atBatch with
    | ok _ s' =>
      rw [hrun] at hconsumes
      rw [bind_of_ok hrun]
      cases hconsumes with
      | all hruns hran hdefers => exact .all hruns hran hdefers
    | error stop s' =>
      rw [hrun] at hconsumes
      rw [bind_of_error hrun]
      cases hconsumes with
      | upTo hbatch hruns hstops hran hdefers => exact .upTo hbatch hruns hstops hran hdefers

/-- What is known of the tick that begins with this engine, given the deeds done after its beginning. -/
structure TickTold (s : Engine π κ) (ds : List Deed) : Prop where
  /-- The timers that are due are queued first, and then these deeds are done up to the end of the tick,
  be it early. -/
  course : Course ⟨s, [.tick], none⟩ (.ticked (s.clock.due.map Timer.task) :: ds) (ended tick s)
  /-- When no task fails, the batch was run in order, each task of it once, and what is queued then is
  what was sent, in order. -/
  whole : ∀ count s', tick s = .ok count s' →
    count = s.batch.length ∧ s.batch.forM runTask s.atBatch = .ok () s' ∧
      ds.flatMap Deed.executed = s.batch ∧ s'.queue.toList = ds.flatMap Deed.sends
  /-- When a task fails, those before it and itself were run, and what is queued then are those behind it,
  followed by what was sent. -/
  broken : ∀ stop s', tick s = .error stop s' →
    ∃ done task later s₁ s₂, s.batch = done ++ task :: later ∧
      done.forM runTask s.atBatch = .ok () s₁ ∧ runTask task s₁ = .error stop s₂ ∧
      ds.flatMap Deed.executed = done ++ [task] ∧
      s' = { s₂ with queue := later.toArray ++ s₂.queue } ∧
      s'.queue.toList = later ++ ds.flatMap Deed.sends
  /-- Either way, the pending timers are those that were not due and those set during the tick, whatever
  their delay. -/
  pending : (ended tick s).engine.clock.pending.Perm (s.clock.late ++ ds.flatMap Deed.requests)
  now : (ended tick s).engine.clock.now = s.clock.now
  wellFormed : (ended tick s).engine.clock.WellFormed

/-- **A tick runs the batch that is there when it begins**, up to the first task that fails, and nothing
else. What its tasks send stays in the queue behind the tasks that were not run, and what they put off
stays on the clock. A tick has something to run exactly if the engine is runnable. -/
theorem ticks_run_batch (hclock : s.clock.WellFormed) :
    (s.isRunnable = true ↔ s.batch ≠ []) ∧ ∃ ds, s.TickTold ds := by
  obtain ⟨ds, hcourse, hconsumes⟩ := course_tick hclock
  have hwell : s.atBatch.clock.WellFormed := atBatch_eq hclock ▸ hclock.takeDue
  refine ⟨isRunnable_iff hclock, ds, ?_⟩
  cases htick : tick s with
  | ok count s' =>
    rw [htick] at hconsumes
    cases hconsumes with
    | all hruns hran hdefers =>
      have hended : ended tick s = ⟨s', [], none⟩ := by rw [ended, htick]
      refine ⟨hcourse, fun count' s'' h => ?_, fun stop s'' h => ?_, ?_, ?_, ?_⟩
      · cases htick.symm.trans h
        exact ⟨rfl, hruns, hran, hdefers.queue⟩
      · cases htick.symm.trans h
      · exact hended ▸ hdefers.pending
      · exact hended ▸ hdefers.now
      · exact hended ▸ hdefers.wellFormed hwell
  | error stop s' =>
    rw [htick] at hconsumes
    cases hconsumes with
    | @upTo done later task _ s₁ s₂ hbatch hruns hstops hran hdefers =>
      have hended : ended tick s = ⟨{ s₂ with queue := later.toArray ++ s₂.queue }, [], some stop⟩ := by
        rw [ended, htick]
      -- The tasks behind the one that failed go back in front of what was sent meanwhile.
      refine ⟨hcourse, fun count s'' h => ?_, fun stop' s'' h => ?_, ?_, ?_, ?_⟩
      · cases htick.symm.trans h
      · cases htick.symm.trans h
        refine ⟨done, task, later, s₁, s₂, hbatch, hruns, hstops, hran, rfl, ?_⟩
        rw [Array.toList_append, hdefers.queue]
        rfl
      · exact hended ▸ hdefers.pending
      · exact hended ▸ hdefers.now
      · exact hended ▸ hdefers.wellFormed hwell

/-- A leaf that puts off every input by nothing, and is given one again by what it then sends. -/
def rearmed : Engine Script Test :=
  LoopOperation.performAll (.initial {})
    [.createChannel "again", .alloc (.process "later" ⟨[.emitAfter 0 .input]⟩) [.broadcast ⟨0⟩],
      .listen ⟨0⟩ [.input ⟨0, 0⟩], .send ⟨0⟩ .unit, .schedule 0 (.emit ⟨0, 0⟩ .unit)]

/-- A tick runs the broadcast and the timer that are there. The timer that is set meanwhile is due, and
is pending after the tick, as the value that is sent is queued. -/
theorem ticks_run_batch_rearmed :
    rearmed.clock.WellFormed ∧ rearmed.batch.length = 2 ∧ rearmed.isRunnable = true ∧
      (∃ ds, rearmed.TickTold ds) ∧ ∃ s', tick rearmed = .ok 2 s' ∧ s'.queue.size = 1 ∧
        s'.clock.due.length = 1 := by
  have hclock : rearmed.clock.WellFormed := LoopOperation.clock_wellFormed_performAll _ .initial
  obtain ⟨hrunnable, htold⟩ := ticks_run_batch hclock
  have hlength : rearmed.batch.length = 2 := by decide +kernel
  have hrun : (match tick rearmed with
      | .ok count s' => some (count, s'.queue.size, s'.clock.due.length)
      | .error _ _ => none) = some (2, 1, 1) := by decide +kernel
  refine ⟨hclock, hlength, hrunnable.2 fun h => ?_, htold, ?_⟩
  · rw [h] at hlength
    cases hlength
  · cases h : tick rearmed with
    | error stop s' =>
      rw [h] at hrun
      cases hrun
    | ok count s' =>
      rw [h] at hrun
      obtain ⟨rfl, hcounts⟩ := Prod.mk.inj (Option.some.inj hrun)
      obtain ⟨hqueue, hdue⟩ := Prod.mk.inj hcounts
      exact ⟨s', rfl, hqueue, hdue⟩

end Engine

end Dataflow
