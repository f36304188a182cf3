import Dataflow.Leaf.Script
import Dataflow.Proofs.Ledger
import Dataflow.Proofs.Wired

/-!
# Time and work

The time passes only when nothing is queued and no timer is due, so it passes over no work. The
timers that were ever set come, in the order in which they fire, in three parts: those whose values
were sent out, each at its own time; those whose values wait in the queue or in the tick in
progress, which are due; and the pending ones, none of which is overdue. `Moment.Times` says what a
job can do to time and timers; that the three parts account for all timers (`OnTime`) follows from
it job by job, whatever fails.
-/

namespace Dataflow

open Moment

/-! ## Timers in deeds -/

/-- Whether a task sends out a value that was put off. -/
def Task.isEmit : Task → Bool
  | .emit .. => true
  | .deliver .. => false

namespace Deed

/-- The timer that a deed sets. -/
def requests : Deed → List (Timer Task)
  | .requested timer => [timer]
  | _ => []

/-- The value that a deed sends out after it was put off, as a task, and the time. -/
def emitted : Deed → List (Task × Nat)
  | .ran (.emit slot value) time => [(.emit slot value, time)]
  | _ => []

end Deed

/-! ## What a step does to time and timers -/

section

variable {π κ ω : Type} [Process π] [Condition κ] {m m' start : Moment π κ}

/-- What one step does to the time, to the timers and to the values that were put off and still
wait. -/
inductive Moment.Times (m m' : Moment π κ) : Prop
  | quiet (hrequests : m.deeds.flatMap Deed.requests = [])
    (hemitted : m.deeds.flatMap Deed.emitted = []) (hclock : m'.engine.clock = m.engine.clock)
    (hwaiting : m'.waiting.filter Task.isEmit = m.waiting.filter Task.isEmit)
  | scheduled (delay : Nat) (slot : SlotId) (value : Value) (clock : Clock Task)
    (hclock : m.engine.clock.schedule? delay (.emit slot value) = some clock)
    (hdeeds : m.deeds = [.requested
      ⟨m.engine.clock.now + delay, m.engine.clock.scheduled, .emit slot value⟩])
    (hclock' : m'.engine.clock = clock) (hwaiting : m'.waiting = m.waiting)
  | emitted (slot : SlotId) (value : Value)
    (hdeeds : m.deeds = [.ran (.emit slot value) m.engine.clock.now])
    (hclock : m'.engine.clock = m.engine.clock) (hwaiting : m.waiting = .emit slot value :: m'.waiting)
  | ticked (hdeeds : m.deeds = [.ticked m.engine.clock.takeDue.1])
    (hclock : m'.engine.clock = m.engine.clock.takeDue.2)
    (hwaiting : m'.waiting = m.waiting ++ m.engine.clock.takeDue.1)
  | moved (time : Nat) (hdeeds : m.deeds = []) (hdrives : ∀ job ∈ m.todo, job.IsDrive)
    (hidle : m.engine.isRunnable = false)
    (hfirst : ∀ timer, m.engine.clock.pending.head? = some timer → time ≤ timer.fireAt)
    (hclock : m'.engine.clock = m.engine.clock.advanceTo time) (hwaiting : m'.waiting = m.waiting)

namespace Moment

omit [Process π] [Condition κ] in
/-- A step without deeds that leaves the time as it is. -/
theorem Times.of_still (hdeeds : m.deeds = []) (hclock : m'.engine.clock = m.engine.clock)
    (hwaiting : m'.waiting = m.waiting) : m.Times m' :=
  .quiet (hdeeds ▸ rfl) (hdeeds ▸ rfl) hclock (hwaiting ▸ rfl)

omit [Process π] [Condition κ] in
/-- A drive that makes something runnable. -/
theorem Times.of_makeRunnable {horizon : Engine.Horizon} {s' : Engine π κ} (hdeeds : m.deeds = [])
    (hdrives : ∀ job ∈ m.todo, job.IsDrive) (h : Engine.makeRunnable horizon m.engine = .ok true s')
    (hclock : m'.engine.clock = s'.clock) (hwaiting : m'.waiting = m.waiting) : m.Times m' := by
  cases Engine.makesRunnable_of_eq h with
  | already => exact .of_still hdeeds hclock hwaiting
  | moved timer hidle hhead =>
    refine .moved timer.fireAt hdeeds hdrives hidle (fun first hfirst => ?_) hclock hwaiting
    exact Nat.le_of_eq (congrArg Timer.fireAt (Option.some.inj (hhead.symm.trans hfirst)))

omit [Process π] [Condition κ] in
/-- A drive that is over, at the end of which time may pass. -/
theorem Times.of_rested {horizon : Engine.Horizon} (hdeeds : m.deeds = [])
    (hdrives : ∀ job ∈ m.todo, job.IsDrive)
    (h : Engine.makeRunnable horizon m.engine = .ok false m.engine)
    (hclock : m'.engine.clock = horizon.finish m.engine.clock) (hwaiting : m'.waiting = m.waiting) :
    m.Times m' := by
  obtain ⟨hidle, hbeyond⟩ := Engine.idle_of_eq h
  cases horizon with
  | upTo time =>
    refine .moved time hdeeds hdrives hidle (fun timer hhead => ?_) hclock hwaiting
    have hallows := hbeyond timer hhead
    rw [Engine.Horizon.allows, decide_eq_false_iff_not] at hallows
    omega
  | _ => exact .of_still hdeeds hclock hwaiting

/-- What a step does to the clock and to what waits is one of five things. -/
theorem times_of_next? (hshaped : Shaped m.todo) (hnext : m.next? = some m') : m.Times m' := by
  have hledger := (ledger_next hshaped hnext).2
  obtain ⟨job, rest, htodo, hcases⟩ := next?_cases hnext
  have hdeeds := deeds_of_cons htodo
  -- A job without deeds neither queues nor runs anything.
  have hsame : job.deeds m.engine = [] → m'.waiting = m.waiting := fun hnone => by
    rw [hdeeds, hnone, List.flatMap_nil, List.flatMap_nil, List.append_nil] at hledger
    exact hledger
  have hdrives : job.IsDrive → ∀ j ∈ m.todo, j.IsDrive := fun hjob => by
    rw [htodo] at hshaped ⊢
    exact List.forall_mem_cons.2 ⟨hjob, hshaped.drives fun hcall => hcall.not_isDrive hjob⟩
  rcases hcases with ⟨jobs, s', hbegins, rfl⟩ | ⟨stop, s', hfails, rfl⟩
  · cases hbegins with
    | entered => exact .of_still hdeeds rfl (hsame rfl)
    | left => exact .of_still hdeeds rfl (hsame rfl)
    | emptied => exact .of_still hdeeds rfl (hsame rfl)
    | propagated hjob hnone hstill => exact .of_still (hdeeds.trans hnone) hstill.clock (hsame hnone)
    | sent hget hstill =>
      rw [Job.deeds_broadcast hget] at hdeeds
      refine .quiet (hdeeds ▸ rfl) (hdeeds ▸ rfl) hstill.clock ?_
      rw [hdeeds] at hledger
      refine (congrArg (List.filter Task.isEmit) hledger).trans ?_
      rw [List.filter_append]
      exact List.append_nil _
    | scheduled hclock =>
      rw [Job.deeds_emitAfter hclock] at hdeeds
      rw [hdeeds] at hledger
      exact .scheduled _ _ _ _ hclock hdeeds rfl (hledger.trans (List.append_nil _))
    | batched task tasks =>
      rw [hdeeds] at hledger
      have hwaiting : task :: _ = m.waiting := hledger.trans (List.append_nil _)
      cases task with
      | emit slot value => exact .emitted slot value hdeeds rfl hwaiting.symm
      | deliver id listeners value =>
        refine .quiet (hdeeds ▸ rfl) (hdeeds ▸ rfl) rfl ?_
        rw [← hwaiting]
        rfl
    | ticked =>
      rw [hdeeds] at hledger
      exact .ticked hdeeds rfl (hledger.trans (congrArg (m.waiting ++ ·) (List.append_nil _)))
    | driven hrunnable => exact .of_makeRunnable hdeeds (hdrives trivial) hrunnable rfl (hsame rfl)
    | rested hrunnable => exact .of_rested hdeeds (hdrives trivial) hrunnable rfl (hsame rfl)
  · have hclock := clock_unwind rest s'
    cases hfails with
    | tooDeep => exact .of_still hdeeds hclock (hsame rfl)
    | propagated hjob hnone hstill =>
      exact .of_still (hdeeds.trans hnone) (hclock.trans hstill.clock) (hsame hnone)
    | exhausted hrunnable =>
      exact .of_makeRunnable hdeeds (hdrives trivial) hrunnable hclock (hsame rfl)

omit [Process π] [Condition κ] in
/-- The time stays, or it passes between ticks while nothing is runnable. -/
theorem Times.stays_or_passes (h : m.Times m') :
    m'.engine.clock.now = m.engine.clock.now ∨
      m.engine.clock.now ≤ m'.engine.clock.now ∧ (∀ job ∈ m.todo, job.IsDrive) ∧
        m.engine.isRunnable = false := by
  cases h with
  | quiet _ _ hclock => exact .inl (congrArg Clock.now hclock)
  | scheduled delay slot value clock hclock _ hclock' =>
    obtain ⟨-, rfl⟩ := Clock.schedule?_eq_some_iff.1 hclock
    have hnow := congrArg Clock.now hclock'
    exact .inl hnow
  | emitted _ _ _ hclock => exact .inl (congrArg Clock.now hclock)
  | ticked _ hclock =>
    have hnow := congrArg Clock.now hclock
    exact .inl hnow
  | moved time _ hdrives hidle _ hclock =>
    rw [hclock]
    exact .inr ⟨Nat.le_max_left _ _, hdrives, hidle⟩

end Moment

/-! ## The account of all timers -/

/-- The timers set since the start, in three parts: those whose values were sent out, those whose
values are to be sent out in this or the next tick, and the pending ones. -/
structure OnTime (ds : List Deed) (m : Moment π κ) (fired queued : List (Timer Task)) : Prop where
  /-- Every timer that was set is in one of the parts, once. -/
  account : (fired ++ queued ++ m.engine.clock.pending).Perm (ds.flatMap Deed.requests)
  /-- An earlier deadline comes before a later one, and of one deadline the timer that was set first. -/
  ordered : (fired ++ queued ++ m.engine.clock.pending).Pairwise fun t u => t.before u = true
  /-- Timers are told apart by the order in which they were set. -/
  numbered : (ds.flatMap Deed.requests).map Timer.sequence = List.range m.engine.clock.scheduled
  emits : ∀ timer ∈ ds.flatMap Deed.requests, timer.task.isEmit = true
  /-- What was sent out is what the first part asks for, in order, each value at its deadline. -/
  emitted : ds.flatMap Deed.emitted = fired.map fun timer => (timer.task, timer.fireAt)
  /-- What is to be sent out next is what the second part asks for, in order. -/
  waiting : m.waiting.filter Task.isEmit = queued.map Timer.task
  past : ∀ timer ∈ fired, timer.fireAt ≤ m.engine.clock.now
  due : ∀ timer ∈ queued, timer.fireAt = m.engine.clock.now
  pending : ∀ timer ∈ m.engine.clock.pending, m.engine.clock.now ≤ timer.fireAt

namespace OnTime

variable {ds new : List Deed} {fired queued : List (Timer Task)} (h : OnTime ds m fired queued)

include h

omit [Process π] [Condition κ]

/-- Timers set so far have smaller numbers than the next one. -/
theorem sequence_lt {timer : Timer Task} (htimer : timer ∈ ds.flatMap Deed.requests) :
    timer.sequence < m.engine.clock.scheduled := by
  rw [← List.mem_range, ← h.numbered]
  exact List.mem_map_of_mem htimer

/-- Timers are set for values to be sent out, and for nothing else. -/
theorem isEmit {timer : Timer Task} (htimer : timer ∈ fired ++ queued ++ m.engine.clock.pending) :
    timer.task.isEmit = true := h.emits timer (h.account.mem_iff.1 htimer)

/-- The pending timers are in order, so what is not beyond the first deadline is beyond none. -/
theorem le_of_head {time : Nat}
    (hfirst : ∀ timer, m.engine.clock.pending.head? = some timer → time ≤ timer.fireAt) :
    ∀ timer ∈ m.engine.clock.pending, time ≤ timer.fireAt := by
  obtain ⟨-, hordered, -⟩ := List.pairwise_append.1 h.ordered
  intro timer htimer
  obtain ⟨first, hfirst'⟩ := Option.isSome_iff_exists.1
    (List.isSome_head?.2 (List.ne_nil_of_mem htimer))
  exact Nat.le_trans (hfirst first hfirst') (Clock.le_of_head hordered hfirst' htimer)

/-- Nothing has happened to the timers. -/
theorem of_quiet (hrequests : new.flatMap Deed.requests = []) (hemitted : new.flatMap Deed.emitted = [])
    (hclock : m'.engine.clock = m.engine.clock)
    (hwaiting : m'.waiting.filter Task.isEmit = m.waiting.filter Task.isEmit) :
    OnTime (ds ++ new) m' fired queued := by
  have hrequests' : (ds ++ new).flatMap Deed.requests = ds.flatMap Deed.requests := by
    rw [List.flatMap_append, hrequests, List.append_nil]
  have hemitted' : (ds ++ new).flatMap Deed.emitted = ds.flatMap Deed.emitted := by
    rw [List.flatMap_append, hemitted, List.append_nil]
  obtain ⟨account, ordered, numbered, emits, emitted, waiting, past, due, pending⟩ := h
  rw [← hclock] at account ordered numbered past due pending
  rw [← hrequests'] at account numbered emits
  exact ⟨account, ordered, numbered, emits, hemitted'.trans emitted, hwaiting.trans waiting, past, due,
    pending⟩

/-- A timer has been set. -/
theorem of_scheduled {delay : Nat} {slot : SlotId} {value : Value} {clock : Clock Task}
    (hclock : m.engine.clock.schedule? delay (.emit slot value) = some clock)
    (hclock' : m'.engine.clock = clock) (hwaiting : m'.waiting = m.waiting) :
    OnTime (ds ++ [.requested
      ⟨m.engine.clock.now + delay, m.engine.clock.scheduled, .emit slot value⟩]) m' fired queued := by
  obtain ⟨-, rfl⟩ := Clock.schedule?_eq_some_iff.1 hclock
  let timer : Timer Task := ⟨m.engine.clock.now + delay, m.engine.clock.scheduled, .emit slot value⟩
  have hpending : m'.engine.clock.pending = Clock.insert timer m.engine.clock.pending := by rw [hclock']
  have hnow : m'.engine.clock.now = m.engine.clock.now := by rw [hclock']
  have hrequests : (ds ++ [Deed.requested timer]).flatMap Deed.requests =
      ds.flatMap Deed.requests ++ [timer] := List.flatMap_append
  have hperm := Clock.insert_perm timer m.engine.clock.pending
  obtain ⟨hfirst, hordered, hbefore⟩ := List.pairwise_append.1 h.ordered
  -- What is due or overdue fires before the new timer, which has the highest number.
  have hearlier : ∀ t ∈ fired ++ queued, t.before timer = true := fun t ht => by
    have hsequence := h.sequence_lt (h.account.mem_iff.1 (List.mem_append_left _ ht))
    have hfireAt : t.fireAt ≤ m.engine.clock.now := by
      rcases List.mem_append.1 ht with ht | ht
      · exact h.past t ht
      · exact Nat.le_of_eq (h.due t ht)
    rw [Timer.before_iff]
    show t.fireAt < m.engine.clock.now + delay ∨
      t.fireAt = m.engine.clock.now + delay ∧ t.sequence < m.engine.clock.scheduled
    omega
  refine ⟨?_, ?_, ?_, ?_, ?_, ?_, ?_, ?_, ?_⟩
  · rw [hpending, hrequests]
    exact (hperm.append_left _).trans (List.perm_middle.trans
      ((h.account.cons timer).trans (List.perm_append_singleton timer _).symm))
  · rw [hpending]
    refine List.pairwise_append.2 ⟨hfirst, Clock.pairwise_insert hordered fun t ht => ?_,
      fun t ht u hu => ?_⟩
    · exact Nat.ne_of_lt (h.sequence_lt (h.account.mem_iff.1 (List.mem_append_right _ ht)))
    · rcases Clock.mem_insert.1 hu with rfl | hu
      · exact hearlier t ht
      · exact hbefore t ht u hu
  · rw [hrequests, List.map_append, h.numbered, hclock']
    exact List.range_succ.symm
  · rw [hrequests]
    exact List.forall_mem_append.2 ⟨h.emits, List.forall_mem_singleton.2 rfl⟩
  · rw [List.flatMap_append, h.emitted]
    exact List.append_nil _
  · rw [hwaiting, h.waiting]
  · rw [hnow]
    exact h.past
  · rw [hnow]
    exact h.due
  · rw [hpending, hnow]
    intro t ht
    rcases Clock.mem_insert.1 ht with rfl | ht
    · exact Nat.le_add_right _ _
    · exact h.pending t ht

/-- A value that was put off has been sent out: that of the first timer that is due. -/
theorem of_emitted {slot : SlotId} {value : Value} (hclock : m'.engine.clock = m.engine.clock)
    (hwaiting : m.waiting = .emit slot value :: m'.waiting) :
    ∃ fired' queued',
      OnTime (ds ++ [.ran (.emit slot value) m.engine.clock.now]) m' fired' queued' := by
  -- The timers that are queued stand in the order of their tasks, so the first of them is the one sent
  -- out.
  have hqueued : queued.map Timer.task = .emit slot value :: m'.waiting.filter Task.isEmit := by
    rw [← h.waiting, hwaiting]
    rfl
  obtain ⟨timer, queued', rfl, htask, hrest⟩ := List.map_eq_cons_iff.1 hqueued
  have htime := h.due timer (List.mem_cons_self ..)
  have hparts : fired ++ [timer] ++ queued' ++ m.engine.clock.pending =
      fired ++ timer :: queued' ++ m.engine.clock.pending := by simp
  have hrequests : (ds ++ [Deed.ran (.emit slot value) m.engine.clock.now]).flatMap Deed.requests =
      ds.flatMap Deed.requests := List.flatMap_append.trans (List.append_nil _)
  refine ⟨fired ++ [timer], queued', ?_, ?_, ?_, ?_, ?_, hrest.symm, ?_, ?_, ?_⟩
  · rw [hclock, hparts, hrequests]
    exact h.account
  · rw [hclock, hparts]
    exact h.ordered
  · rw [hclock, hrequests]
    exact h.numbered
  · rw [hrequests]
    exact h.emits
  · rw [List.flatMap_append, h.emitted, List.map_append, List.map_singleton, htask, htime]
    rfl
  · rw [hclock]
    exact List.forall_mem_append.2 ⟨h.past, List.forall_mem_singleton.2 (Nat.le_of_eq htime)⟩
  · rw [hclock]
    exact fun t ht => h.due t (List.mem_cons_of_mem _ ht)
  · rw [hclock]
    exact h.pending

/-- The timers that were due have been queued. -/
theorem of_ticked (hclock : m'.engine.clock = m.engine.clock.takeDue.2)
    (hwaiting : m'.waiting = m.waiting ++ m.engine.clock.takeDue.1) :
    ∃ queued', OnTime (ds ++ [.ticked m.engine.clock.takeDue.1]) m' fired queued' := by
  let isDue : Timer Task → Bool := fun t => t.fireAt ≤ m.engine.clock.now
  have hpending : m'.engine.clock.pending = m.engine.clock.pending.dropWhile isDue := by
    rw [hclock]
    rfl
  have hnow : m'.engine.clock.now = m.engine.clock.now := by
    rw [hclock]
    rfl
  have hscheduled : m'.engine.clock.scheduled = m.engine.clock.scheduled := by
    rw [hclock]
    rfl
  have hsplit := List.takeWhile_append_dropWhile (p := isDue) (l := m.engine.clock.pending)
  have hparts : fired ++ (queued ++ m.engine.clock.pending.takeWhile isDue) ++
      m'.engine.clock.pending = fired ++ queued ++ m.engine.clock.pending := by
    rw [hpending, ← List.append_assoc, List.append_assoc, hsplit]
  have hrequests : (ds ++ [Deed.ticked m.engine.clock.takeDue.1]).flatMap Deed.requests =
      ds.flatMap Deed.requests := List.flatMap_append.trans (List.append_nil _)
  have htaken : ∀ t ∈ m.engine.clock.pending.takeWhile isDue, t ∈ m.engine.clock.pending :=
    fun t ht => (List.takeWhile_sublist isDue).subset ht
  -- The timers that are due move from the clock to the end of the queue; all together they stay as they
  -- are.
  refine ⟨queued ++ m.engine.clock.pending.takeWhile isDue, ?_, ?_, ?_, ?_, ?_, ?_, ?_, ?_, ?_⟩
  · rw [hparts, hrequests]
    exact h.account
  · rw [hparts]
    exact h.ordered
  · rw [hrequests, hscheduled]
    exact h.numbered
  · rw [hrequests]
    exact h.emits
  · rw [List.flatMap_append, h.emitted]
    exact List.append_nil _
  · have hemits : ∀ task ∈ m.engine.clock.takeDue.1, task.isEmit = true := fun task htask => by
      obtain ⟨t, ht, rfl⟩ := List.mem_map.1 htask
      exact h.isEmit (List.mem_append_right _ (htaken t ht))
    rw [hwaiting, List.filter_append, h.waiting, List.filter_eq_self.2 hemits, List.map_append]
    rfl
  · rw [hnow]
    exact h.past
  · rw [hnow]
    refine List.forall_mem_append.2 ⟨h.due, fun t ht => ?_⟩
    have hle : t.fireAt ≤ m.engine.clock.now :=
      of_decide_eq_true (List.all_eq_true.1 List.all_takeWhile t ht)
    exact Nat.le_antisymm hle (h.pending t (htaken t ht))
  · rw [hnow, hpending]
    exact fun t ht => h.pending t ((List.dropWhile_sublist isDue).subset ht)

/-- Time has passed, while nothing waited, no further than to the first deadline. -/
theorem of_moved {time : Nat} (hidle : m.waiting = [])
    (hfirst : ∀ timer, m.engine.clock.pending.head? = some timer → time ≤ timer.fireAt)
    (hclock : m'.engine.clock = m.engine.clock.advanceTo time) (hwaiting : m'.waiting = m.waiting) :
    OnTime ds m' fired queued := by
  -- Nothing waits, so no timer is queued, and none is made late by the time that passes.
  obtain rfl : queued = [] := by
    have hwaits := h.waiting
    rw [hidle] at hwaits
    exact List.map_eq_nil_iff.1 hwaits.symm
  have hpending : m'.engine.clock.pending = m.engine.clock.pending := by
    rw [hclock]
    rfl
  have hnow : m'.engine.clock.now = max m.engine.clock.now time := by
    rw [hclock]
    rfl
  have hscheduled : m'.engine.clock.scheduled = m.engine.clock.scheduled := by
    rw [hclock]
    rfl
  refine ⟨?_, ?_, ?_, h.emits, h.emitted, ?_, ?_, List.forall_mem_nil _, ?_⟩
  · rw [hpending]
    exact h.account
  · rw [hpending]
    exact h.ordered
  · rw [hscheduled]
    exact h.numbered
  · rw [hwaiting, h.waiting]
  · rw [hnow]
    exact fun t ht => Nat.le_trans (h.past t ht) (Nat.le_max_left _ _)
  · rw [hnow, hpending]
    exact fun t ht => Nat.max_le.2 ⟨h.pending t ht, h.le_of_head hfirst t ht⟩

end OnTime

namespace Moment

omit [Process π] [Condition κ] in
/-- Nothing waits between ticks when nothing is runnable. -/
theorem waiting_of_idle (hdrives : ∀ job ∈ m.todo, job.IsDrive) (hidle : m.engine.isRunnable = false) :
    m.waiting = [] := by
  rw [waiting, Shaped.tasks_of_drives hdrives, (Engine.isRunnable_eq_false_iff.1 hidle).1]
  rfl

end Moment

namespace OnTime

variable {ds : List Deed} {fired queued : List (Timer Task)}

/-- Every step keeps the account of timers. -/
theorem next (h : OnTime ds m fired queued) (hshaped : Shaped m.todo) (hnext : m.next? = some m') :
    ∃ fired' queued', OnTime (ds ++ m.deeds) m' fired' queued' := by
  cases times_of_next? hshaped hnext with
  | quiet hrequests hemitted hclock hwaiting =>
    exact ⟨fired, queued, h.of_quiet hrequests hemitted hclock hwaiting⟩
  | scheduled delay slot value clock hclock hdeeds hclock' hwaiting =>
    rw [hdeeds]
    exact ⟨fired, queued, h.of_scheduled hclock hclock' hwaiting⟩
  | emitted slot value hdeeds hclock hwaiting =>
    rw [hdeeds]
    exact h.of_emitted hclock hwaiting
  | ticked hdeeds hclock hwaiting =>
    rw [hdeeds]
    exact ⟨fired, h.of_ticked hclock hwaiting⟩
  | moved time hdeeds hdrives hidle hfirst hclock hwaiting =>
    rw [hdeeds, List.append_nil]
    exact ⟨fired, queued, h.of_moved (waiting_of_idle hdrives hidle) hfirst hclock hwaiting⟩

/-- The account is kept all through a story. -/
theorem of_story {begin : ω → Engine π κ → Moment π κ} {ops : List ω} (hbegin : QueuesNothing begin)
    (hclock : ∀ op s, (begin op s).engine.clock = s.clock) (hshaped : Shaped start.todo)
    (hstart : OnTime [] start [] []) (h : Story begin start ops ds m) :
    ∃ fired queued, OnTime ds m fired queued := by
  induction h with
  | start => exact ⟨[], [], hstart⟩
  | next h hnext ih =>
    obtain ⟨fired, queued, hm⟩ := ih
    exact hm.next (h.shaped hbegin hshaped) hnext
  | @begin ops ds m op h hrest ih =>
    obtain ⟨fired, queued, hm⟩ := ih
    have hwaiting : (begin op m.engine).waiting = m.waiting := by
      rw [Moment.waiting, Moment.waiting, hbegin.tasks, hbegin.queue, hrest]
      rfl
    have hquiet : OnTime (ds ++ []) (begin op m.engine) fired queued :=
      hm.of_quiet rfl rfl (hclock op m.engine) (hwaiting ▸ rfl)
    rw [List.append_nil] at hquiet
    exact ⟨fired, queued, hquiet⟩

end OnTime

/-! ## Moments of a graph -/

/-- What is known of time and timers at a moment, after the deeds done since the start. -/
structure Timely (ds : List Deed) (m : Moment π κ) : Prop where
  /-- The timers set so far are those whose values were sent out, each at its own time, those whose
  values are queued or in the tick in progress, which are due, and the pending ones, none of which
  is overdue. In this order they fire, those of one deadline in the order in which they were set. -/
  account : ∃ fired queued, OnTime ds m fired queued
  /-- The time does not go back, and it passes only between ticks, when nothing waits and no timer
  is due. -/
  moves : ∀ m', m.next? = some m' → m.engine.clock.now ≤ m'.engine.clock.now ∧
    (m.engine.clock.now < m'.engine.clock.now → (∀ job ∈ m.todo, job.IsDrive) ∧ m.waiting = [] ∧
      ∀ timer ∈ m.engine.clock.pending, m.engine.clock.now < timer.fireAt)
  /-- Putting a value off sets a timer for the time of then and the delay. -/
  requests : ∀ slot delay value rest, m.todo = .carryOut slot (.emitAfter delay value) :: rest →
    m.engine.clock.now + delay < Duration.limit →
    m.deeds = [.requested
      ⟨m.engine.clock.now + delay, m.engine.clock.scheduled, .emit slot value⟩]
  /-- When the task of a timer is run, its value is sent out at once. -/
  sends : ∀ slot value tasks rest, m.todo = .batch (.emit slot value :: tasks) :: rest →
    m.deeds = [.ran (.emit slot value) m.engine.clock.now] ∧
      m.next? = some ⟨m.engine, .carryOut slot (.emit value) :: .batch tasks :: rest, none⟩

/-- What is known of time at a moment follows from its account. -/
theorem Timely.of_onTime {ds : List Deed} {fired queued : List (Timer Task)}
    (h : OnTime ds m fired queued) (hshaped : Shaped m.todo) : Timely ds m where
  account := ⟨fired, queued, h⟩
  moves m' hnext := by
    rcases (times_of_next? hshaped hnext).stays_or_passes with hstays | ⟨hle, hdrives, hidle⟩
    · exact ⟨Nat.le_of_eq hstays.symm, fun hlt => absurd hstays.symm (Nat.ne_of_lt hlt)⟩
    · obtain ⟨-, hlate⟩ := Engine.isRunnable_eq_false_iff.1 hidle
      exact ⟨hle, fun _ => ⟨hdrives, waiting_of_idle hdrives hidle, h.le_of_head hlate⟩⟩
  requests slot delay value rest htodo hlimit := by
    rw [deeds_of_cons htodo]
    exact Job.deeds_emitAfter (Clock.schedule?_eq_some_iff.2 ⟨hlimit, rfl⟩)
  sends slot value tasks rest htodo := by
    refine ⟨deeds_of_cons htodo, ?_⟩
    obtain ⟨s, todo, stop?⟩ := m
    obtain rfl : todo = _ := htodo
    rfl

end

namespace Graph

variable {π κ : Type}

/-- Operations queue nothing by themselves as they begin. -/
theorem queuesNothing_begin [Process π] [Condition κ] (root : SlotId) :
    QueuesNothing (begin root : Operation → Engine π κ → Moment π κ) where
  shaped op s := by
    cases op with
    | advanceBy span => exact .of_drives (drives_advancing span s)
    | _ => first
      | exact List.pairwise_singleton _ _
      | exact (ended_todo _ s).symm ▸ .nil
  tasks op s := by
    cases op with
    | advanceBy span => exact Shaped.tasks_of_drives (drives_advancing span s)
    | _ => first
      | rfl
      | exact (ended_todo _ s).symm ▸ rfl
  queue op s := by
    cases op with
    | advanceBy span => exact congrArg Engine.queue (engine_advancing span s)
    | tap slot =>
      rw [begin, ended, tap, addListener_eq]
      cases s.arena.get? slot <;> rfl
    | _ => rfl

/-- No time passes when an operation begins. -/
theorem clock_begin [Process π] [Condition κ] (root : SlotId) (op : Operation) (s : Engine π κ) :
    (begin root op s).engine.clock = s.clock := by
  cases op with
  | advanceBy span => exact congrArg Engine.clock (engine_advancing span s)
  | tap slot =>
    rw [begin, ended, tap, addListener_eq]
    cases s.arena.get? slot <;> rfl
  | _ => rfl

/-- Activation begins with nothing but calls to do. -/
theorem shaped_activation (config : Config) (wired : Plan.Wired π κ) :
    Shaped (activation config wired).todo := by
  refine List.pairwise_map.2 (List.pairwise_of_forall fun _ _ => .inl trivial)

/-- Activation begins with no timer set. -/
theorem onTime_activation (config : Config) (wired : Plan.Wired π κ) :
    OnTime [] (activation config wired) [] [] := by
  have hcalls : ∀ job ∈ (activation config wired).todo, job.IsCall := fun job hjob => by
    obtain ⟨slot, -, rfl⟩ := List.mem_map.1 hjob
    trivial
  have hwaiting : (activation config wired).waiting = [] := by
    rw [Moment.waiting, Shaped.tasks_of_calls hcalls]
    rfl
  exact ⟨.refl _, .nil, rfl, List.forall_mem_nil _, rfl, hwaiting ▸ rfl, List.forall_mem_nil _,
    List.forall_mem_nil _, List.forall_mem_nil _⟩

variable [Process π] [Condition κ] {registry : Registry π κ} {spec : SpecNode}

/-- **Time passes over no work.** From the activation of a built graph on, and in every history,
whatever fails on the way, no pending timer is overdue, the time passes only when nothing waits and
no timer is due, and a value that was put off is sent out once at most, and then at its time and in
its turn. The moments are those of the graph: each history is told by a story, and beginning an
operation moves no time. -/
theorem delayed_values_on_time {config : Config} {root : SlotId} {scope : Scope}
    {wired : Plan.Wired π κ} (hassemble : assemble registry spec = .ok (root, scope, wired)) :
    (∀ ops ds m, Story (begin root) (activation config wired) ops ds m → Timely ds m) ∧
      (∀ op (s : Engine π κ), (begin root op s).engine.clock = s.clock) ∧
      ∀ g, build registry config spec = .ok g → ∀ ops, ∃ ds m,
        Story (begin root) (activation config wired) ops ds m ∧ m.todo = [] ∧
          m.engine = (g.operateAll ops).2.engine := by
  refine ⟨fun ops ds m h => ?_, clock_begin root, fun g hbuild ops =>
    (story_of_build hassemble hbuild ops).1⟩
  have hbegin : QueuesNothing (begin root : Operation → Engine π κ → Moment π κ) :=
    queuesNothing_begin root
  have hshaped := shaped_activation config wired
  obtain ⟨fired, queued, hm⟩ :=
    OnTime.of_story hbegin (clock_begin root) hshaped (onTime_activation config wired) h
  exact .of_onTime hm (h.shaped hbegin hshaped)

end Graph

/-- A registry of one kind of leaf, which sends every input on five nanoseconds later. -/
def Registry.echo : Registry Script Test :=
  empty.extend "echo" (Blueprint.process ⟨[.emitAfter 5 .input]⟩).factory (by decide)

namespace Graph

/-- An echo after three and four nanoseconds: the first input was sent on at its time, the second
one is still to be. -/
theorem delayed_values_on_time_in_echo :
    ∃ (g : Graph Script Test) (wired : Plan.Wired Script Test) (ds : List Deed)
        (m : Moment Script Test),
      let ops : List Operation := [.push .unit, .advanceBy 3, .push (.bool true), .advanceBy 4]
      build Registry.echo {} ⟨"echo", []⟩ = .ok g ∧
        Story (begin g.root) (activation {} wired) ops ds m ∧
        m.engine = (g.operateAll ops).2.engine ∧ m.engine.clock.now = 7 ∧
        m.engine.clock.pending.map Timer.fireAt = [8] ∧ Timely ds m := by
  have hrun : (build Registry.echo {} ⟨"echo", []⟩).toOption.map (fun g =>
      let after := g.operateAll [.push .unit, .advanceBy 3, .push (.bool true), .advanceBy 4]
      (after.2.engine.clock.now, after.2.engine.clock.pending.map Timer.fireAt)) =
        some (7, [8]) := by decide +kernel
  cases h : build Registry.echo {} ⟨"echo", []⟩ with
  | error stop =>
    rw [h] at hrun
    cases hrun
  | ok g =>
    rw [h] at hrun
    obtain ⟨hnow, hpending⟩ := Prod.mk.inj (Option.some.inj hrun)
    obtain ⟨wired, hassemble, -⟩ := build_eq_ok_iff.1 h
    obtain ⟨htimely, -, hstory⟩ := delayed_values_on_time hassemble
    obtain ⟨ds, m, hm, -, hengine⟩ :=
      hstory g h [.push .unit, .advanceBy 3, .push (.bool true), .advanceBy 4]
    rw [← hengine] at hnow hpending
    exact ⟨g, wired, ds, m, rfl, hm, hengine, hnow, hpending, htimely _ _ _ hm⟩

end Graph

end Dataflow
