import Dataflow.Proofs.Agenda
import Dataflow.Proofs.Batches
import Dataflow.Proofs.Logs

/-!
# Ticks that pop their tasks

A tick takes its batch out of the queue, and what it did not run goes back to the front. It could as well
count the tasks that are queued when it begins, and pop so many from the queue, each when its turn comes.
The tasks still to come then stand in front of all that is sent, but no call looks at them
(`oblivious_runTask`). So the tick leaves the same engine either way, whether a task stops it or not
(`tick_eq_popTick`).
-/

namespace Dataflow

open Moment

variable {π κ : Type}

namespace Engine

/-- Pops the timers that are due at a time, one after the other, and queues their tasks. So many are
popped at most. -/
def queueDue (time : Nat) : Nat → Act π κ Unit
  | 0 => return ()
  | count + 1 => do
    let s ← get
    match s.clock.popDue time with
    | (some task, clock) =>
      set { s with clock, queue := s.queue.push task }
      queueDue time count
    | (none, _) => return ()

variable [Process π] [Condition κ]

/-- Pops a task from the queue and runs it, so many times or until nothing is queued. -/
def runQueued : Nat → Act π κ Unit
  | 0 => return ()
  | count + 1 => do
    let s ← get
    match s.queue.toList with
    | task :: later =>
      set { s with queue := later.toArray }
      runTask task
      runQueued count
    | [] => return ()

/-- A tick that pops the timers that are due, at most so many, and then as many tasks as are queued. -/
def popTick (timers : Nat) : Act π κ Nat := do
  queueDue (← get).clock.now timers
  let batch := (← get).queue.size
  runQueued batch
  return batch

end Engine

/-! ## Tasks that stand in front -/

section

variable [Process π] [Condition κ] {m m' : Moment π κ}

/-- What comes of calls is the same whatever tasks stand in front of the queue. -/
theorem Moment.comes_following (tasks : Array Task) (past : Logs) (hcalls : ∀ job ∈ m.todo, job.IsCall)
    (hcomes : Comes m m') :
    Comes (m.changed (Engine.following tasks past)) (m'.changed (Engine.following tasks past)) := by
  induction hcomes with
  | refl => exact .refl
  | @tail m₁ m₂ hbefore hnext ih =>
    -- Calls lead to calls, so no task is taken out of the queue and none is put back.
    obtain ⟨ds, hcourse⟩ := Course.of_comes hbefore
    have hcalls₁ : ∀ job ∈ m₁.todo, job.IsCall := (hcourse.defers hcalls).2.2
    refine ih.tail (next?_changed (fun job hjob => Job.start_following (hcalls₁ job hjob))
      (fun job hjob s => ?_) hnext)
    have hcall := hcalls₁ job hjob
    cases job <;> first | rfl | exact hcall.elim

/-- A task runs alike whatever tasks stand in front of the queue, and leaves them there. -/
theorem Engine.oblivious_runTask (tasks : Array Task) (past : Logs) (task : Task) :
    Oblivious (following tasks past) (runTask task : Act π κ Unit) := by
  intro s
  have hended : ended (runTask task) (s.following tasks past) =
      (ended (runTask task) s).changed (following tasks past) :=
    eq_of_comes (unfolds_runTask task _).comes
      (comes_following tasks past task.isCall_jobs (unfolds_runTask task s).comes)
      (ended_todo ..) (ended_todo (runTask task) s)
  have hchanged : (ended (runTask task) s).changed (following tasks past) =
      ended (fun s => resultChanged (following tasks past) (runTask task s)) s := by
    unfold ended
    dsimp only
    cases runTask task s <;> rfl
  exact act_eq_of_ended (hended.trans hchanged)

end

/-! ## The tick -/

namespace Engine

/-- With no past, only the queue is another one. -/
theorem following_nothing (tasks : Array Task) (s : Engine π κ) :
    s.following tasks {} = { s with queue := tasks ++ s.queue } := by
  simp [following, after]

/-- All timers that are due are queued at once, behind what is queued. -/
theorem moveDue_eq (s : Engine π κ) :
    moveDue s =
      .ok () { s with clock := s.clock.takeDue.2, queue := s.queue ++ s.clock.takeDue.1 } := rfl

/-- When no timer is due, nothing moves. -/
theorem moveDue_of_nothing {s : Engine π κ} (hnothing : s.clock.takeDue = ([], s.clock)) :
    moveDue s = .ok () s := by
  rw [moveDue_eq, hnothing, Array.appendList_nil]

/-- To pop what is due until nothing is due is to move all that is due. -/
theorem queueDue_eq_moveDue {count : Nat} {s : Engine π κ} (hcount : s.clock.pending.length ≤ count) :
    queueDue s.clock.now count s = moveDue s := by
  induction count generalizing s with
  | zero =>
    have hpending : s.clock.pending = [] := List.eq_nil_of_length_eq_zero (Nat.le_zero.1 hcount)
    have hpop : s.clock.popDue s.clock.now = (none, s.clock) := by rw [Clock.popDue, hpending]
    have hnothing := s.clock.takeDue_eq_popDue
    rw [hpop] at hnothing
    exact (moveDue_of_nothing hnothing).symm
  | succ count ih =>
    have htake := s.clock.takeDue_eq_popDue
    rw [queueDue, get_bind]
    rcases hpop : s.clock.popDue s.clock.now with ⟨task?, clock⟩
    rw [hpop] at htake
    cases task? with
    | none => exact (moveDue_of_nothing htake).symm
    | some task =>
      obtain ⟨t, rest, hpending, hdue, rfl, rfl⟩ := Clock.popDue_eq_some_iff.1 hpop
      -- The timer is due already, so to pop it takes no time.
      have hnow : max s.clock.now t.fireAt = s.clock.now := Nat.max_eq_left hdue
      have hrest : rest.length ≤ count := by
        rw [hpending] at hcount
        exact Nat.le_of_succ_le_succ hcount
      show queueDue s.clock.now count
        { s with
          clock := { s.clock with now := max s.clock.now t.fireAt, pending := rest }
          queue := s.queue.push t.task } = _
      rw [hnow] at htake ⊢
      rw [moveDue_eq, htake, Array.appendList_cons]
      let popped : Engine π κ :=
        { s with clock := { s.clock with pending := rest }, queue := s.queue.push t.task }
      have hlater : queueDue popped.clock.now count popped = moveDue popped := ih hrest
      exact hlater

variable [Process π] [Condition κ]

/-- The task in front is taken out of the queue before it runs. -/
theorem runQueued_of_cons {count : Nat} {task : Task} {later : List Task} {s : Engine π κ}
    (hqueue : s.queue.toList = task :: later) :
    runQueued (count + 1) s =
      (runTask task >>= fun _ => runQueued count) { s with queue := later.toArray } := by
  rw [runQueued, get_bind, hqueue]
  rfl

/-- To pop as many tasks as stand in front, each when its turn comes, is to run them as a batch. -/
theorem runQueued_eq_runBatch (tasks : List Task) (s : Engine π κ) :
    runQueued tasks.length (s.following tasks.toArray {}) = runBatch tasks s := by
  induction tasks generalizing s with
  | nil =>
    rw [following_nothing, Array.empty_append]
    rfl
  | cons task later ih =>
    have hqueue : (s.following (task :: later).toArray {}).queue.toList =
        task :: (later ++ s.queue.toList) := by simp [following]
    have hpopped : { s.following (task :: later).toArray {} with
        queue := (later ++ s.queue.toList).toArray } = s.following later.toArray {} := by
      simp [following]
    -- The task runs as if those behind it were not in the queue, and they are when it is their turn.
    have hrun := oblivious_runTask later.toArray {} task s
    rw [List.length_cons, runQueued_of_cons hqueue, hpopped]
    unfold runBatch
    cases htask : runTask task s with
    | ok a s' =>
      rw [htask] at hrun
      rw [bind_of_ok hrun]
      exact ih s'
    | error stop s' =>
      rw [htask] at hrun
      rw [bind_of_error hrun, following_nothing]

/-- **A tick pops its tasks from the queue as it is when their turn comes**: the timers that are due one by
one, and then as many tasks as are queued at that point. Nothing that a task sends is among them. -/
theorem tick_eq_popTick {s : Engine π κ} {timers : Nat} (htimers : s.clock.pending.length ≤ timers) :
    tick s = popTick timers s := by
  let batch := s.queue ++ s.clock.takeDue.1
  let begun : Engine π κ := { s with clock := s.clock.takeDue.2, queue := #[] }
  have hmoved : queueDue s.clock.now timers s = .ok () (begun.following batch.toList.toArray {}) := by
    rw [queueDue_eq_moveDue htimers, moveDue_eq, following_nothing, Array.append_empty]
  have hsize : (begun.following batch.toList.toArray {}).queue.size = batch.toList.length := by
    simp [following, begun]
  have hruns := runQueued_eq_runBatch batch.toList begun
  rw [popTick, get_bind, bind_of_ok hmoved, get_bind, hsize, tick_eq]
  cases hbatch : runBatch batch.toList begun with
  | ok _ s' => rw [bind_of_ok hbatch, bind_of_ok (hruns.trans hbatch)]
  | error stop s' => rw [bind_of_error hbatch, bind_of_error (hruns.trans hbatch)]

end Engine

end Dataflow
