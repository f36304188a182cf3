import Dataflow.Engine.Propagation

/-!
# Driving the engine

A tick moves the timers that are due into the queue and then runs exactly the tasks that are queued
at that point; what they send waits for the next tick. A drive ticks while anything is runnable, and
when nothing is, it moves the time to the next deadline as far as its horizon allows. Every tick of
a drive is paid from one budget.
-/

namespace Dataflow.Engine

variable {π κ : Type}

/-- Whether a tick would do anything at the current time. -/
def isRunnable (s : Engine π κ) : Bool :=
  !s.queue.isEmpty || s.clock.nextDeadline?.any (· ≤ s.clock.now)

/-- Whether anything is queued or waits for a timer. -/
def isPending (s : Engine π κ) : Bool := !s.queue.isEmpty || s.clock.hasPending

/-- Moves the timers due now into the queue, in firing order. -/
def moveDue : Act π κ Unit :=
  modify fun s =>
    let (due, clock) := s.clock.takeDue
    { s with clock, queue := s.queue ++ due }

variable [Process π] [Condition κ]

/-- Runs a task. -/
def runTask : Task → Act π κ Unit
  | .deliver _ listeners value => listeners.forM fun listener => deliver listener value
  | .emit slot value => setOutput slot value

/-- Runs tasks in order. When one stops early, those behind it go back to the front of the queue. -/
def runBatch : List Task → Act π κ Unit
  | [] => return ()
  | task :: rest => fun s =>
    match runTask task s with
    | .ok _ s => runBatch rest s
    | .error stop s => .error stop { s with queue := rest.toArray ++ s.queue }

/-- Runs one tick. Returns the number of tasks run. -/
def tick : Act π κ Nat := do
  moveDue
  let batch ← modifyGet fun s => (s.queue.toList, { s with queue := #[] })
  runBatch batch
  return batch.length

/-- How far a drive may move the time. -/
inductive Horizon where
  /-- Not at all. -/
  | now
  | upTo (time : Nat)
  | unbounded
  deriving Repr, DecidableEq

/-- Whether the horizon allows moving to a point in time. -/
def Horizon.allows : Horizon → Nat → Bool
  | .now, _ => false
  | .upTo time, deadline => deadline ≤ time
  | .unbounded, _ => true

/-- Makes something runnable, moving the time if need be and allowed. Returns whether anything is.
-/
def makeRunnable (horizon : Horizon) : Act π κ Bool := do
  let s ← get
  if s.isRunnable then return true
  match s.clock.nextDeadline? with
  | some deadline =>
    if horizon.allows deadline then
      set { s with clock := s.clock.advanceTo deadline }
      return true
    else return false
  | none => return false

/-- Ticks while anything within the horizon is runnable. Returns what is left of the budget. -/
def drive (horizon : Horizon) : Nat → Act π κ Nat
  | 0 => do
    if ← makeRunnable horizon then fail (.tickBudgetExhausted (← get).config.maxTicks)
    else return 0
  | budget + 1 => do
    if ← makeRunnable horizon then
      discard tick
      drive horizon budget
    else return budget + 1

/-- Drives with the configured budget. Returns the number of ticks run. -/
def driveAll (horizon : Horizon) : Act π κ Nat := do
  let budget := (← get).config.maxTicks
  let left ← drive horizon budget
  return budget - left

/-- Ticks until nothing is runnable at the current time. Returns the number of ticks run. -/
def runUntilIdle : Act π κ Nat := driveAll .now

/-- Lets time pass: timers fire in the order of deadlines, each one's work done before the next. -/
def advanceBy (span : Nat) : Act π κ Unit := do
  match Duration.add? (← get).clock.now span with
  | none => throw .timeOverflow
  | some target =>
    discard (driveAll (.upTo target))
    modify fun s => { s with clock := s.clock.advanceTo target }

/-- Runs until nothing is queued and no timer is pending, moving the time to each deadline. -/
def settle : Act π κ Unit := discard (driveAll .unbounded)

omit [Process π] [Condition κ] in
/-- Frees every node and forgets channels, tasks and timers. Returns the number of nodes freed. -/
def teardown : Act π κ Nat := do
  let slots := (← get).arena.slots
  modify fun s =>
    { s with
      arena := slots.foldl Arena.release s.arena
      channels := .empty
      queue := #[]
      clock := s.clock.clear }
  return slots.length

end Dataflow.Engine
