import Dataflow.Duration

/-!
# The clock

Virtual time moves only when it is told to, and never back. Timers wait on the clock in the order of
their deadlines, those of one deadline in the order in which they were scheduled. Points and spans
of time are in nanoseconds.
-/

namespace Dataflow

/-- A task that waits for a point in time. -/
structure Timer (τ : Type) where
  /-- The deadline. -/
  fireAt : Nat
  /-- The number of timers scheduled before. -/
  sequence : Nat
  task : τ
  deriving Repr, DecidableEq

/-- Whether the first timer fires before the second. -/
def Timer.before {τ : Type} (t u : Timer τ) : Bool :=
  t.fireAt < u.fireAt || t.fireAt = u.fireAt && t.sequence < u.sequence

/-- The time, the number of timers scheduled so far, and the pending ones in firing order. -/
structure Clock (τ : Type) where
  now : Nat
  scheduled : Nat
  pending : List (Timer τ)
  deriving Repr, DecidableEq

namespace Clock

variable {τ : Type}

/-- The clock at the start of time. -/
def initial : Clock τ := ⟨0, 0, []⟩

instance : Inhabited (Clock τ) := ⟨initial⟩

/-- Puts a timer behind those that fire before it. -/
def insert (t : Timer τ) : List (Timer τ) → List (Timer τ)
  | [] => [t]
  | u :: rest => if t.before u then t :: u :: rest else u :: insert t rest

/-- Lets a task wait for the given time from now, unless the deadline is not representable. -/
def schedule? (c : Clock τ) (delay : Nat) (task : τ) : Option (Clock τ) := do
  let fireAt ← Duration.add? c.now delay
  return { c with
    scheduled := c.scheduled + 1
    pending := insert ⟨fireAt, c.scheduled, task⟩ c.pending }

/-- Moves time forward to the given point; never back. -/
def advanceTo (c : Clock τ) (target : Nat) : Clock τ := { c with now := max c.now target }

/-- Takes the first timer due by the given point, and moves time to its deadline. -/
def popDue (c : Clock τ) (limit : Nat) : Option τ × Clock τ :=
  match c.pending with
  | t :: rest =>
    if t.fireAt ≤ limit then (some t.task, { c with now := max c.now t.fireAt, pending := rest })
    else (none, c)
  | [] => (none, c)

/-- Takes every timer due now, in firing order. -/
def takeDue (c : Clock τ) : List τ × Clock τ :=
  ((c.pending.takeWhile fun t => t.fireAt ≤ c.now).map Timer.task,
    { c with pending := c.pending.dropWhile fun t => t.fireAt ≤ c.now })

/-- Whether any timer is pending. -/
def hasPending (c : Clock τ) : Bool := !c.pending.isEmpty

/-- The deadline of the first timer. -/
def nextDeadline? (c : Clock τ) : Option Nat := c.pending.head?.map Timer.fireAt

/-- How long until the first timer fires; nothing if it is overdue. -/
def timeToNext? (c : Clock τ) : Option Nat := c.nextDeadline?.map (· - c.now)

/-- Forgets all timers. -/
def clear (c : Clock τ) : Clock τ := { c with pending := [] }

end Clock

end Dataflow
