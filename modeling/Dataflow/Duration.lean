import Dataflow.Decimal.Layout

/-!
# Durations

A span of time, and a point in time counted from the start, is a number of nanoseconds. It is
representable below `2 ^ 64` seconds. A number of seconds that is not whole nanoseconds is rounded
to the nearest one, a half to the even neighbour.
-/

namespace Dataflow.Duration

/-- The number of nanoseconds in a second. -/
def second : Nat := Nat.pow 10 9

/-- The bound of representable durations: `2 ^ 64` seconds. -/
def limit : Nat := Nat.pow 2 64 * second

/-- The sum of two durations, if it is representable. -/
def add? (a b : Nat) : Option Nat :=
  if a + b < limit then some (a + b) else none

/-- The whole number nearest to a quotient, a half going to the even neighbour. -/
def roundQuotient (numerator denominator : Nat) : Nat :=
  let below := numerator / denominator
  let twice := 2 * (numerator % denominator)
  if twice < denominator || twice = denominator && below % 2 = 0 then below else below + 1

/-- The rounded quotient is at most half a unit away from the quotient. -/
theorem roundQuotient_near {n d : Nat} (h : 0 < d) :
    2 * (roundQuotient n d * d) ≤ 2 * n + d ∧ 2 * n ≤ 2 * (roundQuotient n d * d) + d := by
  have hn := Nat.div_add_mod' n d
  have hr := Nat.mod_lt n h
  have hstep : (n / d + 1) * d = n / d * d + d := Nat.succ_mul _ _
  unfold roundQuotient
  simp only [Bool.or_eq_true, Bool.and_eq_true, decide_eq_true_eq]
  split
  · constructor <;> omega
  · constructor <;> omega

/-- A half goes to the even neighbour. -/
theorem roundQuotient_half {q d : Nat} (h : 0 < d) :
    roundQuotient ((2 * q + 1) * d) (2 * d) = if q % 2 = 0 then q else q + 1 := by
  have hq : (2 * q + 1) * d = 2 * d * q + d := by
    rw [Nat.add_mul, Nat.one_mul, Nat.mul_right_comm]
  have hdiv : (2 * q + 1) * d / (2 * d) = q := by
    rw [hq, Nat.mul_add_div (by omega), Nat.div_eq_of_lt (by omega), Nat.add_zero]
  have hmod : (2 * q + 1) * d % (2 * d) = d := by
    rw [hq, Nat.mul_add_mod, Nat.mod_eq_of_lt (by omega)]
  simp [roundQuotient, hdiv, hmod]

/-- The duration of a magnitude of seconds. -/
def ofMagnitude (m : Decimal.Magnitude) : Nat :=
  roundQuotient (m.mantissa * second * Nat.pow 2 m.exponent.toNat)
    (Nat.pow 2 (-m.exponent).toNat)

/-- The duration of a number of seconds, which has to be zero or above and below `2 ^ 64`. -/
def ofSeconds? (x : Float) : Option Nat :=
  if x.isFinite && 0 ≤ x then
    let d := ofMagnitude (.ofBits x.toBits)
    if d < limit then some d else none
  else none

end Dataflow.Duration
