/-!
# The shortest decimal of a double

A finite double stands for the interval of reals that round to it, ends included exactly when its
mantissa is even. Its shortest decimal is the multiple of the coarsest power of ten that has a
multiple in that interval; of two such multiples the nearer one is taken, and a tie is settled by
the format that asks. All arithmetic is exact, on natural numbers.
-/

namespace Dataflow.Decimal

/-- The magnitude `mantissa * 2 ^ exponent` of a finite double. It is `narrow` below when the next
smaller double is only half a step away. -/
structure Magnitude where
  mantissa : Nat
  exponent : Int
  narrow : Bool
  deriving Repr, DecidableEq

/-- The magnitude that the bits of a finite double encode. -/
def Magnitude.ofBits (bits : UInt64) : Magnitude :=
  let fraction : Nat := bits.toNat % Nat.pow 2 52
  let biased : Nat := bits.toNat / Nat.pow 2 52 % Nat.pow 2 11
  if biased = 0 then ⟨fraction, -1074, false⟩
  else ⟨fraction + Nat.pow 2 52, (biased : Int) - 1075, fraction = 0 && 1 < biased⟩

/-- Which of two equally near decimals a format takes. -/
inductive Tie where
  | up
  | even
  deriving Repr, DecidableEq

/-- The decimal `coefficient * 10 ^ exponent`. -/
structure Numeral where
  coefficient : Nat
  exponent : Int
  deriving Repr, DecidableEq

/-- A magnitude seen on the grid of multiples of a power of ten: the value, the two ends of its
rounding interval and the grid step, all as multiples of one common unit. -/
structure OnGrid where
  value : Nat
  low : Nat
  high : Nat
  step : Nat
  closed : Bool

/-- The view of a magnitude on the multiples of `10 ^ exponent`. The common unit is small enough for
a quarter of the last binary place, so that both interval ends are whole. -/
def Magnitude.onGrid (m : Magnitude) (exponent : Int) : OnGrid :=
  let quarter := m.exponent - 2
  let scale := Nat.pow 2 quarter.toNat * Nat.pow 10 (-exponent).toNat
  { value := 4 * m.mantissa * scale
    low := (4 * m.mantissa - if m.narrow then 1 else 2) * scale
    high := (4 * m.mantissa + 2) * scale
    step := Nat.pow 10 exponent.toNat * Nat.pow 2 (-quarter).toNat
    closed := m.mantissa % 2 = 0 }

/-- Whether the given multiple of the step rounds to the value. -/
def OnGrid.hits (g : OnGrid) (multiple : Nat) : Bool :=
  let point := multiple * g.step
  if g.closed then g.low ≤ point && point ≤ g.high else g.low < point && point < g.high

/-- The multiple just below the value or equal to it. -/
def OnGrid.below (g : OnGrid) : Nat := g.value / g.step

/-- Whether the upper neighbour is taken when both neighbours of the value would do. -/
def OnGrid.prefersAbove (g : OnGrid) (tie : Tie) : Bool :=
  let down := g.value - g.below * g.step
  let up := (g.below + 1) * g.step - g.value
  if up = down then
    match tie with
    | .up => true
    | .even => g.below % 2 = 1
  else up < down

/-- The nearest multiple that rounds to the value, if the grid has one. -/
def OnGrid.nearest? (g : OnGrid) (tie : Tie) : Option Nat :=
  match g.hits g.below, g.hits (g.below + 1) with
  | true, true => some (if g.prefersAbove tie then g.below + 1 else g.below)
  | true, false => some g.below
  | false, true => some (g.below + 1)
  | false, false => none

/-- What holds of every view of a magnitude that is not zero. -/
structure OnGrid.Proper (g : OnGrid) : Prop where
  step_pos : 0 < g.step
  low_lt : g.low < g.value
  lt_high : g.value < g.high

/-- A magnitude that is not zero lies strictly between the bounds of what rounds to it, on a grid whose
points are apart. -/
theorem Magnitude.onGrid_proper {m : Magnitude} (h : 0 < m.mantissa) (exponent : Int) :
    (m.onGrid exponent).Proper := by
  have hscale : 0 < Nat.pow 2 (m.exponent - 2).toNat * Nat.pow 10 (-exponent).toNat :=
    Nat.mul_pos (Nat.pow_pos (by decide)) (Nat.pow_pos (by decide))
  refine ⟨Nat.mul_pos (Nat.pow_pos (by decide)) (Nat.pow_pos (by decide)), ?_, ?_⟩
  · refine Nat.mul_lt_mul_of_pos_right ?_ hscale
    split <;> omega
  · exact Nat.mul_lt_mul_of_pos_right (by omega) hscale

/-- The lower neighbour is not above the value. -/
theorem OnGrid.below_le (g : OnGrid) : g.below * g.step ≤ g.value := Nat.div_mul_le_self _ _

/-- The upper neighbour is above the value, if the points are apart. -/
theorem OnGrid.lt_above {g : OnGrid} (h : 0 < g.step) : g.value < (g.below + 1) * g.step :=
  Nat.lt_mul_of_div_lt (Nat.lt_succ_self _) h

/-- If any point of a grid rounds to the value, then so does one of the two next to the value. -/
theorem OnGrid.hits_neighbour {g : OnGrid} (hg : g.Proper) {k : Nat} (hk : g.hits k = true) :
    g.hits g.below = true ∨ g.hits (g.below + 1) = true := by
  have hbelow := g.below_le
  have habove := lt_above hg.step_pos
  have hlow := hg.low_lt
  have hhigh := hg.lt_high
  unfold hits at *
  rcases Nat.lt_or_ge g.below k with h | h
  · -- the point is not below the upper neighbour
    have hmul : (g.below + 1) * g.step ≤ k * g.step := Nat.mul_le_mul_right _ h
    right
    split at hk <;> simp only [Bool.and_eq_true, decide_eq_true_eq] at hk ⊢ <;>
      simp only [*, if_true] <;> simp <;> omega
  · have hmul : k * g.step ≤ g.below * g.step := Nat.mul_le_mul_right _ h
    left
    split at hk <;> simp only [Bool.and_eq_true, decide_eq_true_eq] at hk ⊢ <;>
      simp only [*, if_true] <;> simp <;> omega

/-- A grid has a nearest point to take exactly when some point of it rounds to the value. -/
theorem OnGrid.nearest?_isSome_iff {g : OnGrid} (hg : g.Proper) (tie : Tie) :
    (g.nearest? tie).isSome = true ↔ ∃ k, g.hits k = true := by
  constructor
  · intro h
    unfold nearest? at h
    split at h
    · exact ⟨_, ‹g.hits g.below = true›⟩
    · exact ⟨_, ‹g.hits g.below = true›⟩
    · exact ⟨_, ‹g.hits (g.below + 1) = true›⟩
    · simp at h
  · rintro ⟨k, hk⟩
    unfold nearest?
    rcases hits_neighbour hg hk with h | h
    · cases h' : g.hits (g.below + 1) <;> simp [h]
    · cases h' : g.hits g.below <;> simp [h]

/-- The exponent of a power of ten above the magnitude. The decimal logarithm of two is
`30103 / 100000` to six places, and the two places added cover both that error and the rounding. -/
def Magnitude.ceiling (m : Magnitude) : Int :=
  ((m.mantissa.log2 + 1 : Nat) + m.exponent) * 30103 / 100000 + 2

/-- Searches ever finer grids for the first hit. Seventeen digits always suffice, and the search
starts at most three places above the first digit. -/
def Magnitude.search (m : Magnitude) (tie : Tie) : Nat → Int → Numeral
  | 0, exponent => ⟨(m.onGrid exponent).below, exponent⟩
  | places + 1, exponent =>
    match (m.onGrid exponent).nearest? tie with
    | some coefficient => ⟨coefficient, exponent⟩
    | none => m.search tie places (exponent - 1)

/-- The shortest decimal that rounds to the magnitude, the nearest one of that length. -/
def Magnitude.shortest (m : Magnitude) (tie : Tie) : Numeral :=
  if m.mantissa = 0 then ⟨0, 0⟩ else m.search tie 20 m.ceiling

end Dataflow.Decimal
