import Mathlib
import Dataflow.Json.Reader

/-!
# Reading doubles

Numbers are read by scaling a whole significand with a power of ten, so it is not plain that what is
read is a number at all. It is: products of finite doubles are finite or infinite, and the reader refuses
the infinite ones; quotients by eight or more stay in range; and every power of ten from the first to the
308th is at least eight.

Doubles are computed unpacked, as a sign, a mantissa and a binary exponent, and packed again. A result
becomes infinite in packing only, when its exponent is too large, and so the bounds here are on exponents
(`Fits`).
-/

namespace Dataflow.Double

open Float.Model Float.Model.UnpackedFloat

/-! ## Binary logarithms -/

theorem log2_le_of_le_two_pow {n k : Nat} (h : n ≤ 2 ^ k) : n.log2 ≤ k := by
  by_cases hn : n = 0
  · simp [hn]
  · refine Nat.le_of_lt_succ ((Nat.log2_lt hn).2 (Nat.lt_of_le_of_lt h ?_))
    exact Nat.pow_lt_pow_right (by omega) (by omega)

theorem le_log2_of_le {m n k : Nat} (hmn : m ≤ n) (hk : 0 < k) (h : k ≤ m.log2) : k ≤ n.log2 := by
  have hm : m ≠ 0 := fun h0 => by simp [h0] at h; omega
  exact (Nat.le_log2 (by omega)).2 (Nat.le_trans ((Nat.le_log2 hm).1 h) hmn)

theorem div_two_pow_lt (m k : Nat) : m / 2 ^ k < 2 ^ (m.log2 + 1 - k) := by
  rw [Nat.div_lt_iff_lt_mul (Nat.two_pow_pos k), ← Nat.pow_add]
  exact Nat.lt_of_lt_of_le Nat.lt_log2_self (Nat.pow_le_pow_right (by omega) (by omega))

/-- To drop binary places off a number takes so many from its logarithm. -/
theorem log2_div_two_pow {m k : Nat} (h : k ≤ m.log2) : (m / 2 ^ k).log2 = m.log2 - k := by
  induction k with
  | zero => simp
  | succ k ih =>
    have hk := ih (by omega)
    rw [Nat.log2_def] at hk
    split at hk
    · rw [Nat.pow_succ, ← Nat.div_div_eq_div_mul]
      omega
    · omega

/-- To add binary places to a number adds so many to its logarithm. -/
theorem log2_shiftLeft {m : Nat} (k : Nat) (hm : m ≠ 0) : (m <<< k).log2 = m.log2 + k := by
  rw [Nat.log2_eq_iff (by simpa using hm), Nat.shiftLeft_eq, Nat.pow_add, Nat.add_right_comm, Nat.pow_add]
  exact ⟨Nat.mul_le_mul_right _ (Nat.log2_self_le hm),
    Nat.mul_lt_mul_of_pos_right Nat.lt_log2_self (Nat.two_pow_pos k)⟩

/-- A quotient has no more places than the dividend has over the divisor. -/
theorem log2_div_add_log2_le {m n : Nat} (hn : n ≠ 0) (hq : m / n ≠ 0) :
    (m / n).log2 + n.log2 ≤ m.log2 := by
  refine Nat.le_of_lt_succ ((Nat.pow_lt_pow_iff_right (by omega : 1 < 2)).1 ?_)
  calc 2 ^ ((m / n).log2 + n.log2)
      = 2 ^ (m / n).log2 * 2 ^ n.log2 := Nat.pow_add ..
    _ ≤ m / n * n := Nat.mul_le_mul (Nat.log2_self_le hq) (Nat.log2_self_le hn)
    _ ≤ m := Nat.div_mul_le_self ..
    _ < 2 ^ (m.log2 + 1) := Nat.lt_log2_self

/-! ## Packing -/

/-- A real whose exponent the format has room for: packing does not make it infinite. -/
def Fits : UnpackedFloat → Prop
  | .zero _ => True
  | .finite _ _ e _ => e ≤ 971
  | _ => False

theorem exponentBias_eq : Format.binary64.exponentBias = 1023 := rfl

/-- A finite number is packed as an infinity if its exponent leaves no room, and else with all its places
or, at the least exponent, with those it has. -/
theorem pack_finite (s : Sign) (m : Nat) (e : Int) (hm : 0 < m) :
    pack .binary64 (.finite s m e hm) =
      if 2 ^ 11 ≤ (e + 1023 + 52).toNat + 1 then packedInfinity .binary64 s
      else if m.log2 + 1 = 53 then
        packComponents .binary64 s (BitVec.ofNat 11 (e + 1023 + 52).toNat) (BitVec.ofNat 52 m)
      else packComponents .binary64 s 0#11 (BitVec.ofNat 52 m) := rfl

/-- Only the greatest exponent is that of what is not finite. -/
theorem isFinite_unpack_packComponents {s : Sign} {exponent : BitVec 11} {mantissa : BitVec 52}
    (h : exponent ≠ -1#11) :
    (unpack .binary64 (packComponents .binary64 s exponent mantissa)).isFinite = true := by
  unfold UnpackedFloat.unpack
  simp only [unpackMantissa_packComponents, unpackExponent_packComponents]
  rw [if_neg h]
  split
  · split <;> rfl
  · rfl

/-- What the format has room for stays finite when it is packed. -/
theorem isFinite_unpack_pack {u : UnpackedFloat} (h : Fits u) :
    (unpack .binary64 (pack .binary64 u)).isFinite = true := by
  cases u with
  | notANumber | infinity => exact h.elim
  | zero s => exact isFinite_unpack_packComponents (by decide)
  | finite s m e hm =>
    have he : e ≤ 971 := h
    rw [pack_finite, if_neg (by omega)]
    split
    · refine isFinite_unpack_packComponents fun heq => ?_
      have := congrArg BitVec.toNat heq
      simp [BitVec.toNat_ofNat] at this
      omega
    · exact isFinite_unpack_packComponents (by decide)

/-- What is finite is packed as a finite number or as an infinity, never as no number. -/
theorem isFinite_or_isInf_unpack_pack {u : UnpackedFloat} (h : u.isFinite = true) :
    (unpack .binary64 (pack .binary64 u)).isFinite = true ∨
      (unpack .binary64 (pack .binary64 u)).isInf = true := by
  cases u with
  | notANumber | infinity => cases h
  | zero s => exact .inl (isFinite_unpack_pack trivial)
  | finite s m e hm =>
    by_cases he : e ≤ 971
    · exact .inl (isFinite_unpack_pack he)
    · refine .inr ?_
      rw [pack_finite, if_pos (by omega)]
      cases s <;> rfl

/-- The hidden place of a mantissa is worth as much as all others and one more. -/
theorem toNat_one_append {w : Nat} (v : BitVec w) : (1#1 ++ v).toNat = 2 ^ w + v.toNat := by
  rw [BitVec.toNat_append, ← Nat.shiftLeft_add_eq_or_of_lt v.isLt]
  simp [Nat.shiftLeft_eq]

/-- What is unpacked from a double has the exponent and the places of one. -/
theorem bounds_of_unpack {b : BitVec Format.binary64.numBits} {s : Sign} {m : Nat} {e : Int} {hm : 0 < m}
    (h : unpack .binary64 b = .finite s m e hm) : e ≤ 971 ∧ m < 2 ^ 53 := by
  have hexp : (unpackExponent b).toNat < 2048 := (unpackExponent b).isLt
  have hmant : (unpackMantissa b).toNat < 2 ^ 52 := (unpackMantissa b).isLt
  unfold UnpackedFloat.unpack at h
  simp only [exponentBias_eq] at h
  split at h
  · split at h <;> cases h
  · rename_i hinf
    have hinf : (unpackExponent b).toNat ≠ 2047 := fun heq => hinf (BitVec.eq_of_toNat_eq heq)
    split at h
    · rename_i hzero
      split at h
      · cases h
      · cases h
        exact ⟨by rw [hzero]; decide, by omega⟩
    · cases h
      have : (1#1 ++ unpackMantissa b).toNat = 2 ^ 52 + (unpackMantissa b).toNat := toNat_one_append _
      omega

/-! ## Rounding -/

theorem targetExponent_eq (t : Int) : Format.binary64.targetExponent t = max (t - 53) (-1074) := rfl

/-- To drop places one by one is to divide. -/
theorem mantissa_repeat_shiftRightOne (em : ExtendedMantissa) (n : Nat) :
    (n.repeat ExtendedMantissa.shiftRightOne em).mantissa = em.mantissa / 2 ^ n := by
  induction n with
  | zero => simp [Nat.repeat]
  | succ n ih =>
    rw [Nat.repeat, ExtendedMantissa.shiftRightOne, ih, Nat.div_div_eq_div_mul, Nat.pow_succ]

/-- A mantissa is rounded up by one at most. -/
theorem roundedMantissa_le (em : ExtendedMantissa) : em.roundedMantissa ≤ em.mantissa + 1 := by
  unfold ExtendedMantissa.roundedMantissa Accuracy.roundToNearestEven
  split <;> omega

/-- A mantissa is never rounded down, as the places that were dropped are gone already. -/
theorem le_roundedMantissa (em : ExtendedMantissa) : em.mantissa ≤ em.roundedMantissa := by
  unfold ExtendedMantissa.roundedMantissa Accuracy.roundToNearestEven
  split <;> omega

/-- A mantissa loses the places for which its exponent is too small. -/
theorem shiftToTargetExponent_fst (m : Nat) (e : Int) (acc : Accuracy) :
    (shiftToTargetExponent .binary64 m e acc).1.mantissa =
      m / 2 ^ (max (totalExponent m e - 53) (-1074) - e).toNat := by
  simp only [shiftToTargetExponent, shiftToExponent, targetExponent_eq]
  refine (mantissa_repeat_shiftRightOne _ _).trans ?_
  congr 1
  unfold ExtendedMantissa.ofMantissaAndAccuracy
  split <;> rfl

/-- An exponent is raised to the target, if it is below. -/
theorem shiftToTargetExponent_snd (m : Nat) (e : Int) (acc : Accuracy) :
    (shiftToTargetExponent .binary64 m e acc).2 = max e (max (totalExponent m e - 53) (-1074)) := by
  simp only [shiftToTargetExponent, shiftToExponent, targetExponent_eq]
  omega

/-- What is rounded is zero or finite, however large. -/
theorem isFinite_roundWithAccuracy (s : Sign) (m : Nat) (e : Int) (acc : Accuracy) :
    (roundWithAccuracy .binary64 s m e acc).isFinite = true := by
  unfold roundWithAccuracy
  dsimp only
  split <;> rfl

/-- Rounding adds one place at most, so what is below `2 ^ 1023` stays in range. -/
theorem fits_roundWithAccuracy {s : Sign} {m : Nat} {e : Int} {acc : Accuracy} (he : e ≤ 971)
    (ht : totalExponent m e ≤ 1023) : Fits (roundWithAccuracy .binary64 s m e acc) := by
  unfold roundWithAccuracy
  generalize hfirst : shiftToTargetExponent .binary64 m e acc = first
  obtain ⟨em, e'⟩ := first
  have hm := congrArg (·.1.mantissa) hfirst
  have he' := congrArg (·.2) hfirst
  simp only [shiftToTargetExponent_fst, shiftToTargetExponent_snd] at hm he'
  -- One place more at most, and only if all of them were ones.
  have hlog : em.roundedMantissa.log2 ≤ m.log2 + 1 - (max (totalExponent m e - 53) (-1074) - e).toNat :=
    log2_le_of_le_two_pow (Nat.le_trans (roundedMantissa_le em) (hm ▸ div_two_pow_lt _ _))
  dsimp only
  split
  · trivial
  · show (shiftToTargetExponent .binary64 em.roundedMantissa e' .exact).2 ≤ 971
    rw [shiftToTargetExponent_snd]
    simp only [totalExponent] at *
    omega

/-- What has places to spare is rounded to a number with all its places, and not below them. -/
theorem roundWithAccuracy_normal (s : Sign) {m : Nat} {e : Int} (acc : Accuracy) (hm : 52 ≤ m.log2)
    (ht : -1000 ≤ totalExponent m e) :
    ∃ m' e' h', roundWithAccuracy .binary64 s m e acc = .finite s m' e' h' ∧ m'.log2 = 52 ∧
      totalExponent m e ≤ e' + 53 := by
  unfold roundWithAccuracy
  generalize hfirst : shiftToTargetExponent .binary64 m e acc = first
  obtain ⟨em, e'⟩ := first
  have hem := congrArg (·.1.mantissa) hfirst
  have he' := congrArg (·.2) hfirst
  simp only [shiftToTargetExponent_fst, shiftToTargetExponent_snd] at hem he'
  have hem52 : em.mantissa.log2 = 52 := by
    rw [← hem, log2_div_two_pow] <;> simp only [totalExponent] at * <;> omega
  have hr52 : 52 ≤ em.roundedMantissa.log2 := le_log2_of_le (le_roundedMantissa em) (by omega) (by omega)
  dsimp only
  have hlog : (shiftToTargetExponent .binary64 em.roundedMantissa e' .exact).1.mantissa.log2 = 52 := by
    rw [shiftToTargetExponent_fst, log2_div_two_pow] <;> simp only [totalExponent] at * <;> omega
  rw [dif_neg fun h0 => by rw [h0] at hlog; cases hlog]
  refine ⟨_, _, _, rfl, hlog, ?_⟩
  rw [shiftToTargetExponent_snd]
  omega

/-! ## Operations -/

/-- From eight on. -/
def isLarge (x : Float) : Bool :=
  match x.toModel.unpack with
  | .finite _ m e _ => 4 ≤ totalExponent m e
  | _ => false

/-- What is large is finite. -/
theorem isFinite_of_isLarge {x : Float} (h : isLarge x = true) : x.isFinite = true := by
  show x.toModel.unpack.isFinite = true
  unfold isLarge at h
  cases hu : x.toModel.unpack with
  | notANumber | infinity | zero => rw [hu] at h; cases h
  | finite => rfl

/-- A finite number is equal to itself. -/
theorem beq_self {x : Float} (hx : x.isFinite = true) : (x == x) = true := by
  show x.toModel.unpack.beq x.toModel.unpack = true
  have hx : x.toModel.unpack.isFinite = true := hx
  cases hu : x.toModel.unpack with
  | notANumber | infinity => rw [hu] at hx; cases hx
  | zero s => rfl
  | finite s m e hm => cases s <;> simp [UnpackedFloat.beq, UnpackedFloat.compare]

/-- The sign has no part in whether a number is finite. -/
theorem isFinite_neg {x : Float} (hx : x.isFinite = true) : (-x).isFinite = true := by
  refine isFinite_unpack_pack (u := x.toModel.unpack.neg) ?_
  have hx : x.toModel.unpack.isFinite = true := hx
  cases hu : x.toModel.unpack with
  | notANumber | infinity => rw [hu] at hx; cases hx
  | zero s => trivial
  | finite s m e hm => exact (bounds_of_unpack hu).1

/-- Every integer of 64 bits is finite as a double. -/
theorem isFinite_toFloat (n : UInt64) : n.toFloat.isFinite = true := by
  refine isFinite_unpack_pack (u := UnpackedFloat.ofUInt64 .binary64 n) ?_
  unfold UnpackedFloat.ofUInt64 UnpackedFloat.ofNat UnpackedFloat.ofInt UnpackedFloat.normalize
  by_cases hn : n.toNat = 0
  · rw [hn]
    trivial
  · have hlog : n.toNat.log2 < 64 := (Nat.log2_lt hn).2 n.toNat_lt
    rw [Int.compare_eq_gt.2 (by omega)]
    simp only [Int.toNat_natCast, UnpackedFloat.round, decreaseExponent, targetExponent_eq]
    generalize hk : (0 - max (totalExponent n.toNat 0 - 53) (-1074)).toNat = k
    refine fits_roundWithAccuracy (by omega) ?_
    simp only [totalExponent, log2_shiftLeft k hn]
    omega

/-- A product of finite numbers is finite before it is packed. -/
theorem isFinite_mul {u v : UnpackedFloat} (hu : u.isFinite = true) (hv : v.isFinite = true) :
    (UnpackedFloat.mul .binary64 u v).isFinite = true := by
  cases u <;> cases v <;> first
    | contradiction
    | rfl
    | exact isFinite_roundWithAccuracy ..

/-- A product of finite numbers that is not infinite is finite. -/
theorem isFinite_mul_of_not_isInf {x y : Float} (hx : x.isFinite = true) (hy : y.isFinite = true)
    (h : (x * y).isInf = false) : (x * y).isFinite = true :=
  (isFinite_or_isInf_unpack_pack (isFinite_mul hx hy)).resolve_right fun hinf => by
    have hinf : (x * y).isInf = true := hinf
    rw [h] at hinf
    cases hinf

/-- The quotient has a place more than the difference of places tells, and loses three at least. -/
theorem fits_div {s t : Sign} {m n : Nat} {e f : Int} {hm : 0 < m} {hn : 0 < n} (he : e ≤ 971)
    (hm53 : m < 2 ^ 53) (hf : 4 ≤ totalExponent n f) :
    Fits (UnpackedFloat.div .binary64 (.finite s m e hm) (.finite t n f hn)) := by
  have hmlog : m.log2 < 53 := (Nat.log2_lt (by omega)).2 hm53
  simp only [UnpackedFloat.div, divCore, targetExponent_eq]
  generalize htarget : min (e - f) (max (totalExponent m e - totalExponent n f - 53) (-1074)) = target
  generalize hk : (e - f - target).toNat = k
  have hshift := log2_shiftLeft k (by omega : m ≠ 0)
  simp only [totalExponent] at hf htarget
  refine fits_roundWithAccuracy (by omega) ?_
  simp only [totalExponent]
  by_cases hq : (m <<< k) / n = 0
  · simp only [hq, Nat.log2_zero]
    omega
  · have := log2_div_add_log2_le (by omega : n ≠ 0) hq
    omega

/-- A quotient by a large number is finite. -/
theorem isFinite_div {x y : Float} (hx : x.isFinite = true) (hy : isLarge y = true) :
    (x / y).isFinite = true := by
  refine isFinite_unpack_pack (u := UnpackedFloat.div .binary64 x.toModel.unpack y.toModel.unpack) ?_
  have hx : x.toModel.unpack.isFinite = true := hx
  unfold isLarge at hy
  cases hv : y.toModel.unpack with
  | notANumber | infinity | zero => rw [hv] at hy; cases hy
  | finite t n f hn =>
    rw [hv] at hy
    cases hu : x.toModel.unpack with
    | notANumber | infinity => rw [hu] at hx; cases hx
    | zero s => trivial
    | finite s m e hm =>
      -- The divisor is at least eight, so the quotient is smaller than the dividend by enough.
      have hbounds := bounds_of_unpack hu
      exact fits_div hbounds.1 hbounds.2 (of_decide_eq_true hy)

/-! ## Powers of ten -/

/-- A number with all its places, whose exponent is not small, is large. -/
theorem isLarge_pack {s : Sign} {m : Nat} {e : Int} {hm : 0 < m} (hlog : m.log2 = 52) (hlow : -49 ≤ e)
    (hhigh : e ≤ 971) : isLarge (.ofModel (.pack (.finite s m e hm))) = true := by
  show (match unpack .binary64 (pack .binary64 (.finite s m e hm)) with
    | .finite _ m e _ => decide (4 ≤ totalExponent m e)
    | _ => false) = true
  rw [pack_finite, if_neg (by omega), if_pos (by omega)]
  unfold UnpackedFloat.unpack
  simp only [unpackMantissa_packComponents, unpackExponent_packComponents]
  -- The exponent is in the range of those that are packed as they are.
  generalize hb : (e + 1023 + 52).toNat = biased
  have hexp : (BitVec.ofNat 11 biased).toNat = biased := by
    rw [BitVec.toNat_ofNat]
    omega
  rw [if_neg fun heq => by rw [heq] at hexp; simp at hexp; omega,
    if_neg fun heq => by rw [heq] at hexp; simp at hexp; omega]
  have hmant : 52 ≤ (1#1 ++ BitVec.ofNat 52 m).toNat.log2 := by
    rw [Nat.le_log2 (by rw [toNat_one_append]; omega), toNat_one_append]
    omega
  refine decide_eq_true ?_
  simp only [totalExponent, exponentBias_eq, hexp]
  omega

/-- A power of ten is rounded from its exact value. -/
theorem ofScientific_eq {n : Nat} (hn : n ≤ 2000) :
    UnpackedFloat.ofScientific .binary64 1 (Int.ofNat n) =
      roundWithAccuracy .binary64 .positive (10 ^ n <<< 53) (-53) .exact := by
  unfold UnpackedFloat.ofScientific
  rw [dif_neg (by omega), if_neg (by simp; omega), if_neg (by simp; omega), if_pos (by simp),
    Nat.shiftLeft_eq (10 ^ n), Nat.mul_comm (10 ^ n), ← Nat.one_mul (2 ^ 53), ← Nat.shiftLeft_eq]
  rfl

open Json.Reader

/-- Rounded up it may reach `2 ^ 1024` for all that its places tell, so it is looked at. -/
theorem isLarge_greatest : isLarge 1e308 = true := by decide +kernel

/-- The first powers of ten are in a table; the others are rounded from their exact values. -/
theorem isLarge_powerOfTen {n : Nat} (h1 : 1 ≤ n) (h308 : n ≤ 308) : isLarge (powerOfTen n) = true := by
  -- From the table, at the upper end, or in between, where rounding stays below the next power of two.
  by_cases h23 : n < 23
  · have htable : ∀ k < 22, isLarge (powerOfTen (k + 1)) = true := by decide
    obtain ⟨k, rfl⟩ := Nat.exists_eq_add_of_le' h1
    exact htable k (by omega)
  by_cases hgreatest : n = 308
  · rw [hgreatest]
    unfold powerOfTen
    exact isLarge_greatest
  have h307 : n ≤ 307 := by omega
  have hpow : powerOfTen n = .ofModel (.pack
      (roundWithAccuracy .binary64 .positive (10 ^ n <<< 53) (-53) .exact)) := by
    rw [← ofScientific_eq (by omega)]
    unfold powerOfTen Float.ofScientific
    rw [dif_neg (by omega)]
    rfl
  have hlow : 3 ≤ (10 ^ n).log2 :=
    le_log2_of_le (Nat.pow_le_pow_right (by omega) h1) (by omega) (by decide : 3 ≤ (10 ^ 1).log2)
  have hhigh : (10 ^ n).log2 ≤ 1020 :=
    log2_le_of_le_two_pow (Nat.le_trans (Nat.pow_le_pow_right (by omega) h307) (by decide +kernel))
  have hlog := log2_shiftLeft 53 (Nat.ne_of_gt (Nat.pow_pos (by omega : 0 < 10)) : 10 ^ n ≠ 0)
  generalize 10 ^ n <<< 53 = m at hpow hlog
  have ht : totalExponent m (-53) = m.log2 - 52 := by
    unfold totalExponent
    omega
  have hfits : Fits (roundWithAccuracy .binary64 .positive m (-53) .exact) :=
    fits_roundWithAccuracy (by omega) (by omega)
  obtain ⟨m', e, hm', heq, hm52, he⟩ := roundWithAccuracy_normal .positive .exact
    (by omega : 52 ≤ m.log2) (by omega : -1000 ≤ totalExponent m (-53))
  rw [heq] at hfits hpow
  rw [hpow]
  exact isLarge_pack hm52 (by omega) hfits

/-! ## Scaling -/

/-- However often a number is scaled down, it stays finite. -/
theorem isFinite_scaleDown {x : Float} (hx : x.isFinite = true) (n : Nat) :
    (scaleDown x n).isFinite = true := by
  induction n generalizing x with
  | zero => exact hx
  | succ n ih =>
    unfold scaleDown
    split
    · exact hx
    · exact ih (isFinite_div hx isLarge_greatest)

/-- Whatever its parts, a number that is not out of range is finite. -/
theorem isFinite_of_scaled? {significand : Nat} {exponent : Int} {x : Float}
    (h : scaled? significand exponent = some x) : x.isFinite = true := by
  have hstart := isFinite_toFloat (UInt64.ofNat significand)
  unfold scaled? at h
  dsimp only at h
  split at h
  · rename_i n
    split at h
    · split at h <;> cases h
      exact hstart
    · split at h
      · cases h
      · rename_i hn hinf
        cases h
        refine isFinite_mul_of_not_isInf hstart ?_ (by simpa using hinf)
        cases n with
        | zero => decide
        | succ n => exact isFinite_of_isLarge (isLarge_powerOfTen (by omega) (by omega))
  · rename_i n
    cases h
    exact isFinite_div (isFinite_scaleDown hstart _) (isLarge_powerOfTen (by omega) (by omega))

end Dataflow.Double
