import Mathlib.Algebra.Order.Ring.Abs
import Mathlib.Tactic.Linarith
import Mathlib.Tactic.Ring
import StoredProgram.Proofs.Exactness

/-!
Rounding, and the decimal forms that it leads to. A value is rounded to the nearest integer,
and a tie goes to the even one, which is one integer only. The scientific form of a number is
its value on the scale on which the leading digit stands where it should, so rounded, and
this also holds if rounding has carried over into a digit more. So it does not matter whether
a number is rounded to significant digits or to the decimal places at which those end.
-/
namespace StoredProgram

/-- The integer is nearest to the value, and even if another one is as near. -/
structure RoundsTo (x : ℚ) (n : Nat) : Prop where
  near : |x - n| ≤ 1 / 2
  tie : |x - n| = 1 / 2 → n % 2 = 0

namespace RoundsTo

variable {x : ℚ} {a b n : Nat}

theorem of_lt (h : |x - n| < 1 / 2) : RoundsTo x n := ⟨h.le, fun heq => absurd heq h.ne⟩

theorem le_of_le (h : RoundsTo x n) (ha : a ≤ x) : a ≤ n := by
  have hnear := (abs_le.mp h.near).2
  have hlt : (a : ℚ) < n + 1 := by linarith
  exact Nat.lt_succ_iff.mp (by exact_mod_cast hlt)

theorem ge_of_ge (h : RoundsTo x n) (hb : x ≤ b) : n ≤ b := by
  have hnear := (abs_le.mp h.near).1
  have hlt : (n : ℚ) < b + 1 := by linarith
  exact Nat.lt_succ_iff.mp (by exact_mod_cast hlt)

/-- Neighbours are not both even, so that a tie goes one way. -/
theorem not_succ (h : RoundsTo x n) : ¬ RoundsTo x (n + 1) := by
  intro hnext
  have hlow := (abs_le.mp h.near).2
  have hhigh := (abs_le.mp hnext.near).1
  rw [Nat.cast_succ] at hhigh
  have hhalf : x - n = 1 / 2 := by linarith
  have hbelow : n % 2 = 0 := h.tie (by rw [hhalf]; norm_num)
  have habove : (n + 1) % 2 = 0 := by
    apply hnext.tie
    have hother : x - (n + 1 : Nat) = -(1 / 2) := by
      rw [Nat.cast_succ]
      linarith
    rw [hother]
    norm_num
  omega

theorem unique (ha : RoundsTo x a) (hb : RoundsTo x b) : a = b := by
  have hdistance : |(a : ℚ) - b| ≤ 1 := by
    calc |(a : ℚ) - b| ≤ |(a : ℚ) - x| + |x - b| := abs_sub_le _ _ _
      _ ≤ 1 / 2 + 1 / 2 := add_le_add (by rw [abs_sub_comm]; exact ha.near) hb.near
      _ = 1 := by norm_num
  obtain ⟨hlow, hhigh⟩ := abs_le.mp hdistance
  have hle : a ≤ b + 1 := by
    have hcast : (a : ℚ) ≤ b + 1 := by linarith
    exact_mod_cast hcast
  have hge : b ≤ a + 1 := by
    have hcast : (b : ℚ) ≤ a + 1 := by linarith
    exact_mod_cast hcast
  rcases Nat.lt_trichotomy a b with hlt | heq | hgt
  · obtain rfl : b = a + 1 := by omega
    exact absurd hb ha.not_succ
  · exact heq
  · obtain rfl : a = b + 1 := by omega
    exact absurd ha hb.not_succ

end RoundsTo

/-- Dividing rounds as it should. -/
theorem roundsTo_divNearest (num : Nat) {den : Nat} (hden : 0 < den) :
    RoundsTo (num / den : ℚ) (divNearest num den) := by
  have hpos : (0 : ℚ) < den := by exact_mod_cast hden
  have hsplit : (num : ℚ) / den = (num / den : Nat) + (num % den : Nat) / den := by
    have hdivision : (num : ℚ) = den * (num / den : Nat) + (num % den : Nat) := by
      exact_mod_cast (Nat.div_add_mod num den).symm
    rw [add_div' _ _ _ hpos.ne', mul_comm, ← hdivision]
  rw [hsplit]
  simp only [divNearest]
  generalize num / den = quotient
  have hrest : num % den < den := Nat.mod_lt num hden
  generalize num % den = rest at hrest ⊢
  have hlow : (0 : ℚ) ≤ rest / den := div_nonneg (Nat.cast_nonneg rest) hpos.le
  have hhigh : (rest : ℚ) / den < 1 := (div_lt_one₀ hpos).mpr (by exact_mod_cast hrest)
  split
  · next hbelow =>
    have hhalf : (rest : ℚ) / den < 1 / 2 := by
      rw [div_lt_div_iff₀ hpos two_pos, one_mul, mul_comm]
      exact_mod_cast hbelow
    apply RoundsTo.of_lt
    rwa [add_sub_cancel_left, abs_of_nonneg hlow]
  · split
    · next habove =>
      have hhalf : 1 / 2 < (rest : ℚ) / den := by
        rw [div_lt_div_iff₀ two_pos hpos, one_mul, mul_comm]
        exact_mod_cast habove
      apply RoundsTo.of_lt
      rw [Nat.cast_succ, abs_lt]
      constructor <;> linarith
    · have hhalf : (rest : ℚ) / den = 1 / 2 := by
        rw [div_eq_div_iff hpos.ne' two_ne_zero, one_mul, mul_comm]
        exact_mod_cast (show 2 * rest = den by omega)
      rw [hhalf]
      rcases Nat.mod_two_eq_zero_or_one quotient with heven | hodd
      · refine ⟨?_, fun _ => by omega⟩
        rw [heven, Nat.add_zero, add_sub_cancel_left]
        norm_num
      · refine ⟨?_, fun _ => by omega⟩
        rw [hodd, Nat.cast_succ, add_sub_add_left_eq_sub]
        norm_num

/-- A carry moves the scale on by a digit and keeps the rounding. -/
theorem Scientific.roundsTo_carry {y : ℚ} {places : Nat} {d : Scientific}
    (h : RoundsTo (y * 10 ^ (places - d.exponent)) d.coefficient) :
    RoundsTo (y * 10 ^ (places - (d.carry places).exponent)) (d.carry places).coefficient := by
  unfold carry
  split
  · next hgrown =>
    have hnear := abs_le.mp h.near
    have hscale : y * (10 : ℚ) ^ ((places : ℤ) - d.exponent) =
        10 * (y * 10 ^ ((places : ℤ) - (d.exponent + 1))) := by
      rw [mul_left_comm, ← zpow_one_add₀ (by decide)]
      congr 2
      omega
    rw [hscale, hgrown, Nat.pow_eq, Nat.cast_pow, Nat.cast_ofNat, pow_succ'] at hnear
    apply RoundsTo.of_lt
    rw [Nat.pow_eq, Nat.cast_pow, Nat.cast_ofNat, abs_lt]
    constructor <;> linarith
  · exact h

theorem Scientific.coefficient_carry {places : Nat} {d : Scientific}
    (hlow : 10 ^ places ≤ d.coefficient) (hhigh : d.coefficient ≤ 10 ^ (places + 1)) :
    10 ^ places ≤ (d.carry places).coefficient ∧
      (d.carry places).coefficient < 10 ^ (places + 1) := by
  unfold carry
  split
  · exact ⟨Nat.le_refl _, Nat.pow_lt_pow_right (by decide) (Nat.lt_succ_self places)⟩
  · next hsmaller => exact ⟨hlow, Nat.lt_of_le_of_ne hhigh hsmaller⟩

namespace Number

theorem roundsTo_roundedAt (v : Number) (places : Nat) :
    RoundsTo (v.value * 10 ^ places) (v.roundedAt places) := by
  have hvalue : v.value * 10 ^ places = (v.units * Nat.pow 10 places : Nat) / unitsPerOne := by
    rw [value, div_mul_eq_mul_div, Nat.pow_eq, Nat.cast_mul, Nat.cast_pow, Nat.cast_ofNat]
  rw [hvalue]
  exact roundsTo_divNearest _ unitsPerOne_pos

/-- The rank is that of the leading digit. -/
theorem units_bounds {v : Number} (hzero : ¬ v.isZero) :
    10 ^ v.decimalRank * unitsPerOne ≤ v.units * 10 ^ lowestExponent ∧
      v.units * 10 ^ lowestExponent < 10 ^ (v.decimalRank + 1) * unitsPerOne := by
  have hone : 1 ≤ v.units := by
    rw [Nat.one_le_iff_ne_zero, ne_eq, units_eq_zero_iff]
    simpa [isZero] using hzero
  have hunit := unitsPerOne_lt
  unfold decimalRank
  -- the powers are far too large to be looked at
  generalize lowestExponent = low at hunit ⊢
  have hpos : 0 < v.units * 10 ^ low / unitsPerOne := by
    apply Nat.div_pos _ unitsPerOne_pos
    exact le_trans hunit.le (Nat.le_mul_of_pos_left _ hone)
  rw [Nat.pow_eq, ← Nat.le_div_iff_mul_le unitsPerOne_pos, ← Nat.div_lt_iff_lt_mul unitsPerOne_pos]
  generalize v.units * 10 ^ low / unitsPerOne = n at hpos ⊢
  have hlength : 0 < (Nat.toDigits 10 n).length := Nat.length_toDigits_pos
  rw [Nat.sub_add_cancel hlength]
  refine ⟨?_, (Nat.length_toDigits_le_iff (by decide) hlength).mp le_rfl⟩
  by_contra hlt
  rcases Nat.eq_zero_or_pos ((Nat.toDigits 10 n).length - 1) with hsingle | hmore
  · rw [hsingle, Nat.pow_zero] at hlt
    omega
  · have hshorter := (Nat.length_toDigits_le_iff (by decide) hmore).mpr (Nat.not_le.mp hlt)
    omega

/-- The value of a number other than zero, on the scale of its leading digit. -/
theorem scaled_bounds {v : Number} (hzero : ¬ v.isZero) (places : Nat) :
    ((10 ^ places : Nat) : ℚ) ≤ v.value * 10 ^ (places - exponentOfRank v.decimalRank) ∧
      v.value * 10 ^ (places - exponentOfRank v.decimalRank) ≤ (10 ^ (places + 1) : Nat) := by
  obtain ⟨hlow, hhigh⟩ := units_bounds hzero
  have hone := unitsPerOne_pos
  unfold exponentOfRank value
  generalize lowestExponent = low at hlow hhigh ⊢
  generalize unitsPerOne = one at hlow hhigh hone ⊢
  generalize v.decimalRank = rank at hlow hhigh ⊢
  have hscale : (v.units / one : ℚ) * 10 ^ (places - (rank - low : ℤ)) =
      (v.units * 10 ^ low * 10 ^ places : Nat) / (one * 10 ^ rank : Nat) := by
    rw [sub_sub_eq_add_sub, zpow_sub₀ (by decide), zpow_add₀ (by decide), zpow_natCast,
      zpow_natCast, zpow_natCast, div_mul_div_comm, mul_comm ((10 : ℚ) ^ places), ← mul_assoc]
    norm_cast
  have hden : (0 : ℚ) < (one * 10 ^ rank : Nat) := by
    exact_mod_cast Nat.mul_pos hone (Nat.pow_pos (by decide))
  rw [hscale, le_div_iff₀ hden, div_le_iff₀ hden, ← Nat.cast_mul, ← Nat.cast_mul, Nat.cast_le,
    Nat.cast_le]
  constructor
  · calc 10 ^ places * (one * 10 ^ rank) = 10 ^ rank * one * 10 ^ places := by ring
      _ ≤ v.units * 10 ^ low * 10 ^ places := Nat.mul_le_mul_right _ hlow
  · calc v.units * 10 ^ low * 10 ^ places
        ≤ 10 ^ (rank + 1) * one * 10 ^ places := Nat.mul_le_mul_right _ hhigh.le
      _ = 10 ^ (places + 1) * (one * 10 ^ rank) := by ring

theorem roundsTo_coefficient (v : Number) (places rank : Nat) :
    RoundsTo (v.value * 10 ^ (places - exponentOfRank rank))
      (divNearest (v.coefficientNum places) (coefficientDen rank)) := by
  have hvalue : v.value * 10 ^ (places - exponentOfRank rank) =
      (v.coefficientNum places : ℚ) / coefficientDen rank := by
    rw [← v.coefficient_value places rank, zpow_sub₀ (by decide), zpow_natCast]
    have hten : (10 : ℚ) ^ places ≠ 0 := pow_ne_zero _ (by decide)
    have hexponent : (10 : ℚ) ^ exponentOfRank rank ≠ 0 := zpow_ne_zero _ (by decide)
    rw [mul_div_assoc', div_eq_iff hexponent, mul_right_comm, div_mul_cancel₀ _ hten]
  rw [hvalue]
  exact roundsTo_divNearest _ (coefficientDen_pos rank)

variable {v : Number} {places : Nat}

/-- The coefficient is the value, on the scale that the exponent gives, rounded. -/
theorem roundsTo_scientific (v : Number) (places : Nat) :
    RoundsTo (v.value * 10 ^ (places - (v.scientific places).exponent))
      (v.scientific places).coefficient := by
  by_cases hzero : v.isZero
  · rw [scientific_of_isZero hzero, v.value_eq_zero_iff.mpr (of_decide_eq_true hzero)]
    apply RoundsTo.of_lt
    norm_num
  · have hrounds := v.roundsTo_coefficient places v.decimalRank
    rw [scientific_of_not_isZero hzero]
    generalize divNearest _ _ = coefficient at hrounds ⊢
    generalize exponentOfRank _ = exponent at hrounds ⊢
    exact Scientific.roundsTo_carry hrounds

/-- The coefficient of a number other than zero has one digit before its places. -/
theorem coefficient_bounds (hzero : ¬ v.isZero) (places : Nat) :
    10 ^ places ≤ (v.scientific places).coefficient ∧
      (v.scientific places).coefficient < 10 ^ (places + 1) := by
  obtain ⟨hlow, hhigh⟩ := scaled_bounds hzero places
  have hrounds := v.roundsTo_coefficient places v.decimalRank
  have hle := hrounds.le_of_le hlow
  have hge := hrounds.ge_of_ge hhigh
  rw [scientific_of_not_isZero hzero]
  generalize divNearest _ _ = coefficient at hle hge ⊢
  exact Scientific.coefficient_carry hle hge

/-- Rounding to the decimal places at which the significant digits end gives these digits. -/
theorem roundedAt_eq_coefficient {fraction : Nat}
    (h : (fraction : ℤ) = places - (v.scientific places).exponent) :
    v.roundedAt fraction = (v.scientific places).coefficient := by
  have hscientific := v.roundsTo_scientific places
  rw [← h, zpow_natCast] at hscientific
  exact (v.roundsTo_roundedAt fraction).unique hscientific

end Number

end StoredProgram
