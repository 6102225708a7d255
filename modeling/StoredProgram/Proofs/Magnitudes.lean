import Mathlib.Data.Nat.Log
import Mathlib.Data.Rat.Cast.Order
import Mathlib.Tactic.FieldSimp
import StoredProgram.Number.Decimal

/-!
Numbers by sign and magnitude. The two are all that a number has, and a finite number is
its units, of which a magnitude holds the leading binary digits and how far to shift them.
What lies on the grid of the numbers is rounded to itself.
-/
namespace StoredProgram

theorem divNearest_mul_right {den : Nat} (hden : 0 < den) (quotient : Nat) :
    divNearest (quotient * den) den = quotient := by
  simp [divNearest, Nat.mul_div_cancel _ hden, hden]

namespace Number

/-- The zero with a sign. -/
def negativeZero : Number := ⟨0x8000000000000000⟩

theorem toNat_bits_lt (v : Number) : v.bits.toNat < 2 * signWeight := v.bits.toNat_lt

/-- There are two zeros. -/
theorem isZero_iff (v : Number) : v.isZero = true ↔ v = zero ∨ v = negativeZero := by
  have hlt := v.toNat_bits_lt
  constructor
  · intro h
    have hmagnitude : v.bits.toNat % signWeight = 0 := of_decide_eq_true h
    have hbits : v.bits.toNat = 0 ∨ v.bits.toNat = signWeight := by
      unfold signWeight at *
      omega
    rcases hbits with hzero | hsign
    · exact Or.inl (congrArg Number.mk (UInt64.toNat_inj.mp hzero))
    · exact Or.inr (congrArg Number.mk (UInt64.toNat_inj.mp hsign))
  · rintro (rfl | rfl) <;> decide

theorem ofMagnitude_magnitude (v : Number) : ofMagnitude v.isNegative v.magnitude = v := by
  have hlt := v.toNat_bits_lt
  have hbits : (if v.isNegative then signWeight + v.magnitude else v.magnitude) =
      v.bits.toNat := by
    simp only [isNegative, magnitude, decide_eq_true_eq]
    unfold signWeight at *
    split <;> omega
  rw [ofMagnitude, hbits, UInt64.ofNat_toNat]

theorem unitsPerOne_pos : 0 < unitsPerOne := by decide +kernel

theorem unitsPerOne_lt : unitsPerOne < 10 ^ lowestExponent := by decide +kernel

/-- The binary digits that a magnitude keeps, and how far they are shifted. -/
theorem exists_shift (v : Number) :
    ∃ kept shift, v.units = kept * 2 ^ shift ∧ v.magnitude = shift * fractionCount + kept ∧
      (kept < 2 * fractionCount) ∧ (shift = 0 ∨ fractionCount ≤ kept) := by
  have hfraction := Nat.mod_lt v.magnitude (show 0 < fractionCount by decide)
  have hdivision := Nat.div_add_mod v.magnitude fractionCount
  by_cases hsmall : v.magnitude < fractionCount
  · exact ⟨v.magnitude, 0, by simp [units, hsmall], by simp, by omega, Or.inl rfl⟩
  · have hexponent : 0 < v.magnitude / fractionCount :=
      Nat.div_pos (by omega) (by decide)
    refine ⟨fractionCount + v.magnitude % fractionCount, v.magnitude / fractionCount - 1, ?_, ?_,
      by omega, Or.inr (by omega)⟩
    · simp [units, hsmall]
    · rw [Nat.sub_mul, Nat.mul_comm]
      have hone : fractionCount ≤ fractionCount * (v.magnitude / fractionCount) :=
        Nat.le_mul_of_pos_right _ hexponent
      omega

theorem log2_units {v : Number} {kept shift : Nat} (hunits : v.units = kept * 2 ^ shift)
    (hkept : kept < 2 * fractionCount) (hshift : shift = 0 ∨ fractionCount ≤ kept) :
    v.units.log2 - 52 = shift := by
  have hcount : fractionCount = 2 ^ 52 := rfl
  rcases hshift with rfl | hfull
  · have hlog : v.units.log2 < 53 := by
      rw [hunits, Nat.pow_zero, Nat.mul_one]
      rcases Nat.eq_zero_or_pos kept with rfl | hpos
      · decide
      · exact (Nat.log2_lt (by omega)).mpr (by omega)
    omega
  · have hpos : v.units ≠ 0 := by
      rw [hunits]
      exact Nat.mul_ne_zero (by omega) (by simp)
    have hlow : 52 + shift ≤ v.units.log2 := by
      rw [Nat.le_log2 hpos, hunits, Nat.pow_add, ← hcount]
      exact Nat.mul_le_mul_right _ hfull
    have hhigh : v.units.log2 < 53 + shift := by
      rw [Nat.log2_lt hpos, hunits, Nat.pow_add]
      exact Nat.mul_lt_mul_of_pos_right (by omega) (by simp)
    omega

/-- A quotient that is the value of a finite number is rounded to that number. -/
theorem nearestMagnitude_of_units {v : Number} {num den : Nat} (hfinite : v.isFinite)
    (hden : 0 < den) (h : num * unitsPerOne = v.units * den) :
    nearestMagnitude num den = v.magnitude := by
  obtain ⟨kept, shift, hunits, hmagnitude, hkept, hshift⟩ := v.exists_shift
  have hquotient : num * unitsPerOne / den = v.units := by rw [h, Nat.mul_div_cancel _ hden]
  have hscaled : num * unitsPerOne = kept * (den * 2 ^ shift) := by
    rw [h, hunits, Nat.mul_assoc, Nat.mul_comm (2 ^ shift)]
  have hlarge : v.magnitude < infinityMagnitude := of_decide_eq_true hfinite
  have hpos : 0 < den * 2 ^ shift := Nat.mul_pos hden (Nat.two_pow_pos shift)
  simp only [nearestMagnitude, hquotient, log2_units hunits hkept hshift, Nat.pow_eq]
  rw [hscaled, divNearest_mul_right hpos, ← hmagnitude]
  omega

theorem units_eq_zero_iff (v : Number) : v.units = 0 ↔ v.magnitude = 0 := by
  obtain ⟨kept, shift, hunits, hmagnitude, -, hshift⟩ := v.exists_shift
  have hcount : 0 < fractionCount := by decide
  have hpow : (2 ^ shift) ≠ 0 := by simp
  rw [hunits, hmagnitude, Nat.mul_eq_zero, or_iff_left hpow]
  constructor
  · rintro rfl
    obtain rfl : shift = 0 := by omega
    simp
  · omega

/-- All finite numbers are below ten to this power. -/
def highestExponent : Nat := 309

/-- How far the binary digits of the largest finite number are shifted. -/
def highestShift : Nat := 2045

theorem two_pow_highestShift_le :
    2 * fractionCount * 2 ^ highestShift ≤ 10 ^ highestExponent * unitsPerOne := by
  decide +kernel

theorem units_lt {v : Number} (hfinite : v.isFinite) :
    v.units < 10 ^ highestExponent * unitsPerOne := by
  obtain ⟨kept, shift, hunits, hmagnitude, hkept, hshift⟩ := v.exists_shift
  have hlarge : v.magnitude < infinityMagnitude := of_decide_eq_true hfinite
  have hle : shift ≤ highestShift := by
    unfold highestShift
    unfold fractionCount infinityMagnitude at *
    omega
  calc v.units = kept * 2 ^ shift := hunits
    _ < 2 * fractionCount * 2 ^ shift := Nat.mul_lt_mul_of_pos_right hkept (Nat.two_pow_pos shift)
    _ ≤ 2 * fractionCount * 2 ^ highestShift :=
      Nat.mul_le_mul_left _ (Nat.pow_le_pow_right (by decide) hle)
    _ ≤ 10 ^ highestExponent * unitsPerOne := two_pow_highestShift_le

/-- The absolute value of a finite number. -/
def value (v : Number) : ℚ := v.units / unitsPerOne

theorem value_mul_unitsPerOne (v : Number) : v.value * unitsPerOne = v.units := by
  have hpos : (unitsPerOne : ℚ) ≠ 0 := by exact_mod_cast unitsPerOne_pos.ne'
  rw [value, div_mul_cancel₀ _ hpos]

theorem value_eq_zero_iff (v : Number) : v.value = 0 ↔ v.magnitude = 0 := by
  have hpos : (unitsPerOne : ℚ) ≠ 0 := by exact_mod_cast unitsPerOne_pos.ne'
  rw [value, div_eq_zero_iff, or_iff_left hpos, Nat.cast_eq_zero, units_eq_zero_iff]

theorem value_lt {v : Number} (hfinite : v.isFinite) : v.value < 10 ^ highestExponent := by
  have hpos : (0 : ℚ) < unitsPerOne := by exact_mod_cast unitsPerOne_pos
  rw [value, div_lt_iff₀ hpos]
  exact_mod_cast units_lt hfinite

theorem lt_value {v : Number} (hpos : v.magnitude ≠ 0) :
    ((10 : ℚ) ^ lowestExponent)⁻¹ < v.value := by
  have hunit : (0 : ℚ) < unitsPerOne := by exact_mod_cast unitsPerOne_pos
  have hone : 1 ≤ v.units := Nat.one_le_iff_ne_zero.mpr ((units_eq_zero_iff v).not.mpr hpos)
  calc ((10 : ℚ) ^ lowestExponent)⁻¹ < (unitsPerOne : ℚ)⁻¹ :=
        inv_strictAnti₀ hunit (by exact_mod_cast unitsPerOne_lt)
    _ = 1 / unitsPerOne := (one_div _).symm
    _ ≤ v.value := div_le_div_of_nonneg_right (by exact_mod_cast hone) hunit.le

end Number

end StoredProgram
