import StoredProgram.Proofs.Decimals

/-!
What printed digits write, and printing without loss. The digits of a decimal form write its
value, also with a point at the end or after the zeros at the end are dropped. The decimal
expansion of a number ends, at the latest after as many places as its units have binary ones,
and with so many places nothing is rounded off.
-/
namespace StoredProgram

open Literal

theorem isDigit_of_mem_toDigits {n : Nat} : ∀ c ∈ Nat.toDigits 10 n, c.isDigit :=
  fun _ hc => Nat.isDigit_of_mem_toDigits (by decide) (by decide) hc

theorem zeroFilled_eq (count n : Nat) :
    zeroFilled count n = decimalDigits (count - (Nat.toDigits 10 n).length) n := rfl

theorem length_zeroFilled {count n : Nat} (hcount : 0 < count) (h : n < 10 ^ count) :
    (zeroFilled count n).length = count := by
  have hle := (Nat.length_toDigits_le_iff (by decide) hcount).mpr h
  rw [zeroFilled, List.length_leftpad]
  omega

/-- Digits, and others after a point, which is left out if there are none. -/
def joined (whole fraction : List Char) : List Char :=
  if fraction = [] then whole else whole ++ '.' :: fraction

theorem joined_writes {whole fraction : List Char} (hne : whole ≠ [])
    (hwhole : ∀ c ∈ whole, c.isDigit) (hfraction : ∀ c ∈ fraction, c.isDigit) :
    Positional (joined whole fraction)
      (digitsValue (whole ++ fraction) / 10 ^ fraction.length) := by
  unfold joined
  split
  · next hnone =>
    subst hnone
    simpa using Positional.whole hne hwhole
  · exact Positional.pointed hne hwhole hfraction

/-- The digits of a positional form make up the count of its last places. -/
theorem exists_joined (n places : Nat) :
    ∃ whole fraction, whole ≠ [] ∧ (∀ c ∈ whole, c.isDigit) ∧ (∀ c ∈ fraction, c.isDigit) ∧
      fraction.length = places ∧ digitsValue (whole ++ fraction) = n ∧
      positional n places = joined whole fraction := by
  rcases Nat.eq_zero_or_pos places with rfl | hpos
  · refine ⟨Nat.toDigits 10 n, [], Nat.toDigits_ne_nil, isDigit_of_mem_toDigits, by simp, rfl,
      ?_, ?_⟩
    · rw [List.append_nil, digitsValue_toDigits]
    · simp [positional, joined]
  · have hlength : (zeroFilled places (n % 10 ^ places)).length = places :=
      length_zeroFilled hpos (Nat.mod_lt n (Nat.pow_pos (by decide)))
    have hsome : zeroFilled places (n % 10 ^ places) ≠ [] := by
      rw [← List.length_pos_iff, hlength]
      exact hpos
    refine ⟨Nat.toDigits 10 (n / 10 ^ places), zeroFilled places (n % 10 ^ places),
      Nat.toDigits_ne_nil, isDigit_of_mem_toDigits, isDigit_of_mem_decimalDigits, hlength, ?_, ?_⟩
    · rw [digitsValue_append, hlength, digitsValue_toDigits, zeroFilled_eq,
        digitsValue_decimalDigits, Nat.div_add_mod]
    · rw [positional, if_neg hpos.ne', joined, if_neg hsome, Nat.pow_eq]

/-- A count of last places in positional form writes what the count comes to. -/
theorem positional_writes (n places : Nat) :
    Positional (positional n places) (n / 10 ^ places : ℚ) := by
  obtain ⟨whole, fraction, hne, hwhole, hfraction, rfl, rfl, htext⟩ := exists_joined n places
  rw [htext]
  exact joined_writes hne hwhole hfraction

theorem Text.dropEndWhile_append {p : Char → Bool} {kept tail : List Char}
    (htail : ∀ c ∈ tail, p c) (hkept : ∀ c ∈ kept.getLast?, p c = false) :
    dropEndWhile p (kept ++ tail) = kept := by
  have hrun : Run p tail.reverse kept.reverse := by
    refine ⟨by simpa using htail, ?_⟩
    rwa [List.head?_reverse]
  rw [dropEndWhile, List.reverse_append, hrun.dropWhile_append, List.reverse_reverse]

theorem Text.dropEndWhile_of_getLast? {p : Char → Bool} {kept : List Char}
    (hkept : ∀ c ∈ kept.getLast?, p c = false) : dropEndWhile p kept = kept := by
  have hnothing := dropEndWhile_append (List.forall_mem_nil (p · = true)) hkept
  rwa [List.append_nil] at hnothing

theorem exists_trailing_zeros (digits : List Char) :
    ∃ kept zeros, digits = kept ++ zeros ∧ (∀ c ∈ zeros, c = '0') ∧
      ∀ c ∈ kept.getLast?, c ≠ '0' := by
  obtain ⟨run, rest, hdigits, hrun⟩ := Run.exists_run (· == '0') digits.reverse
  refine ⟨rest.reverse, run.reverse, ?_, ?_, ?_⟩
  · rw [← List.reverse_append, ← hdigits, List.reverse_reverse]
  · intro c hc
    simpa using hrun.all c (List.mem_reverse.mp hc)
  · intro c hc
    rw [List.getLast?_reverse] at hc
    simpa using hrun.stops c hc

/-- Zeros at the end of the places do not count. -/
theorem div_pow_append_zeros (whole kept : List Char) {zeros : List Char}
    (hzeros : ∀ c ∈ zeros, c = '0') :
    (digitsValue (whole ++ (kept ++ zeros)) : ℚ) / 10 ^ (kept ++ zeros).length =
      digitsValue (whole ++ kept) / 10 ^ kept.length := by
  rw [← List.append_assoc, digitsValue_append, digitsValue_of_zeros hzeros, Nat.add_zero,
    List.length_append, pow_add, Nat.cast_mul, Nat.cast_pow, Nat.cast_ofNat, mul_comm]
  exact mul_div_mul_right _ _ (pow_ne_zero _ (by decide))

theorem ne_point_of_isDigit {c : Char} (h : c.isDigit) : (c == '.') = false := by
  rw [beq_eq_false_iff_ne]
  rintro rfl
  exact absurd h (by decide)

theorem getLast?_pointed {whole fraction : List Char} (h : fraction ≠ []) :
    (whole ++ '.' :: fraction).getLast? = fraction.getLast? := by
  obtain ⟨c, more, rfl⟩ := List.exists_cons_of_ne_nil h
  rw [List.getLast?_append_cons, List.getLast?_cons_cons]

theorem withoutZeros_pointed {whole kept zeros : List Char} (hwhole : ∀ c ∈ whole, c.isDigit)
    (hdigits : ∀ c ∈ kept, c.isDigit) (hzeros : ∀ c ∈ zeros, c = '0')
    (hkept : ∀ c ∈ kept.getLast?, c ≠ '0') :
    Conversion.withoutZeros (whole ++ '.' :: (kept ++ zeros)) = joined whole kept := by
  have hsplit : whole ++ '.' :: (kept ++ zeros) = (whole ++ '.' :: kept) ++ zeros := by simp
  have hcontains : (whole ++ '.' :: (kept ++ zeros)).contains '.' := by simp
  have hlast : ∀ c ∈ (whole ++ '.' :: kept).getLast?, (c == '0') = false := by
    intro c hc
    by_cases hnone : kept = []
    · subst hnone
      obtain rfl : '.' = c := by simpa using hc
      rfl
    · rw [getLast?_pointed hnone] at hc
      simpa using hkept c hc
  rw [Conversion.withoutZeros, if_pos hcontains, hsplit,
    Text.dropEndWhile_append (by simpa using hzeros) hlast, joined]
  split
  · next hnone =>
    subst hnone
    apply Text.dropEndWhile_append
    · simp
    · intro c hc
      exact ne_point_of_isDigit (hwhole c (List.mem_of_getLast? hc))
  · next hsome =>
    apply Text.dropEndWhile_of_getLast?
    intro c hc
    rw [getLast?_pointed hsome] at hc
    exact ne_point_of_isDigit (hdigits c (List.mem_of_getLast? hc))

theorem withoutZeros_of_isDigit {text : List Char} (h : ∀ c ∈ text, c.isDigit) :
    Conversion.withoutZeros text = text := by
  have hcontains : text.contains '.' = false := by
    rw [List.contains_eq_mem, decide_eq_false_iff_not]
    intro hmem
    exact absurd (h '.' hmem) (by decide)
  rw [Conversion.withoutZeros, hcontains]
  rfl

/-- Dropping zeros at the end, and a point with them, keeps the value. -/
theorem Literal.Positional.withoutZeros {text : List Char} {value : ℚ} (h : Positional text value) :
    Positional (Conversion.withoutZeros text) value := by
  cases h with
  | whole hne hdigits =>
    rw [withoutZeros_of_isDigit hdigits]
    exact Positional.whole hne hdigits
  | @pointed whole fraction hne hwhole hfraction =>
    obtain ⟨kept, zeros, rfl, hzeros, hkept⟩ := exists_trailing_zeros fraction
    have hdigits : ∀ c ∈ kept, c.isDigit := fun c hc => hfraction c (List.mem_append_left _ hc)
    rw [withoutZeros_pointed hwhole hdigits hzeros hkept, div_pow_append_zeros whole kept hzeros]
    exact joined_writes hne hwhole hdigits

theorem exponentText_writes (upper : Bool) {exponent : ℤ}
    (h : exponent.natAbs ≤ exponentLimit) :
    ExponentPart (Conversion.exponentText upper exponent) exponent := by
  have hmark : (if upper then 'E' else 'e') = 'e' ∨ (if upper then 'E' else 'e') = 'E' := by
    cases upper <;> simp
  have hpart := ExponentPart.signed (decide (exponent < 0)) hmark
    (decimalDigits_ne_nil (2 - (Nat.toDigits 10 exponent.natAbs).length) exponent.natAbs)
    isDigit_of_mem_decimalDigits (by rwa [digitsValue_decimalDigits])
  have hexponent : (if decide (exponent < 0) then -(exponent.natAbs : ℤ) else exponent.natAbs) =
      exponent := by
    simp only [decide_eq_true_eq]
    omega
  rw [digitsValue_decimalDigits, hexponent] at hpart
  simpa only [Conversion.exponentText, zeroFilled_eq, decide_eq_true_eq] using hpart

namespace Number

/-- The number of decimal places after which every number is over. -/
def finestPlaces : Nat := 1074

theorem unitsPerOne_dvd_finest : unitsPerOne ∣ 10 ^ finestPlaces := by decide +kernel

theorem unitsPerOne_dvd {places : Nat} (h : finestPlaces ≤ places) : unitsPerOne ∣ 10 ^ places :=
  Nat.dvd_trans unitsPerOne_dvd_finest (Nat.pow_dvd_pow 10 h)

theorem cast_divNearest {num den : Nat} (hden : 0 < den) (h : den ∣ num) :
    (divNearest num den : ℚ) = num / den := by
  obtain ⟨quotient, rfl⟩ := h
  have hne : (den : ℚ) ≠ 0 := by exact_mod_cast hden.ne'
  rw [Nat.mul_comm, divNearest_mul_right hden, Nat.cast_mul, mul_div_cancel_right₀ _ hne]

theorem roundedAt_div_pow (v : Number) {places : Nat} (h : finestPlaces ≤ places) :
    (v.roundedAt places : ℚ) / 10 ^ places = v.value := by
  have hdvd : unitsPerOne ∣ v.units * 10 ^ places := Dvd.dvd.mul_left (unitsPerOne_dvd h) _
  have hten : (10 : ℚ) ^ places ≠ 0 := pow_ne_zero _ (by decide)
  rw [roundedAt, Nat.pow_eq, cast_divNearest unitsPerOne_pos hdvd, value, Nat.cast_mul,
    Nat.cast_pow, Nat.cast_ofNat, div_right_comm, mul_div_cancel_right₀ _ hten]

end Number

/-- The value of a scientific form with the given places. -/
def Scientific.value (places : Nat) (d : Scientific) : ℚ :=
  d.coefficient / 10 ^ places * 10 ^ d.exponent

theorem Scientific.value_carry (places : Nat) (d : Scientific) :
    (d.carry places).value places = d.value places := by
  unfold carry
  split
  · next hgrown =>
    simp only [value, hgrown, Nat.pow_eq, Nat.cast_pow, Nat.cast_ofNat]
    rw [pow_succ, zpow_add_one₀ (by decide)]
    field_simp
  · rfl

theorem Scientific.exponent_carry (places : Nat) (d : Scientific) :
    (d.carry places).exponent = d.exponent ∨ (d.carry places).exponent = d.exponent + 1 := by
  unfold carry
  split
  · exact Or.inr rfl
  · exact Or.inl rfl

namespace Number

theorem decimalRank_lt {v : Number} (hfinite : v.isFinite) :
    v.decimalRank < highestExponent + lowestExponent := by
  have hunits := units_lt hfinite
  have hpos : 0 < highestExponent + lowestExponent := by decide
  unfold decimalRank
  -- the powers are far too large to be looked at
  generalize lowestExponent = low at hpos ⊢
  generalize highestExponent = high at hunits hpos ⊢
  have hlt : v.units * 10 ^ low / unitsPerOne < 10 ^ (high + low) := by
    rw [Nat.div_lt_iff_lt_mul unitsPerOne_pos, pow_add, Nat.mul_right_comm,
      Nat.mul_lt_mul_right (Nat.pow_pos (by decide))]
    exact hunits
  have hlength := (Nat.length_toDigits_le_iff (by decide) hpos).mpr hlt
  exact lt_of_lt_of_le (Nat.sub_one_lt Nat.length_toDigits_pos.ne') hlength

theorem exponentOfRank_bounds {rank : Nat} (h : rank < highestExponent + lowestExponent) :
    -324 ≤ exponentOfRank rank ∧ exponentOfRank rank < 309 := by
  unfold highestExponent at h
  unfold exponentOfRank lowestExponent at *
  omega

theorem scientific_of_isZero {v : Number} (h : v.isZero) (places : Nat) :
    v.scientific places = ⟨0, 0⟩ := by
  rw [scientific, if_pos h]

theorem scientific_of_not_isZero {v : Number} (h : ¬ v.isZero) (places : Nat) :
    v.scientific places = Scientific.carry places
      ⟨divNearest (v.coefficientNum places) (coefficientDen v.decimalRank),
        exponentOfRank v.decimalRank⟩ := by
  rw [scientific, if_neg h]

theorem exponent_scientific_bounds {v : Number} (hfinite : v.isFinite) (places : Nat) :
    -324 ≤ (v.scientific places).exponent ∧ (v.scientific places).exponent ≤ 309 := by
  obtain ⟨hlow, hhigh⟩ := exponentOfRank_bounds (decimalRank_lt hfinite)
  by_cases hzero : v.isZero
  · rw [scientific_of_isZero hzero]
    exact ⟨by decide, by decide⟩
  · rw [scientific_of_not_isZero hzero]
    rcases Scientific.exponent_carry places
      ⟨divNearest (v.coefficientNum places) (coefficientDen v.decimalRank),
        exponentOfRank v.decimalRank⟩ with hsame | hnext
    · rw [hsame]
      exact ⟨hlow, hhigh.le⟩
    · rw [hnext]
      exact ⟨by simp only; omega, by simp only; omega⟩

/-- The coefficient is a quotient without rest if there are enough places. -/
theorem coefficientDen_dvd {v : Number} (hfinite : v.isFinite) {places : Nat}
    (h : 1399 ≤ places) : coefficientDen v.decimalRank ∣ v.coefficientNum places := by
  have hrank := decimalRank_lt hfinite
  have hle : v.decimalRank ≤ lowestExponent + places := by
    unfold highestExponent at hrank
    omega
  -- the leading digit stands below the place of ten to the 309
  have hfinest : finestPlaces ≤ lowestExponent + places - v.decimalRank := by
    unfold highestExponent lowestExponent at *
    unfold finestPlaces
    omega
  rw [coefficientDen, coefficientNum, Nat.pow_eq, Nat.pow_eq]
  apply Dvd.dvd.mul_left
  rw [← Nat.sub_add_cancel hle, pow_add]
  exact Nat.mul_dvd_mul_right (unitsPerOne_dvd hfinest) _

theorem coefficientDen_pos (rank : Nat) : 0 < coefficientDen rank :=
  Nat.mul_pos unitsPerOne_pos (Nat.pow_pos (by decide))

theorem coefficient_value (v : Number) (places rank : Nat) :
    (v.coefficientNum places : ℚ) / coefficientDen rank / 10 ^ places * 10 ^ exponentOfRank rank =
      v.value := by
  unfold coefficientNum coefficientDen exponentOfRank value
  generalize lowestExponent = low
  have hone : (unitsPerOne : ℚ) ≠ 0 := by exact_mod_cast unitsPerOne_pos.ne'
  rw [zpow_sub₀ (by decide), zpow_natCast, zpow_natCast, Nat.pow_eq, Nat.pow_eq, Nat.cast_mul,
    Nat.cast_mul, Nat.cast_pow, Nat.cast_pow, Nat.cast_ofNat, pow_add]
  field_simp

theorem value_scientific {v : Number} (hfinite : v.isFinite) {places : Nat} (h : 1399 ≤ places) :
    (v.scientific places).value places = v.value := by
  by_cases hzero : v.isZero
  · rw [scientific_of_isZero hzero, v.value_eq_zero_iff.mpr (of_decide_eq_true hzero)]
    simp [Scientific.value]
  · rw [scientific_of_not_isZero hzero, Scientific.value_carry, Scientific.value,
      cast_divNearest (coefficientDen_pos _) (coefficientDen_dvd hfinite h)]
    exact v.coefficient_value places v.decimalRank

end Number

namespace Conversion

variable {c : Conversion} {v : Number} {places : Nat}

/-- A point at the end does not count. -/
theorem withPoint_writes (alternate : Bool) (n places : Nat) :
    Positional (withPoint alternate places (positional n places)) (n / 10 ^ places : ℚ) := by
  unfold withPoint
  split
  · next hpoint =>
    rw [hpoint.2]
    simpa [positional, digitsValue_toDigits] using Positional.pointed Nat.toDigits_ne_nil
      (isDigit_of_mem_toDigits (n := n)) (List.forall_mem_nil (Char.isDigit · = true))
  · exact positional_writes n places

theorem trimmed_writes {digits : List Char} {value : ℚ} (h : Positional digits value) :
    Positional (c.trimmed digits) value := by
  unfold trimmed
  split
  · exact h
  · exact h.withoutZeros

theorem fixedBody_writes (c : Conversion) (v : Number) (places : Nat) :
    Positional (c.fixedBody v places) (v.roundedAt places / 10 ^ places : ℚ) :=
  withPoint_writes _ _ places

/-- The digits of a scientific form, as they are or trimmed, write its value with the
exponent after them. -/
theorem writes_scientific {digits : List Char} (hfinite : v.isFinite) (upper : Bool)
    (h : Positional digits ((v.scientific places).coefficient / 10 ^ places : ℚ)) :
    Writes (digits ++ exponentText upper (v.scientific places).exponent)
      ((v.scientific places).value places) := by
  obtain ⟨hlow, hhigh⟩ := Number.exponent_scientific_bounds hfinite places
  have hlimit : (v.scientific places).exponent.natAbs ≤ exponentLimit := by
    unfold exponentLimit
    omega
  exact Writes.intro h (exponentText_writes upper hlimit)

theorem scientificBody_writes (hfinite : v.isFinite) :
    Writes (c.scientificBody v places) ((v.scientific places).value places) :=
  writes_scientific hfinite c.upper (withPoint_writes _ _ places)

end Conversion

end StoredProgram
