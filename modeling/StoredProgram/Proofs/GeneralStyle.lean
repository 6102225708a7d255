import StoredProgram.Proofs.Rounding

/-!
The general style. A number is rounded to its significant digits to learn its exponent, and
then it is written either with an exponent or with decimal places, to which it is rounded
anew. Both forms write the number that the first rounding gave. The digits that are written
are as many as were asked for, or fewer where zeros at the end are dropped.
-/
namespace StoredProgram

namespace Literal

/-- An exponent is written. -/
def HasExponent (text : List Char) : Prop := 'e' ∈ text ∨ 'E' ∈ text

/-- A decimal up to its exponent. -/
def mantissaOf (text : List Char) : List Char := text.takeWhile fun c => c != 'e' && c != 'E'

/-- The digits of a decimal from the first on that is not zero. -/
def significant (text : List Char) : List Char :=
  ((mantissaOf text).filter Char.isDigit).dropWhile (· == '0')

theorem ne_mark {c : Char} (h : c.isDigit ∨ c = '.') : c ≠ 'e' ∧ c ≠ 'E' := by
  rcases h with hdigit | rfl
  · constructor
    · rintro rfl
      exact absurd hdigit (by decide)
    · rintro rfl
      exact absurd hdigit (by decide)
  · decide

namespace Positional

variable {front : List Char} {value : ℚ}

theorem isDigit_or_point (h : Positional front value) : ∀ c ∈ front, c.isDigit ∨ c = '.' := by
  cases h with
  | whole hne hdigits => exact fun c hc => Or.inl (hdigits c hc)
  | pointed hne hwhole hfraction =>
    intro c hc
    rcases List.mem_append.mp hc with hmem | hmem
    · exact Or.inl (hwhole c hmem)
    · rcases List.mem_cons.mp hmem with rfl | hmem
      · exact Or.inr rfl
      · exact Or.inl (hfraction c hmem)

theorem not_hasExponent (h : Positional front value) : ¬ HasExponent front := by
  rintro (hmem | hmem)
  · exact (ne_mark (h.isDigit_or_point 'e' hmem)).1 rfl
  · exact (ne_mark (h.isDigit_or_point 'E' hmem)).2 rfl

theorem mantissaOf_append (h : Positional front value) (tail : List Char)
    (htail : ∀ c ∈ tail.head?, c = 'e' ∨ c = 'E') : mantissaOf (front ++ tail) = front := by
  have hrun : Run (fun c => c != 'e' && c != 'E') front tail := by
    refine ⟨fun c hc => ?_, fun c hc => ?_⟩
    · simpa using ne_mark (h.isDigit_or_point c hc)
    · rcases htail c hc with rfl | rfl <;> decide
  exact hrun.takeWhile_append

theorem mantissaOf_eq (h : Positional front value) : mantissaOf front = front := by
  simpa using h.mantissaOf_append [] (by simp)

end Positional

/-- How many digits there are from the first on that is not zero follows from their value. -/
theorem length_dropWhile_le {digits : List Char} {count : Nat} (h : ∀ c ∈ digits, c.isDigit)
    (hhigh : digitsValue digits < 10 ^ count) :
    (digits.dropWhile (· == '0')).length ≤ count := by
  obtain ⟨leading, hleading, hvalue, hlow, -⟩ := exists_leading h
  rw [hleading]
  rcases hlow with rfl | hlow
  · exact Nat.zero_le count
  · have hlt : 10 ^ (leading.length - 1) < 10 ^ count :=
      lt_of_le_of_lt hlow (hvalue ▸ hhigh)
    have hlength := (Nat.pow_lt_pow_iff_right (by decide)).mp hlt
    omega

theorem lt_length_dropWhile {digits : List Char} {count : Nat} (h : ∀ c ∈ digits, c.isDigit)
    (hlow : 10 ^ count ≤ digitsValue digits) :
    count < (digits.dropWhile (· == '0')).length := by
  obtain ⟨leading, hleading, hvalue, -, hhigh⟩ := exists_leading h
  rw [hleading]
  exact (Nat.pow_lt_pow_iff_right (by decide)).mp (lt_of_le_of_lt hlow (hvalue ▸ hhigh))

theorem digitsValue_le_append (front back : List Char) :
    digitsValue front ≤ digitsValue (front ++ back) := by
  have hpower : 0 < 10 ^ back.length := Nat.pow_pos (by decide)
  rw [digitsValue_append]
  exact le_trans (Nat.le_mul_of_pos_left _ hpower) (Nat.le_add_right _ _)

end Literal

open Literal

theorem filter_isDigit_pointed {whole fraction : List Char} (hwhole : ∀ c ∈ whole, c.isDigit)
    (hfraction : ∀ c ∈ fraction, c.isDigit) :
    (whole ++ '.' :: fraction).filter Char.isDigit = whole ++ fraction := by
  rw [List.filter_append, List.filter_cons_of_neg (by decide), List.filter_eq_self.mpr hwhole,
    List.filter_eq_self.mpr hfraction]

theorem filter_isDigit_joined {whole fraction : List Char} (hwhole : ∀ c ∈ whole, c.isDigit)
    (hfraction : ∀ c ∈ fraction, c.isDigit) :
    (joined whole fraction).filter Char.isDigit = whole ++ fraction := by
  unfold joined
  split
  · next hnone => rw [hnone, List.append_nil, List.filter_eq_self.mpr hwhole]
  · exact filter_isDigit_pointed hwhole hfraction

theorem getLast?_joined {whole kept : List Char} (hwhole : ∀ c ∈ whole, c.isDigit)
    (hdigits : ∀ c ∈ kept, c.isDigit) (hkept : ∀ c ∈ kept.getLast?, c ≠ '0')
    (hpoint : '.' ∈ joined whole kept) :
    ∀ c ∈ (joined whole kept).getLast?, c ≠ '0' ∧ c ≠ '.' := by
  unfold joined at hpoint ⊢
  split at hpoint
  · exact absurd (hwhole '.' hpoint) (by decide)
  · next hsome =>
    rw [if_neg hsome, getLast?_pointed hsome]
    intro c hc
    exact ⟨hkept c hc, by simpa using ne_point_of_isDigit (hdigits c (List.mem_of_getLast? hc))⟩

/-- Significant digits that end at a decimal place write a count of that place. -/
theorem Scientific.value_of_places {d : Scientific} {places fraction : Nat}
    (h : (fraction : ℤ) = places - d.exponent) :
    d.value places = d.coefficient / 10 ^ fraction := by
  have hexponent : d.exponent = places - fraction := by omega
  rw [value, hexponent, zpow_sub₀ (by decide), zpow_natCast, zpow_natCast]
  field_simp

namespace Conversion

variable {c : Conversion} {v : Number}

theorem significantDigits_pos (c : Conversion) : 1 ≤ c.significantDigits := Nat.le_max_left 1 _

/-- A count of last places in the form that the flags ask for: with a point in any case, or
without the zeros at the end. -/
def written (c : Conversion) (n places : Nat) : List Char :=
  c.trimmed (withPoint c.flags.alternate places (positional n places))

theorem written_writes (c : Conversion) (n places : Nat) :
    Positional (c.written n places) (n / 10 ^ places : ℚ) :=
  trimmed_writes (withPoint_writes _ n places)

theorem written_of_alternate (h : c.flags.alternate = true) (n places : Nat) :
    ∃ whole fraction, (∀ d ∈ whole, d.isDigit) ∧ (∀ d ∈ fraction, d.isDigit) ∧
      digitsValue (whole ++ fraction) = n ∧ c.written n places = whole ++ '.' :: fraction := by
  obtain ⟨whole, fraction, -, hwhole, hfraction, rfl, hvalue, htext⟩ := exists_joined n places
  refine ⟨whole, fraction, hwhole, hfraction, hvalue, ?_⟩
  rw [written, trimmed, if_pos h, h, htext, withPoint, joined]
  by_cases hnone : fraction = []
  · simp [hnone]
  · simp [hnone]

theorem written_of_not_alternate (h : c.flags.alternate = false) (n places : Nat) :
    ∃ whole kept, (∀ d ∈ whole, d.isDigit) ∧ (∀ d ∈ kept, d.isDigit) ∧
      (∀ d ∈ kept.getLast?, d ≠ '0') ∧ digitsValue (whole ++ kept) ≤ n ∧
      c.written n places = joined whole kept := by
  obtain ⟨whole, fraction, -, hwhole, hfraction, -, rfl, htext⟩ := exists_joined n places
  have hwritten : c.written (digitsValue (whole ++ fraction)) places =
      withoutZeros (joined whole fraction) := by
    simp [written, trimmed, withPoint, h, htext]
  rw [hwritten]
  by_cases hnone : fraction = []
  · subst hnone
    refine ⟨whole, [], hwhole, by simp, by simp, Nat.le_refl _, ?_⟩
    exact withoutZeros_of_isDigit hwhole
  · obtain ⟨kept, zeros, rfl, hzeros, hkept⟩ := exists_trailing_zeros fraction
    have hdigits : ∀ d ∈ kept, d.isDigit := fun d hd => hfraction d (List.mem_append_left _ hd)
    refine ⟨whole, kept, hwhole, hdigits, hkept, ?_, ?_⟩
    · rw [← List.append_assoc]
      exact digitsValue_le_append _ zeros
    · rw [joined, if_neg hnone]
      exact withoutZeros_pointed hwhole hdigits hzeros hkept

/-- The scientific form with the significant digits of the general style. -/
def rounded (c : Conversion) (v : Number) : Scientific := v.scientific (c.significantDigits - 1)

theorem rounded_coefficient_lt (c : Conversion) (v : Number) :
    (c.rounded v).coefficient < 10 ^ c.significantDigits := by
  by_cases hzero : v.isZero
  · rw [rounded, Number.scientific_of_isZero hzero]
    exact Nat.pow_pos (by decide)
  · have hhigh := (Number.coefficient_bounds hzero (c.significantDigits - 1)).2
    rwa [Nat.sub_add_cancel c.significantDigits_pos] at hhigh

/-- The exponents for which the general style is positional. -/
def InRange (c : Conversion) (exponent : ℤ) : Prop := -4 ≤ exponent ∧ exponent < c.significantDigits

/-- The decimal places go as far as the significant digits, and never fall short of the
point. -/
theorem generalBody_of_inRange (h : c.InRange (c.rounded v).exponent) :
    ∃ places : Nat, (places : ℤ) = c.significantDigits - 1 - (c.rounded v).exponent ∧
      c.generalBody v = c.trimmed (c.fixedBody v places) ∧
      c.generalBody v = c.written (c.rounded v).coefficient places := by
  have hcast := Nat.cast_pred (R := ℤ) c.significantDigits_pos
  have hle : 0 ≤ (c.significantDigits - 1 : ℤ) - (c.rounded v).exponent := by
    have hhigh := h.2
    omega
  obtain ⟨places, hplaces⟩ := Int.eq_ofNat_of_zero_le hle
  have hbody : c.generalBody v = c.trimmed (c.fixedBody v places) := by
    have hnat : ((c.significantDigits - 1 : Nat) - (c.rounded v).exponent : ℤ).toNat = places := by
      rw [hcast, hplaces, Int.toNat_natCast]
    rw [← hnat]
    exact if_pos h
  refine ⟨places, hplaces.symm, hbody, ?_⟩
  have hsame : v.roundedAt places = (c.rounded v).coefficient :=
    Number.roundedAt_eq_coefficient (by rw [hcast]; exact hplaces.symm)
  rw [hbody, fixedBody, Number.fixed, hsame, written]

theorem generalBody_of_not_inRange (h : ¬ c.InRange (c.rounded v).exponent) :
    c.generalBody v = c.written (c.rounded v).coefficient (c.significantDigits - 1) ++
      exponentText c.upper (c.rounded v).exponent :=
  if_neg h

theorem head?_exponentText (upper : Bool) (exponent : ℤ) :
    ∀ d ∈ (exponentText upper exponent).head?, d = 'e' ∨ d = 'E' := by
  cases upper <;> simp [exponentText]

theorem hasExponent_append_exponentText (front : List Char) (upper : Bool) (exponent : ℤ) :
    HasExponent (front ++ exponentText upper exponent) := by
  cases upper <;> simp [HasExponent, exponentText]

theorem hasExponent_generalBody_iff :
    HasExponent (c.generalBody v) ↔ ¬ c.InRange (c.rounded v).exponent := by
  constructor
  · intro hmark hrange
    obtain ⟨places, -, -, hbody⟩ := generalBody_of_inRange hrange
    rw [hbody] at hmark
    exact (written_writes _ _ _).not_hasExponent hmark
  · intro hrange
    rw [generalBody_of_not_inRange hrange]
    exact hasExponent_append_exponentText _ _ _

/-- The text starts with the coefficient, and only an exponent may follow. -/
theorem exists_mantissaOf_generalBody (c : Conversion) (v : Number) :
    ∃ places, mantissaOf (c.generalBody v) = c.written (c.rounded v).coefficient places := by
  by_cases hrange : c.InRange (c.rounded v).exponent
  · obtain ⟨places, -, -, hbody⟩ := generalBody_of_inRange hrange
    exact ⟨places, by rw [hbody, (written_writes _ _ _).mantissaOf_eq]⟩
  · rw [generalBody_of_not_inRange hrange]
    exact ⟨_, (written_writes _ _ _).mantissaOf_append _ (head?_exponentText _ _)⟩

/-- Both forms write the number of the significant digits. -/
theorem generalBody_writes (hfinite : v.isFinite) :
    Writes (c.generalBody v) ((c.rounded v).value (c.significantDigits - 1)) := by
  by_cases hrange : c.InRange (c.rounded v).exponent
  · obtain ⟨places, hplaces, -, hbody⟩ := generalBody_of_inRange hrange
    rw [← Nat.cast_pred c.significantDigits_pos] at hplaces
    rw [hbody, Scientific.value_of_places hplaces]
    exact (written_writes _ _ _).writes
  · rw [generalBody_of_not_inRange hrange]
    exact writes_scientific hfinite c.upper (written_writes _ _ _)

theorem generalBody_of_hasExponent (h : HasExponent (c.generalBody v)) :
    c.generalBody v =
      mantissaOf (c.generalBody v) ++ exponentText c.upper (c.rounded v).exponent := by
  rw [generalBody_of_not_inRange (hasExponent_generalBody_iff.mp h),
    (written_writes _ _ _).mantissaOf_append _ (head?_exponentText _ _)]

theorem significant_of_not_alternate (h : c.flags.alternate = false) :
    (significant (c.generalBody v)).length ≤ c.significantDigits ∧
      ('.' ∈ mantissaOf (c.generalBody v) →
        ∀ d ∈ (mantissaOf (c.generalBody v)).getLast?, d ≠ '0' ∧ d ≠ '.') := by
  obtain ⟨places, hmantissa⟩ := c.exists_mantissaOf_generalBody v
  obtain ⟨whole, kept, hwhole, hdigits, hkept, hvalue, hwritten⟩ :=
    written_of_not_alternate h (c.rounded v).coefficient places
  rw [significant, hmantissa, hwritten]
  refine ⟨?_, getLast?_joined hwhole hdigits hkept⟩
  rw [filter_isDigit_joined hwhole hdigits]
  exact length_dropWhile_le (List.forall_mem_append.mpr ⟨hwhole, hdigits⟩)
    (lt_of_le_of_lt hvalue (c.rounded_coefficient_lt v))

theorem significant_of_alternate (h : c.flags.alternate = true) :
    '.' ∈ mantissaOf (c.generalBody v) ∧
      (v.isZero = false → (significant (c.generalBody v)).length = c.significantDigits) := by
  obtain ⟨places, hmantissa⟩ := c.exists_mantissaOf_generalBody v
  obtain ⟨whole, fraction, hwhole, hfraction, hvalue, hwritten⟩ :=
    written_of_alternate h (c.rounded v).coefficient places
  rw [significant, hmantissa, hwritten]
  refine ⟨by simp, fun hzero => ?_⟩
  have hdigits := List.forall_mem_append.mpr ⟨hwhole, hfraction⟩
  have hlow : 10 ^ (c.significantDigits - 1) ≤ digitsValue (whole ++ fraction) :=
    hvalue ▸ (Number.coefficient_bounds (Bool.eq_false_iff.mp hzero) _).1
  have hhigh : digitsValue (whole ++ fraction) < 10 ^ c.significantDigits :=
    hvalue ▸ c.rounded_coefficient_lt v
  rw [filter_isDigit_pointed hwhole hfraction]
  have hle := length_dropWhile_le hdigits hhigh
  have hlt := lt_length_dropWhile hdigits hlow
  omega

/-- The general style and the scientific style write the same number: the value, rounded to
the significant digits. Which form it takes follows from the exponent after rounding. -/
theorem general_agrees_with_scientific (c : Conversion) (v : Number)
    (hstyle : c.style = .general) (hfinite : v.isFinite = true) :
    let digits := max 1 (c.precision.getD 6)
    let scientific : Conversion := { c with style := .scientific, precision := some (digits - 1) }
    let d := v.scientific (digits - 1)
    -- the significant digits are the nearest to the value, and even in a tie
    (RoundsTo (v.value * 10 ^ (digits - 1 - d.exponent)) d.coefficient ∧
      (v.isZero = false → 10 ^ (digits - 1) ≤ d.coefficient ∧ d.coefficient < 10 ^ digits) ∧
      (v.isZero = true → d = ⟨0, 0⟩)) ∧
    -- they and the exponent are what the scientific style writes
    (Writes (scientific.body v) (d.value (digits - 1)) ∧
      scientific.body v =
        mantissaOf (scientific.body v) ++ exponentText c.upper d.exponent) ∧
    Writes (c.body v) (d.value (digits - 1)) ∧
    (¬ HasExponent (c.body v) ↔ -4 ≤ d.exponent ∧ d.exponent < digits) ∧
    (HasExponent (c.body v) →
      c.body v = mantissaOf (c.body v) ++ exponentText c.upper d.exponent) ∧
    (-4 ≤ d.exponent ∧ d.exponent < digits → ∃ places : Nat,
      (places : ℤ) = digits - 1 - d.exponent ∧ c.body v = c.trimmed (c.fixedBody v places)) ∧
    (c.flags.alternate = false → (significant (c.body v)).length ≤ digits ∧
      ('.' ∈ mantissaOf (c.body v) →
        ∀ x ∈ (mantissaOf (c.body v)).getLast?, x ≠ '0' ∧ x ≠ '.')) ∧
    (c.flags.alternate = true → '.' ∈ mantissaOf (c.body v) ∧
      (v.isZero = false → (significant (c.body v)).length = digits)) := by
  intro digits scientific d
  have hpos : 1 ≤ digits := c.significantDigits_pos
  have hbody : c.body v = c.generalBody v := by rw [body, hstyle, hfinite]
  have hscientific : scientific.body v =
      scientific.mantissa d (digits - 1) ++ exponentText c.upper d.exponent := by
    rw [body, hfinite]
    rfl
  have hrounds := v.roundsTo_scientific (digits - 1)
  rw [Nat.cast_pred hpos] at hrounds
  rw [hbody]
  refine ⟨⟨hrounds, fun hzero => ?_, fun hzero => Number.scientific_of_isZero hzero _⟩,
    ⟨?_, ?_⟩, generalBody_writes hfinite, ?_, generalBody_of_hasExponent, fun hrange => ?_,
    significant_of_not_alternate, significant_of_alternate⟩
  · have hbounds := Number.coefficient_bounds (Bool.eq_false_iff.mp hzero) (digits - 1)
    rwa [Nat.sub_add_cancel hpos] at hbounds
  · rw [hscientific]
    exact writes_scientific hfinite c.upper (withPoint_writes _ _ _)
  · rw [hscientific, mantissa,
      (withPoint_writes _ _ _).mantissaOf_append _ (head?_exponentText _ _)]
  · rw [hasExponent_generalBody_iff, not_not]
    rfl
  · obtain ⟨places, hplaces, htrimmed, -⟩ := generalBody_of_inRange hrange
    exact ⟨places, hplaces, htrimmed⟩

/-- A tie that is rounded up carries over all digits of 999999.5, and it is the exponent after
this that asks for the exponent to be written. -/
theorem general_of_carrying_tie :
    let c : Conversion := ⟨⟨false, false, false, false, true⟩, none, none, .general, false⟩
    let v : Number := ⟨0x412E847F00000000⟩
    c.style = .general ∧ v.isFinite = true ∧ v.scientific 5 = ⟨100000, 6⟩ ∧
      c.body v = "1.00000e+06".toList ∧
      RoundsTo (v.value * 10 ^ (-1 : ℤ)) 100000 ∧
      Writes (c.body v) (Scientific.value 5 ⟨100000, 6⟩) ∧ HasExponent (c.body v) ∧
      (significant (c.body v)).length = 6 := by
  intro c v
  have hfinite : v.isFinite = true := by decide
  have hrounded : v.scientific 5 = ⟨100000, 6⟩ := by decide +kernel
  have hbody : c.body v = "1.00000e+06".toList := by decide +kernel
  obtain ⟨⟨hrounds, -, -⟩, -, hwrites, hform, -, -, -, halternate⟩ :=
    general_agrees_with_scientific c v rfl hfinite
  have hmark : HasExponent (c.body v) := by
    by_contra hnone
    have hrange := hform.mp hnone
    change _ ∧ (v.scientific 5).exponent < 6 at hrange
    rw [hrounded] at hrange
    exact absurd hrange.2 (by decide)
  change RoundsTo (v.value * 10 ^ ((6 : Nat) - 1 - (v.scientific 5).exponent : ℤ))
    (v.scientific 5).coefficient at hrounds
  change Writes (c.body v) ((v.scientific 5).value 5) at hwrites
  rw [hrounded] at hrounds hwrites
  exact ⟨rfl, hfinite, hrounded, hbody, hrounds, hwrites, hmark,
    (halternate rfl).2 (by decide)⟩

end Conversion

end StoredProgram
