import StoredProgram.Proofs.ReadBack

/-!
Fields. Without a width a conversion writes a sign or none, and a body that starts with no
sign, so that the two can be told apart in the text. A width adds the filling that is missing
and nothing else: blanks on either side, or zeros between the two. Except for integers the sign
tells the sign bit, also where the body shows a zero, and the body is the same for a number and
its opposite.
-/
namespace StoredProgram

open Literal

namespace Number

/-- The number with the other sign bit. -/
def opposite (v : Number) : Number := ofMagnitude (!v.isNegative) v.magnitude

theorem toNat_bits_ofMagnitude (negative : Bool) {magnitude : Nat} (h : magnitude < signWeight) :
    (ofMagnitude negative magnitude).bits.toNat =
      if negative then signWeight + magnitude else magnitude := by
  rw [ofMagnitude, UInt64.toNat_ofNat']
  apply Nat.mod_eq_of_lt
  unfold signWeight at *
  split <;> omega

theorem magnitude_lt (v : Number) : v.magnitude < signWeight := Nat.mod_lt _ (by decide)

@[simp] theorem magnitude_opposite (v : Number) : v.opposite.magnitude = v.magnitude := by
  have hlt := v.magnitude_lt
  rw [magnitude, opposite, toNat_bits_ofMagnitude _ hlt]
  split
  · rw [Nat.add_mod_left, Nat.mod_eq_of_lt hlt]
  · exact Nat.mod_eq_of_lt hlt

@[simp] theorem isNegative_opposite (v : Number) : v.opposite.isNegative = !v.isNegative := by
  have hlt := v.magnitude_lt
  rw [isNegative, opposite, toNat_bits_ofMagnitude _ hlt]
  cases v.isNegative with
  | false => simp
  | true => simpa using hlt

@[simp] theorem isZero_opposite (v : Number) : v.opposite.isZero = v.isZero := by
  simp [isZero]

@[simp] theorem isFinite_opposite (v : Number) : v.opposite.isFinite = v.isFinite := by
  simp [isFinite]

@[simp] theorem isNaN_opposite (v : Number) : v.opposite.isNaN = v.isNaN := by
  simp [isNaN]

@[simp] theorem units_opposite (v : Number) : v.opposite.units = v.units := by
  simp [units]

theorem fixed_opposite (v : Number) (places : Nat) : v.opposite.fixed places = v.fixed places := by
  simp only [fixed, roundedAt, units_opposite]

theorem scientific_opposite (v : Number) (places : Nat) :
    v.opposite.scientific places = v.scientific places := by
  simp only [scientific, decimalRank, coefficientNum, isZero_opposite, units_opposite]

end Number

namespace Conversion

variable {c : Conversion} {v : Number}

/-- A character that stands for a sign, of which a blank is one. -/
def isSign (x : Char) : Bool := x = '-' || x = '+' || x = ' '

/-- The rendering if no width is asked for. -/
def unpadded (c : Conversion) (v : Number) : List Char :=
  ({ c with width := none } : Conversion).render v

/-- How many characters that rendering falls short of the width. -/
def missing (c : Conversion) (v : Number) : Nat := c.width.getD 0 - (c.unpadded v).length

theorem unpadded_eq (c : Conversion) (v : Number) : c.unpadded v = c.sign v ++ c.body v :=
  render_of_no_width rfl

theorem isSign_of_isDigit {x : Char} (h : x.isDigit) : isSign x = false := by
  rw [Bool.eq_false_iff]
  intro hsign
  have hcases : (x = '-' ∨ x = '+') ∨ x = ' ' := by simpa [isSign] using hsign
  rcases hcases with (rfl | rfl) | rfl <;> exact absurd h (by decide)

theorem isDigit_head_of_writes {text : List Char} {value : ℚ} (h : Writes text value) :
    ∀ x ∈ text.head?, x.isDigit := by
  obtain ⟨hfront, -⟩ := h
  obtain ⟨first, rest, rfl, hdigit⟩ := hfront.head_isDigit
  intro x hx
  obtain rfl : first = x := by simpa using hx
  exact hdigit

theorem exists_body_writes (hfinite : v.isFinite) (hstyle : c.style ≠ .integer) :
    ∃ value, Writes (c.body v) value := by
  unfold body
  rw [hfinite]
  cases hkind : c.style with
  | fixed => exact ⟨_, (c.fixedBody_writes v c.places).writes⟩
  | scientific => exact ⟨_, scientificBody_writes hfinite⟩
  | general => exact ⟨_, generalBody_writes hfinite⟩
  | integer => exact absurd hkind hstyle

theorem isSign_head_body (c : Conversion) (v : Number) :
    ∀ x ∈ (c.body v).head?, isSign x = false := by
  intro x hx
  by_cases hstyle : c.style = .integer
  · rw [body, hstyle] at hx
    exact isSign_of_isDigit (isDigit_of_mem_decimalDigits x (List.mem_of_head? hx))
  · by_cases hfinite : v.isFinite
    · obtain ⟨value, hwrites⟩ := exists_body_writes hfinite hstyle
      exact isSign_of_isDigit (isDigit_head_of_writes hwrites x hx)
    · rw [body_of_not_isFinite hfinite hstyle, word] at hx
      revert x
      cases v.isNaN <;> cases c.upper <;> simp [isSign]

/-- The sign is one of the three, or there is none. -/
theorem sign_cases (c : Conversion) (v : Number) :
    (c.sign v).length ≤ 1 ∧ ∀ x ∈ c.sign v, isSign x := by
  unfold sign
  split
  · simp [isSign]
  · split
    · simp [isSign]
    · split
      · simp [isSign]
      · simp

theorem run_sign (c : Conversion) (v : Number) : Run isSign (c.sign v) (c.body v) :=
  ⟨(c.sign_cases v).2, c.isSign_head_body v⟩

theorem takeWhile_unpadded (c : Conversion) (v : Number) :
    (c.unpadded v).takeWhile isSign = c.sign v := by
  rw [unpadded_eq, (c.run_sign v).takeWhile_append]

theorem dropWhile_unpadded (c : Conversion) (v : Number) :
    (c.unpadded v).dropWhile isSign = c.body v := by
  rw [unpadded_eq, (c.run_sign v).dropWhile_append]

theorem fillsWithZeros_iff (c : Conversion) (v : Number) :
    c.fillsWithZeros v ↔
      c.flags.zero ∧ v.isFinite ∧ ¬ (c.style = .integer ∧ c.precision.isSome) := by
  simp [fillsWithZeros, and_assoc, imp_iff_not_or]

theorem render_eq (c : Conversion) (v : Number) :
    c.render v =
      if c.flags.left then c.unpadded v ++ List.replicate (c.missing v) ' '
      else if c.fillsWithZeros v then
        c.sign v ++ List.replicate (c.missing v) '0' ++ c.body v
      else List.replicate (c.missing v) ' ' ++ c.unpadded v := by
  rw [missing, unpadded_eq, render, List.append_assoc (List.replicate _ ' ')]

theorem length_render (c : Conversion) (v : Number) :
    (c.render v).length = max (c.width.getD 0) (c.unpadded v).length := by
  have hlength : (c.render v).length = (c.unpadded v).length + c.missing v := by
    rw [render_eq, unpadded_eq]
    split
    · simp only [List.length_append, List.length_replicate]
    · split
      · simp only [List.length_append, List.length_replicate]
        omega
      · simp only [List.length_append, List.length_replicate]
        omega
  rw [hlength, missing]
  omega

theorem word_opposite (c : Conversion) (v : Number) : c.word v.opposite = c.word v := by
  simp only [word, Number.isNaN_opposite]

/-- Only an integer is cut off with its sign. -/
theorem body_opposite (hstyle : c.style ≠ .integer) : c.body v.opposite = c.body v := by
  by_cases hfinite : v.isFinite
  · unfold body
    rw [Number.isFinite_opposite, hfinite]
    cases hkind : c.style with
    | fixed => simp only [fixedBody, Number.fixed_opposite]
    | scientific => simp only [scientificBody, Number.scientific_opposite]
    | general =>
      simp only [generalBody, fixedBody, Number.fixed_opposite, Number.scientific_opposite]
    | integer => exact absurd hkind hstyle
  · have hopposite : ¬ v.opposite.isFinite := by rwa [Number.isFinite_opposite]
    rw [body_of_not_isFinite hfinite hstyle, body_of_not_isFinite hopposite hstyle, word_opposite]

/-- What a width adds, and what stands in the text that it is added to. The sign is what the
text without a width starts with, the body is the rest. A number and its opposite differ in
the sign bit only. -/
theorem render_fills_field (c : Conversion) (v : Number) :
    (c.render v).length = max (c.width.getD 0) (c.unpadded v).length ∧
    ((c.unpadded v).takeWhile isSign).length ≤ 1 ∧
    (c.render v =
      if c.flags.left then c.unpadded v ++ List.replicate (c.missing v) ' '
      else if c.flags.zero ∧ v.isFinite ∧ ¬ (c.style = .integer ∧ c.precision.isSome) then
        (c.unpadded v).takeWhile isSign ++ List.replicate (c.missing v) '0' ++
          (c.unpadded v).dropWhile isSign
      else List.replicate (c.missing v) ' ' ++ c.unpadded v) ∧
    (v.opposite.isNegative = (!v.isNegative) ∧ v.opposite.magnitude = v.magnitude) ∧
    (c.style ≠ .integer →
      ((c.unpadded v).takeWhile isSign =
        if v.isNegative then ['-']
        else if c.flags.plus then ['+']
        else if c.flags.space then [' ']
        else []) ∧
      (c.unpadded v.opposite).dropWhile isSign = (c.unpadded v).dropWhile isSign) := by
  refine ⟨c.length_render v, ?_, ?_, ⟨v.isNegative_opposite, v.magnitude_opposite⟩,
    fun hstyle => ⟨?_, ?_⟩⟩
  · rw [takeWhile_unpadded]
    exact (c.sign_cases v).1
  · simp only [takeWhile_unpadded, dropWhile_unpadded, ← fillsWithZeros_iff]
    exact c.render_eq v
  · rw [takeWhile_unpadded, sign, isNegative, if_neg hstyle]
  · rw [dropWhile_unpadded, dropWhile_unpadded, body_opposite hstyle]

/-- The negative number next to zero is rounded to a zero, which keeps its sign before the zeros
that fill the field. -/
theorem render_fills_field_negative_zero :
    let c : Conversion := ⟨⟨false, true, false, true, false⟩, some 6, some 1, .fixed, false⟩
    let v : Number := ⟨0x8000000000000001⟩
    c.style ≠ .integer ∧ c.render v = "-000.0".toList ∧
      (c.unpadded v).takeWhile isSign = ['-'] ∧
      (c.unpadded v.opposite).dropWhile isSign = (c.unpadded v).dropWhile isSign := by
  intro c v
  have hstyle : c.style ≠ .integer := by decide
  obtain ⟨-, -, hrender, -, hparts⟩ := render_fills_field c v
  obtain ⟨hsign, hbody⟩ := hparts hstyle
  exact ⟨hstyle, hrender.trans (by decide +kernel), hsign, hbody⟩

end Conversion

end StoredProgram
