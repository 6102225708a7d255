import Mathlib.Data.Rat.Floor
import StoredProgram.Proofs.ReadBack

/-!
Numbers as integers. A number is cut off toward zero and held to the range of a signed 64-bit
word, and what is written is that integer: its sign, and its digits after as many zeros as the
precision asks for. So it reads back as the same integer, also where the sign of the number is
lost with its places, and at both ends of the range.
-/
namespace StoredProgram

/-- The integer next to a value on the side of zero. -/
def towardZero (x : ℚ) : ℤ := if x < 0 then ⌈x⌉ else ⌊x⌋

theorem towardZero_of_nonneg {x : ℚ} (h : 0 ≤ x) : towardZero x = ⌊x⌋ := if_neg (not_lt.mpr h)

theorem towardZero_neg {x : ℚ} (h : 0 ≤ x) : towardZero (-x) = -⌊x⌋ := by
  unfold towardZero
  split
  · exact Int.ceil_neg
  · next hpos =>
    obtain rfl : x = 0 := le_antisymm (by linarith) h
    simp

namespace Number

/-- The value of a finite number with its sign. -/
def signedValue (v : Number) : ℚ := if v.isNegative then -v.value else v.value

theorem value_nonneg (v : Number) : 0 ≤ v.value :=
  div_nonneg (Nat.cast_nonneg _) (Nat.cast_nonneg _)

theorem floor_value (v : Number) : ⌊v.value⌋ = (v.units : ℤ) / unitsPerOne :=
  Rat.floor_natCast_div_natCast v.units unitsPerOne

theorem towardZero_signedValue (v : Number) :
    towardZero v.signedValue =
      if v.isNegative then -((v.units : ℤ) / unitsPerOne) else (v.units : ℤ) / unitsPerOne := by
  unfold signedValue
  split
  · rw [towardZero_neg v.value_nonneg, floor_value]
  · rw [towardZero_of_nonneg v.value_nonneg, floor_value]

theorem truncate_of_isNaN {v : Number} (h : v.isNaN) : v.truncate = 0 := if_pos h

theorem truncate_of_not_isNaN {v : Number} (h : ¬ v.isNaN) :
    v.truncate = clampToWord (towardZero v.signedValue) := by
  rw [truncate, if_neg h, towardZero_signedValue]

/-- Infinity is beyond all words. -/
theorem truncate_of_infinite {v : Number} (hfinite : ¬ v.isFinite) (hnan : ¬ v.isNaN) :
    v.truncate = if v.isNegative then -2 ^ 63 else 2 ^ 63 - 1 := by
  have hunits : v.units = fractionCount * Nat.pow 2 2046 := by
    rw [units, magnitude_of_infinite hfinite hnan]
    decide +kernel
  have hupper :
      clampToWord ((fractionCount * Nat.pow 2 2046 : Nat) / unitsPerOne) = 2 ^ 63 - 1 := by
    decide +kernel
  have hlower :
      clampToWord (-((fractionCount * Nat.pow 2 2046 : Nat) / unitsPerOne)) = -2 ^ 63 := by
    decide +kernel
  rw [truncate_of_not_isNaN hnan, towardZero_signedValue, hunits]
  split
  · exact hlower
  · exact hupper

end Number

namespace Literal

/-- Passes over one blank. -/
def skipBlank : List Char → List Char
  | ' ' :: rest => rest
  | text => text

/-- The integer that a text denotes. It is written in decimal digits, with a sign before them or
without it, and perhaps with a blank in front. -/
def integer? (text : List Char) : Option ℤ :=
  let (negative, digits) := splitSign (skipBlank text)
  if digits ≠ [] ∧ digits.all Char.isDigit then
    some (if negative then -(digitsValue digits : ℤ) else digitsValue digits)
  else none

theorem skipBlank_of_ne {c : Char} (h : c ≠ ' ') (rest : List Char) :
    skipBlank (c :: rest) = c :: rest := by
  unfold skipBlank
  split
  · next heq => exact absurd (List.cons.inj heq).1 h
  · rfl

theorem splitSign_of_isDigit {c : Char} (h : c.isDigit) (rest : List Char) :
    splitSign (c :: rest) = (false, c :: rest) := by
  unfold splitSign
  split
  · next heq =>
    obtain ⟨rfl, -⟩ := List.cons.inj heq
    exact absurd h (by decide)
  · next heq =>
    obtain ⟨rfl, -⟩ := List.cons.inj heq
    exact absurd h (by decide)
  · rfl

theorem integer?_of_split {text digits : List Char} (negative : Bool)
    (hsplit : splitSign (skipBlank text) = (negative, digits)) (hne : digits ≠ [])
    (hdigits : ∀ c ∈ digits, c.isDigit) :
    integer? text = some (if negative then -(digitsValue digits : ℤ) else digitsValue digits) := by
  simp only [integer?, hsplit]
  rw [if_pos ⟨hne, List.all_eq_true.mpr hdigits⟩]

/-- Whatever sign there is, only a minus counts. -/
theorem integer?_signed {sign digits : List Char} (hne : digits ≠ [])
    (hdigits : ∀ c ∈ digits, c.isDigit)
    (hsign : sign = ['-'] ∨ sign = ['+'] ∨ sign = [' '] ∨ sign = []) :
    integer? (sign ++ digits) =
      some (if sign = ['-'] then -(digitsValue digits : ℤ) else digitsValue digits) := by
  obtain ⟨first, rest, rfl⟩ := List.exists_cons_of_ne_nil hne
  have hfirst : first.isDigit := hdigits first List.mem_cons_self
  have hbare := splitSign_of_isDigit hfirst rest
  rcases hsign with rfl | rfl | rfl | rfl
  · exact integer?_of_split true rfl hne hdigits
  · exact integer?_of_split false rfl hne hdigits
  · exact integer?_of_split false hbare hne hdigits
  · have hblank : first ≠ ' ' := by
      rintro rfl
      exact absurd hfirst (by decide)
    refine integer?_of_split false ?_ hne hdigits
    rw [List.nil_append, skipBlank_of_ne hblank, hbare]

end Literal

open Literal

/-- Only zero is written with a leading zero. -/
theorem toDigits_of_head?_zero {n : Nat} (h : (Nat.toDigits 10 n).head? = some '0') :
    n = 0 ∧ Nat.toDigits 10 n = ['0'] := by
  rcases Nat.eq_zero_or_pos n with rfl | hpos
  · exact ⟨rfl, by decide⟩
  · exact absurd h (head?_toDigits_ne_zero hpos)

theorem Directive.style_of_conversion? {d : Directive} {letter : Char} {c : Conversion}
    (h : d.conversion? letter = some c) (hletter : letter = 'd' ∨ letter = 'i') :
    c.style = .integer := by
  have hkind := ((d.conversion?_eq_some_iff letter c).mp h).1.kind
  rw [← letter?_eq_some_iff] at hkind
  rcases hletter with rfl | rfl
  · exact congrArg Prod.fst (Option.some.inj hkind).symm
  · exact congrArg Prod.fst (Option.some.inj hkind).symm

namespace Conversion

variable {c : Conversion} {v : Number}

/-- The sign of an integer is that of what was cut off. -/
theorem sign_of_integer (hstyle : c.style = .integer) :
    c.sign v =
      if v.truncate < 0 then ['-']
      else if c.flags.plus then ['+']
      else if c.flags.space then [' ']
      else [] := by
  simp only [sign, isNegative, if_pos hstyle, decide_eq_true_eq]

theorem body_of_integer (hstyle : c.style = .integer) :
    c.body v = decimalDigits
      (c.precision.getD 0 - (Nat.toDigits 10 v.truncate.natAbs).length) v.truncate.natAbs := by
  rw [body, hstyle, ← zeroFilled_eq]

theorem sign_eq_minus_iff (hstyle : c.style = .integer) :
    c.sign v = ['-'] ↔ v.truncate < 0 := by
  rw [sign_of_integer hstyle]
  constructor
  · intro h
    by_contra hnonneg
    rw [if_neg hnonneg] at h
    split at h
    · cases h
    · split at h
      · cases h
      · cases h
  · intro h
    rw [if_pos h]

theorem sign_forms (c : Conversion) (v : Number) :
    c.sign v = ['-'] ∨ c.sign v = ['+'] ∨ c.sign v = [' '] ∨ c.sign v = [] := by
  unfold sign
  split
  · exact Or.inl rfl
  · split
    · exact Or.inr (Or.inl rfl)
    · split
      · exact Or.inr (Or.inr (Or.inl rfl))
      · exact Or.inr (Or.inr (Or.inr rfl))

theorem integer?_sign_append_body (hstyle : c.style = .integer) :
    integer? (c.sign v ++ c.body v) = some v.truncate := by
  rw [body_of_integer hstyle]
  rw [integer?_signed (decimalDigits_ne_nil _ _) isDigit_of_mem_decimalDigits (c.sign_forms v),
    digitsValue_decimalDigits]
  simp only [sign_eq_minus_iff hstyle]
  congr 1
  omega

/-- An integer conversion without a width writes the number cut off toward zero and held to the
signed 64-bit range. It writes the sign that the flags ask for, and the digits with zeros
before them if there are fewer than the precision. The text reads back as that integer. -/
theorem integers_are_exact (d : Directive) (letter : Char) (c : Conversion) (v : Number)
    (hmade : d.conversion? letter = some c) (hletter : letter = 'd' ∨ letter = 'i')
    (hwidth : c.width = none) :
    let n := v.truncate
    let digits := Nat.toDigits 10 n.natAbs
    let precision := c.precision.getD 0
    let filled := List.replicate (precision - digits.length) '0' ++ digits
    ((v.isNaN → n = 0) ∧
      (v.isFinite → n = max (-2 ^ 63) (min (towardZero v.signedValue) (2 ^ 63 - 1))) ∧
      (¬ v.isFinite → ¬ v.isNaN → n = if v.isNegative then -2 ^ 63 else 2 ^ 63 - 1)) ∧
    c.render v =
      (if n < 0 then ['-']
        else if c.flags.plus then ['+']
        else if c.flags.space then [' ']
        else []) ++ filled ∧
    (∀ x ∈ filled, x.isDigit) ∧
    filled.length = max precision digits.length ∧
    (digits.head? = some '0' → n = 0 ∧ digits = ['0']) ∧
    integer? (c.render v) = some n := by
  intro n digits precision filled
  have hstyle := Directive.style_of_conversion? hmade hletter
  have hrender : c.render v = c.sign v ++ c.body v := render_of_no_width hwidth
  refine ⟨⟨Number.truncate_of_isNaN, ?_, Number.truncate_of_infinite⟩, ?_,
    isDigit_of_mem_decimalDigits, ?_, ?_, ?_⟩
  · intro hfinite
    exact Number.truncate_of_not_isNaN (Number.not_isNaN_of_isFinite hfinite)
  · rw [hrender, sign_of_integer hstyle, body_of_integer hstyle]
    rfl
  · show (List.replicate _ '0' ++ digits).length = _
    rw [List.length_append, List.length_replicate]
    omega
  · intro hhead
    obtain ⟨hzero, hsingle⟩ := toDigits_of_head?_zero hhead
    exact ⟨Int.natAbs_eq_zero.mp hzero, hsingle⟩
  · rw [hrender]
    exact integer?_sign_append_body hstyle

/-- The least integer, which has no opposite among the words, and the number -0.5, of which no
minus is left. -/
theorem integers_of_least_and_negative_half :
    let d : Directive := ⟨[' ', '+'], [], some ['2', '1'], []⟩
    let c : Conversion := ⟨⟨false, true, true, false, false⟩, none, some 21, .integer, false⟩
    let least : Number := ⟨0xC3E0000000000000⟩
    let negativeHalf : Number := ⟨0xBFE0000000000000⟩
    d.conversion? 'i' = some c ∧ c.width = none ∧
      (least.isFinite ∧
        least.truncate = max (-2 ^ 63) (min (towardZero least.signedValue) (2 ^ 63 - 1)) ∧
        c.render least = "-009223372036854775808".toList ∧
        integer? (c.render least) = some (-2 ^ 63)) ∧
      c.render negativeHalf = "+000000000000000000000".toList ∧
      integer? (c.render negativeHalf) = some 0 := by
  intro d c least negativeHalf
  have hmade : d.conversion? 'i' = some c := by decide
  obtain ⟨⟨-, hvalue, -⟩, hleast, -, -, -, hread⟩ :=
    integers_are_exact d 'i' c least hmade (Or.inr rfl) rfl
  obtain ⟨-, hhalf, -, -, -, hreadHalf⟩ :=
    integers_are_exact d 'i' c negativeHalf hmade (Or.inr rfl) rfl
  have hfinite : least.isFinite := by decide
  have htruncate : least.truncate = -2 ^ 63 := by decide +kernel
  have hzero : negativeHalf.truncate = 0 := by decide +kernel
  refine ⟨hmade, rfl, ⟨hfinite, hvalue hfinite, ?_, ?_⟩, ?_, ?_⟩
  · exact hleast.trans (by decide +kernel)
  · rw [hread, htruncate]
  · exact hhalf.trans (by decide +kernel)
  · rw [hreadHalf, hzero]

end Conversion

end StoredProgram
