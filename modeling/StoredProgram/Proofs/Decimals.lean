import Mathlib.Algebra.Order.Field.Power
import StoredProgram.Proofs.Magnitudes
import StoredProgram.Proofs.Numerals
import StoredProgram.Proofs.Splitting

/-!
Decimals as they are written: digits, perhaps with a point among them, and perhaps an
exponent after them. Such a text has an exact value. Where this is the value of a finite
number, the text is read as the magnitude of that number.
-/
namespace StoredProgram.Literal

open Token

theorem digitsValue_append (front back : List Char) :
    digitsValue (front ++ back) = 10 ^ back.length * digitsValue front + digitsValue back := by
  rw [digitsValue, Nat.ofDigitChars_append, Nat.ofDigitChars_eq_ofDigitChars_zero]
  rfl

theorem digitsValue_cons (c : Char) (rest : List Char) :
    digitsValue (c :: rest) = 10 ^ rest.length * (c.toNat - 48) + digitsValue rest := by
  rw [digitsValue, Nat.ofDigitChars_cons, Nat.ofDigitChars_eq_ofDigitChars_zero, Nat.mul_zero,
    Nat.zero_add]
  rfl

theorem digitsValue_of_zeros {zeros : List Char} (h : ∀ c ∈ zeros, c = '0') :
    digitsValue zeros = 0 := by
  rw [List.eq_replicate_of_mem h, digitsValue, Nat.ofDigitChars_replicate_zero, Nat.mul_zero]

theorem digitsValue_toDigits (n : Nat) : digitsValue (Nat.toDigits 10 n) = n :=
  Nat.ofDigitChars_ten_toDigits

theorem digitsValue_lt {digits : List Char} (h : ∀ c ∈ digits, c.isDigit) :
    digitsValue digits < 10 ^ digits.length := by
  induction digits with
  | nil => decide
  | cons c rest ih =>
    have hc := toNat_of_isDigit (h c List.mem_cons_self)
    have hrest := ih fun d hd => h d (List.mem_cons_of_mem c hd)
    have hdigit : 10 ^ rest.length * (c.toNat - 48) ≤ 10 ^ rest.length * 9 :=
      Nat.mul_le_mul_left _ (by omega)
    rw [digitsValue_cons, List.length_cons, Nat.pow_succ]
    omega

theorem pow_le_digitsValue {c : Char} {rest : List Char} (hdigit : c.isDigit) (hc : c ≠ '0') :
    10 ^ rest.length ≤ digitsValue (c :: rest) := by
  have hrange := toNat_of_isDigit hdigit
  have hzero : c.toNat ≠ 48 := by
    intro heq
    exact hc (Char.toNat_inj.mp heq)
  have hle : 10 ^ rest.length * 1 ≤ 10 ^ rest.length * (c.toNat - 48) :=
    Nat.mul_le_mul_left _ (by omega)
  rw [digitsValue_cons]
  omega

/-- Zeros in front do not count. -/
theorem exists_leading {digits : List Char} (h : ∀ c ∈ digits, c.isDigit) :
    ∃ leading, digits.dropWhile (· == '0') = leading ∧
      digitsValue leading = digitsValue digits ∧
      (leading = [] ∨ 10 ^ (leading.length - 1) ≤ digitsValue leading) ∧
      digitsValue leading < 10 ^ leading.length := by
  obtain ⟨zeros, leading, rfl, hrun⟩ := Run.exists_run (· == '0') digits
  have hzeros : ∀ c ∈ zeros, c = '0' := fun c hc => by simpa using hrun.all c hc
  have hleading : ∀ c ∈ leading, c.isDigit := fun c hc => h c (List.mem_append_right _ hc)
  refine ⟨leading, hrun.dropWhile_append, ?_, ?_, digitsValue_lt hleading⟩
  · rw [digitsValue_append, digitsValue_of_zeros hzeros, Nat.mul_zero, Nat.zero_add]
  · cases leading with
    | nil => exact Or.inl rfl
    | cons c rest =>
      have hc : c ≠ '0' := by simpa using hrun.stops c rfl
      exact Or.inr (pow_le_digitsValue (hleading c List.mem_cons_self) hc)

theorem ten_zpow (exponent : ℤ) :
    (10 : ℚ) ^ exponent = 10 ^ exponent.toNat / 10 ^ (-exponent).toNat := by
  rw [← zpow_natCast, ← zpow_natCast, ← zpow_sub₀ (by decide)]
  congr 1
  omega

theorem lt_of_ten_zpow_lt {low high : ℤ} (h : (10 : ℚ) ^ low < 10 ^ high) : low < high :=
  (zpow_lt_zpow_iff_right₀ (by decide)).mp h

variable {v : Number} {n length : Nat} {exponent : ℤ}

/-- Where the leading digit of a finite number other than zero stands. -/
theorem rank_of_value (hfinite : v.isFinite) (hzero : v.magnitude ≠ 0)
    (hlow : 10 ^ (length - 1) ≤ n) (hhigh : n < 10 ^ length)
    (h : n * (10 : ℚ) ^ exponent = v.value) :
    -324 < length + exponent ∧ length + exponent ≤ 309 := by
  have hten : (0 : ℚ) < 10 ^ exponent := zpow_pos (by decide) exponent
  constructor
  · apply lt_of_ten_zpow_lt
    calc (10 : ℚ) ^ (-324 : ℤ) = (10 ^ Number.lowestExponent)⁻¹ := zpow_neg_coe_of_pos _ (by decide)
      _ < v.value := Number.lt_value hzero
      _ = n * 10 ^ exponent := h.symm
      _ < 10 ^ length * 10 ^ exponent := mul_lt_mul_of_pos_right (by exact_mod_cast hhigh) hten
      _ = 10 ^ (length + exponent) := by rw [zpow_add₀ (by decide), zpow_natCast]
  · have hlt : ((length - 1 : Nat) : ℤ) + exponent < 309 := by
      apply lt_of_ten_zpow_lt
      calc (10 : ℚ) ^ (((length - 1 : Nat) : ℤ) + exponent)
          = 10 ^ (length - 1) * 10 ^ exponent := by rw [zpow_add₀ (by decide), zpow_natCast]
        _ ≤ n * 10 ^ exponent := mul_le_mul_of_nonneg_right (by exact_mod_cast hlow) hten.le
        _ = v.value := h
        _ < 10 ^ Number.highestExponent := Number.value_lt hfinite
    omega

theorem nearestMagnitude_of_value (hfinite : v.isFinite) (h : n * (10 : ℚ) ^ exponent = v.value) :
    Number.nearestMagnitude (n * 10 ^ exponent.toNat) (10 ^ (-exponent).toNat) = v.magnitude := by
  have hden : (10 : ℚ) ^ (-exponent).toNat ≠ 0 := pow_ne_zero _ (by decide)
  refine Number.nearestMagnitude_of_units hfinite (Nat.pow_pos (by decide)) ?_
  have hunits := v.value_mul_unitsPerOne
  rw [← h, ten_zpow, ← mul_div_assoc, div_mul_eq_mul_div, div_eq_iff hden] at hunits
  exact_mod_cast hunits

/-- Digits and an exponent that make the value of a finite number give its magnitude. -/
theorem decimalMagnitude_of_value {digits : List Char} (hfinite : v.isFinite)
    (hdigits : ∀ c ∈ digits, c.isDigit) (h : digitsValue digits * (10 : ℚ) ^ exponent = v.value) :
    decimalMagnitude digits exponent = v.magnitude := by
  obtain ⟨leading, hleading, hvalue, hlow, hhigh⟩ := exists_leading hdigits
  rw [← hvalue] at h
  simp only [decimalMagnitude, hleading, Nat.pow_eq]
  rcases hlow with rfl | hlow
  · have hzero : v.value = 0 := by
      rw [← h, digitsValue, Nat.ofDigitChars_nil, Nat.cast_zero, zero_mul]
    rw [if_pos (Or.inl rfl), v.value_eq_zero_iff.mp hzero]
  · have hpos : 0 < digitsValue leading := lt_of_lt_of_le (Nat.pow_pos (by decide)) hlow
    have hsome : leading ≠ [] := by
      rintro rfl
      exact absurd hpos (by decide)
    have hzero : v.magnitude ≠ 0 := by
      rw [← v.value_eq_zero_iff.ne, ← h]
      exact mul_ne_zero (Nat.cast_ne_zero.mpr hpos.ne') (zpow_ne_zero exponent (by decide))
    obtain ⟨habove, hbelow⟩ := rank_of_value hfinite hzero hlow hhigh h
    rw [if_neg (not_or.mpr ⟨hsome, by omega⟩), if_neg (by omega)]
    exact nearestMagnitude_of_value hfinite h

/-- Digits, perhaps with a point and digits after it, and the value that they write. -/
inductive Positional : List Char → ℚ → Prop
  | whole {digits : List Char} (hne : digits ≠ []) (hdigits : ∀ c ∈ digits, c.isDigit) :
      Positional digits (digitsValue digits)
  | pointed {whole fraction : List Char} (hne : whole ≠ []) (hwhole : ∀ c ∈ whole, c.isDigit)
      (hfraction : ∀ c ∈ fraction, c.isDigit) :
      Positional (whole ++ '.' :: fraction)
        (digitsValue (whole ++ fraction) / 10 ^ fraction.length)

/-- The exponent after a number, if there is one: a mark, a sign and digits. -/
inductive ExponentPart : List Char → ℤ → Prop
  | none : ExponentPart [] 0
  | signed {mark : Char} {digits : List Char} (negative : Bool) (hmark : mark = 'e' ∨ mark = 'E')
      (hne : digits ≠ []) (hdigits : ∀ c ∈ digits, c.isDigit)
      (hlimit : digitsValue digits ≤ exponentLimit) :
      ExponentPart (mark :: (if negative then '-' else '+') :: digits)
        (if negative then -digitsValue digits else digitsValue digits)

/-- A decimal, and the value that it writes. -/
inductive Writes : List Char → ℚ → Prop
  | intro {front tail : List Char} {value : ℚ} {exponent : ℤ} (hfront : Positional front value)
      (htail : ExponentPart tail exponent) : Writes (front ++ tail) (value * 10 ^ exponent)

theorem Positional.writes {text : List Char} {value : ℚ} (h : Positional text value) :
    Writes text value := by
  simpa using Writes.intro h ExponentPart.none

/-- Up to the limit an exponent is the value of its digits. -/
theorem exponentValue_of_le {digits : List Char} (h : digitsValue digits ≤ exponentLimit) :
    exponentValue digits = digitsValue digits := by
  unfold exponentValue
  unfold digitsValue at h ⊢
  generalize 0 = start at h ⊢
  induction digits generalizing start with
  | nil => rfl
  | cons c rest ih =>
    have hstart : start < exponentLimit := by
      rw [Nat.ofDigitChars_eq_ofDigitChars_zero, List.length_cons, Nat.pow_succ, Nat.mul_assoc] at h
      have hgrows := Nat.le_mul_of_pos_left (10 * start) (Nat.pow_pos (n := rest.length)
        (show 0 < 10 by decide))
      unfold exponentLimit at *
      omega
    rw [Nat.ofDigitChars_cons] at h ⊢
    rw [List.foldl_cons, if_pos hstart]
    exact ih _ h

theorem ExponentPart.exponent? {tail : List Char} (h : ExponentPart tail exponent) :
    Literal.exponent? tail = some exponent := by
  cases h with
  | none => rfl
  | @signed mark digits negative hmark hne hdigits hlimit =>
    have hall : digits.all Char.isDigit := List.all_eq_true.mpr hdigits
    cases negative with
    | true => simp [Literal.exponent?, splitSign, hmark, hne, hall, exponentValue_of_le hlimit]
    | false => simp [Literal.exponent?, splitSign, hmark, hne, hall, exponentValue_of_le hlimit]

/-- No exponent can be taken for more digits or for a point. -/
theorem ExponentPart.stops {tail : List Char} (h : ExponentPart tail exponent) :
    ∀ c ∈ tail.head?, c.isDigit = false ∧ c ≠ '.' := by
  cases h with
  | none => simp
  | signed negative hmark hne hdigits hlimit =>
    intro c hc
    obtain rfl := Option.some.inj hc
    rcases hmark with rfl | rfl <;> decide

theorem splitFraction_of_head {tail : List Char} (h : tail.head? ≠ some '.') :
    splitFraction tail = ([], tail) := by
  unfold splitFraction
  split
  · exact absurd rfl h
  · rfl

theorem Positional.decimal? {front tail : List Char} {value : ℚ} (hfront : Positional front value)
    (htail : ExponentPart tail exponent) :
    ∃ digits, ∃ places : Nat, (∀ c ∈ digits, c.isDigit) ∧
      (digitsValue digits : ℚ) * 10 ^ (exponent - places) = value * 10 ^ exponent ∧
      Literal.decimal? (front ++ tail) = some (decimalMagnitude digits (exponent - places)) := by
  have hnoDigit : ∀ c ∈ tail.head?, c.isDigit = false := fun c hc => (htail.stops c hc).1
  cases hfront with
  | whole hne hdigits =>
    have hrun : Run Char.isDigit front tail := ⟨hdigits, hnoDigit⟩
    have hpoint : tail.head? ≠ some '.' := fun hhead => (htail.stops '.' hhead).2 rfl
    refine ⟨front, 0, hdigits, by simp, ?_⟩
    simp only [Literal.decimal?, hrun.takeWhile_append, hrun.dropWhile_append,
      splitFraction_of_head hpoint, List.append_nil, if_neg hne, htail.exponent?, Option.map_some,
      List.length_nil]
  | @pointed whole fraction hne hwhole hfraction =>
    have hrun : Run Char.isDigit whole ('.' :: (fraction ++ tail)) := ⟨hwhole, by simp⟩
    have hfractionRun : Run Char.isDigit fraction tail := ⟨hfraction, hnoDigit⟩
    refine ⟨whole ++ fraction, fraction.length, ?_, ?_, ?_⟩
    · intro c hc
      rcases List.mem_append.mp hc with hmem | hmem
      · exact hwhole c hmem
      · exact hfraction c hmem
    · rw [zpow_sub₀ (by decide), zpow_natCast, ← mul_div_assoc, div_mul_eq_mul_div]
    · simp only [Literal.decimal?, List.append_assoc, List.cons_append, hrun.takeWhile_append,
        hrun.dropWhile_append, splitFraction, hfractionRun.takeWhile_append,
        hfractionRun.dropWhile_append, htail.exponent?, Option.map_some]
      rw [if_neg (by simp [hne])]

theorem Positional.head_isDigit {front : List Char} {value : ℚ} (h : Positional front value) :
    ∃ c rest, front = c :: rest ∧ c.isDigit := by
  cases h with
  | whole hne hdigits =>
    obtain ⟨c, rest, rfl⟩ := List.exists_cons_of_ne_nil hne
    exact ⟨c, rest, rfl, hdigits c List.mem_cons_self⟩
  | pointed hne hwhole hfraction =>
    obtain ⟨c, rest, rfl⟩ := List.exists_cons_of_ne_nil hne
    exact ⟨c, _, rfl, hwhole c List.mem_cons_self⟩

theorem toLower_of_isDigit {c : Char} (h : c.isDigit) : c.toLower = c := by
  have hrange := toNat_of_isDigit h
  unfold Char.toLower
  split
  · next hupper =>
    have hletter : 65 ≤ c.toNat := hupper.1
    omega
  · rfl

/-- What starts with a digit is not one of the words. -/
theorem magnitude?_of_isDigit {c : Char} (h : c.isDigit) (rest : List Char) :
    magnitude? (c :: rest) = decimal? (c :: rest) := by
  have hword : ∀ word : String, word.toList.head?.any Char.isDigit = false →
      String.ofList ((c :: rest).map Char.toLower) ≠ word := by
    rintro word hhead rfl
    simp [toLower_of_isDigit h, h] at hhead
  simp only [magnitude?]
  rw [if_neg (not_or.mpr ⟨hword "inf" (by decide), hword "infinity" (by decide)⟩),
    if_neg (hword "nan" (by decide))]

/-- A decimal that writes the value of a finite number is read as its magnitude. -/
theorem Writes.magnitude? {text : List Char} (h : Writes text v.value) (hfinite : v.isFinite) :
    Literal.magnitude? text = some v.magnitude := by
  generalize hvalue : v.value = value at h
  cases h with
  | @intro front tail value exponent hfront htail =>
    obtain ⟨digits, places, hdigits, hsame, hdecimal⟩ := hfront.decimal? htail
    obtain ⟨c, rest, rfl, hc⟩ := hfront.head_isDigit
    rw [List.cons_append, magnitude?_of_isDigit hc, ← List.cons_append, hdecimal,
      decimalMagnitude_of_value hfinite hdigits (hsame.trans hvalue.symm)]

end StoredProgram.Literal
