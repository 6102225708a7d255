import StoredProgram.Number.Literal
import StoredProgram.Proofs.Lexing

/-!
Numerals in a line of source. A literal that can be read is one word, and if it starts
the way numbers do the lexer takes that word for a number. The decimal digits of a size
that fits are read as that size.
-/
namespace StoredProgram

namespace Token

/-- The visible characters after the quote belong to words. -/
theorem isWordChar_of_visible {c : Char} (hlow : 35 ≤ c.toNat) (hhigh : c.toNat ≤ 126) :
    isWordChar c := by
  have hblank : Text.isBlank c = false := by
    simp only [Text.isBlank, Text.blankCodes, List.contains_eq_mem, decide_eq_false_iff_not,
      List.mem_cons, List.not_mem_nil, or_false]
    omega
  have hquote : c ≠ '"' := by
    rintro rfl
    exact absurd hlow (by decide)
  simp [isWordChar, hblank, hquote]

theorem toNat_of_isDigit {c : Char} (h : c.isDigit) : 48 ≤ c.toNat ∧ c.toNat ≤ 57 := by
  simpa [Char.isDigit, UInt32.le_iff_toNat_le] using h

theorem isWordChar_of_isDigit {c : Char} (h : c.isDigit) : isWordChar c := by
  have hrange := toNat_of_isDigit h
  exact isWordChar_of_visible (by omega) (by omega)

theorem isWordChar_of_toLower {c : Char} (h : isWordChar c.toLower) : isWordChar c := by
  unfold Char.toLower at h
  split at h
  · next hupper =>
    have hrange : 65 ≤ c.toNat ∧ c.toNat ≤ 90 := by
      simpa [UInt32.le_iff_toNat_le] using hupper
    exact isWordChar_of_visible (by omega) (by omega)
  · exact h

end Token

namespace Literal

open Token

theorem mem_splitSign {c : Char} {text : List Char} (h : c ∈ text) :
    c = '-' ∨ c = '+' ∨ c ∈ (splitSign text).2 := by
  unfold splitSign
  split
  · rcases List.mem_cons.mp h with rfl | hrest
    · exact Or.inl rfl
    · exact Or.inr (Or.inr hrest)
  · rcases List.mem_cons.mp h with rfl | hrest
    · exact Or.inr (Or.inl rfl)
    · exact Or.inr (Or.inr hrest)
  · exact Or.inr (Or.inr h)

theorem isWordChar_of_splitSign {text : List Char}
    (h : ∀ c ∈ (splitSign text).2, isWordChar c) : ∀ c ∈ text, isWordChar c := by
  intro c hc
  rcases mem_splitSign hc with rfl | rfl | hrest
  · decide
  · decide
  · exact h c hrest

theorem isWordChar_of_all_isDigit {digits : List Char} (h : digits.all Char.isDigit) :
    ∀ c ∈ digits, isWordChar c := by
  intro c hc
  exact isWordChar_of_isDigit (List.all_eq_true.mp h c hc)

theorem isWordChar_of_exponent? {text : List Char} {exponent : Int}
    (h : exponent? text = some exponent) : ∀ c ∈ text, isWordChar c := by
  cases text with
  | nil => simp
  | cons mark rest =>
    simp only [exponent?] at h
    split at h
    · next hparts =>
      obtain ⟨hmark, -, hdigits⟩ := hparts
      intro c hc
      rcases List.mem_cons.mp hc with rfl | hrest
      · rcases hmark with rfl | rfl <;> decide
      · exact isWordChar_of_splitSign (isWordChar_of_all_isDigit hdigits) c hrest
    · cases h

theorem isWordChar_of_splitFraction {text : List Char}
    (h : ∀ c ∈ (splitFraction text).2, isWordChar c) : ∀ c ∈ text, isWordChar c := by
  unfold splitFraction at h
  split at h
  · next rest =>
    intro c hc
    rcases List.mem_cons.mp hc with rfl | hrest
    · decide
    · rw [← List.takeWhile_append_dropWhile (p := Char.isDigit) (l := rest),
        List.mem_append] at hrest
      rcases hrest with hdigit | hlater
      · exact isWordChar_of_isDigit (List.mem_takeWhile_imp hdigit)
      · exact h c hlater
  · exact h

theorem isWordChar_of_decimal? {text : List Char} {magnitude : Nat}
    (h : decimal? text = some magnitude) : ∀ c ∈ text, isWordChar c := by
  simp only [decimal?] at h
  split at h
  · cases h
  · obtain ⟨exponent, hexponent, -⟩ := Option.map_eq_some_iff.mp h
    have hlater := isWordChar_of_splitFraction (isWordChar_of_exponent? hexponent)
    intro c hc
    rw [← List.takeWhile_append_dropWhile (p := Char.isDigit) (l := text), List.mem_append] at hc
    rcases hc with hdigit | hrest
    · exact isWordChar_of_isDigit (List.mem_takeWhile_imp hdigit)
    · exact hlater c hrest

theorem isWordChar_of_spelling {text : List Char} {word : String}
    (h : String.ofList (text.map Char.toLower) = word)
    (hword : word.toList.all isWordChar) : ∀ c ∈ text, isWordChar c := by
  intro c hc
  have hmem : c.toLower ∈ word.toList := by
    rw [← h, String.toList_ofList]
    exact List.mem_map_of_mem hc
  exact isWordChar_of_toLower (List.all_eq_true.mp hword _ hmem)

theorem isWordChar_of_magnitude? {text : List Char} {magnitude : Nat}
    (h : magnitude? text = some magnitude) : ∀ c ∈ text, isWordChar c := by
  simp only [magnitude?] at h
  split at h
  · next hword =>
    rcases hword with hword | hword
    · exact isWordChar_of_spelling hword (by decide)
    · exact isWordChar_of_spelling hword (by decide)
  · split at h
    · next hword => exact isWordChar_of_spelling hword (by decide)
    · exact isWordChar_of_decimal? h

/-- What can be read as a number has neither blanks nor quotes. -/
theorem isWordChar_of_number? {text : String} {value : Number} (h : number? text = some value) :
    ∀ c ∈ text.toList, isWordChar c := by
  simp only [number?] at h
  obtain ⟨magnitude, hmagnitude, -⟩ := Option.map_eq_some_iff.mp h
  exact isWordChar_of_splitSign (isWordChar_of_magnitude? hmagnitude)

theorem size?_of_isDigit {digits : List Char} (h : ∀ c ∈ digits, c.isDigit) :
    size? (String.ofList digits) = unsignedSize? digits := by
  unfold size?
  rw [String.toList_ofList]
  split
  · exact absurd (h '+' List.mem_cons_self) (by decide)
  · rfl

/-- The decimal digits of a number, after any zeros. -/
def decimalDigits (zeros n : Nat) : List Char := List.replicate zeros '0' ++ Nat.toDigits 10 n

theorem isDigit_of_mem_decimalDigits {zeros n : Nat} :
    ∀ c ∈ decimalDigits zeros n, c.isDigit := by
  intro c hc
  rcases List.mem_append.mp hc with hzero | hdigit
  · rw [List.eq_of_mem_replicate hzero]
    decide
  · exact Nat.isDigit_of_mem_toDigits (by omega) (by omega) hdigit

theorem decimalDigits_ne_nil (zeros n : Nat) : decimalDigits zeros n ≠ [] := by
  simp [decimalDigits, Nat.toDigits_ne_nil]

theorem digitsValue_decimalDigits (zeros n : Nat) : digitsValue (decimalDigits zeros n) = n := by
  rw [digitsValue, decimalDigits, Nat.ofDigitChars_append, Nat.ofDigitChars_replicate_zero,
    Nat.mul_zero, Nat.ofDigitChars_ten_toDigits]

theorem size?_decimalDigits {n : Nat} (h : n ≤ largestSize) (zeros : Nat) :
    size? (String.ofList (decimalDigits zeros n)) = some n := by
  have hall : (decimalDigits zeros n).all Char.isDigit :=
    List.all_eq_true.mpr isDigit_of_mem_decimalDigits
  rw [size?_of_isDigit isDigit_of_mem_decimalDigits, unsignedSize?, digitsValue_decimalDigits,
    if_pos ⟨decimalDigits_ne_nil zeros n, hall, h⟩]

end Literal

namespace Token

theorem keyword_head_not_startsNumber (k : Keyword) :
    k.spelling.toList.head?.any startsNumber = false := by
  rcases k with _ | _ | _ | _ | _ | _ | operation | _ | _ | _ | _
  case arithmetic => cases operation <;> decide
  all_goals decide

/-- No keyword starts like a number. -/
theorem ofWord_of_startsNumber {word : String} (h : word.toList.head?.any startsNumber) :
    ofWord word = number word := by
  unfold ofWord
  split
  · next k hfind =>
    rw [← Keyword.spelling_of_find? hfind, keyword_head_not_startsNumber] at h
    cases h
  · rw [if_pos h]

theorem ofWord_spelling (k : Keyword) : ofWord k.spelling = keyword k := by
  simp only [ofWord, Keyword.find?_spelling]

end Token

end StoredProgram
