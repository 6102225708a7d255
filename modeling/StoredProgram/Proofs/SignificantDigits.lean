import StoredProgram.Proofs.Fields

/-!
What a printed number tells. A decimal writes one value only, and among the scientific forms
with the same places only one has that value. So two finite numbers that the general style
writes alike have the same significant digits and the same exponent, and there is no other
way for them to look alike.
-/
namespace StoredProgram

namespace Literal

variable {text front tail : List Char} {x y : ℚ} {a b : ℤ}

theorem run_whole {whole fraction : List Char} (h : ∀ c ∈ whole, c.isDigit) :
    Run Char.isDigit whole ('.' :: fraction) :=
  ⟨h, by simp⟩

theorem point_not_digit {whole fraction : List Char} :
    ¬ ∀ c ∈ whole ++ '.' :: fraction, c.isDigit := by
  intro h
  exact absurd (h '.' (by simp)) (by decide)

theorem Positional.unique (h : Positional front x) (hother : Positional front y) : x = y := by
  cases h with
  | whole hne hdigits =>
    cases hother with
    | whole => rfl
    | pointed => exact absurd hdigits point_not_digit
  | @pointed whole fraction hne hwhole hfraction =>
    generalize htext : whole ++ '.' :: fraction = front at hother
    cases hother with
    | whole _ hdigits =>
      rw [← htext] at hdigits
      exact absurd hdigits point_not_digit
    | @pointed other others _ hother _ =>
      obtain ⟨rfl, hrest⟩ := (run_whole hwhole).unique (run_whole hother) htext
      obtain ⟨-, rfl⟩ := List.cons.inj hrest
      rfl

theorem ExponentPart.unique (h : ExponentPart tail a) (hother : ExponentPart tail b) : a = b := by
  cases h with
  | none =>
    cases hother with
    | none => rfl
  | @signed mark digits negative hmark hne hdigits hlimit =>
    generalize htext : mark :: (if negative then '-' else '+') :: digits = tail at hother
    cases hother with
    | none => cases htext
    | @signed mark' digits' negative' =>
      obtain ⟨-, hrest⟩ := List.cons.inj htext
      obtain ⟨hsign, rfl⟩ := List.cons.inj hrest
      cases negative <;> cases negative' <;> simp_all

theorem ExponentPart.head? (h : ExponentPart tail a) :
    ∀ c ∈ tail.head?, c = 'e' ∨ c = 'E' := by
  cases h with
  | none => simp
  | signed negative hmark =>
    intro c hc
    obtain rfl := Option.some.inj hc
    exact hmark

theorem Writes.unique (h : Writes text x) (hother : Writes text y) : x = y := by
  cases h with
  | @intro front tail value exponent hfront htail =>
    generalize htext : front ++ tail = text at hother
    cases hother with
    | @intro front' tail' value' exponent' hfront' htail' =>
      have hsame : front = front' := by
        rw [← hfront.mantissaOf_append tail htail.head?, htext,
          hfront'.mantissaOf_append tail' htail'.head?]
      subst hsame
      obtain rfl := List.append_cancel_left htext
      rw [hfront.unique hfront', htail.unique htail']

theorem Writes.blank_not_mem (h : Writes text x) : ' ' ∉ text := by
  cases h with
  | intro hfront htail =>
    intro hblank
    rcases List.mem_append.mp hblank with hmem | hmem
    · exact absurd (hfront.isDigit_or_point ' ' hmem) (by decide)
    · cases htail with
      | none => simp at hmem
      | @signed mark digits negative hmark _ hdigits _ =>
        rcases List.mem_cons.mp hmem with rfl | hmem
        · exact absurd hmark (by decide)
        · rcases List.mem_cons.mp hmem with hsign | hdigit
          · cases negative <;> exact absurd hsign (by decide)
          · exact absurd (hdigits ' ' hdigit) (by decide)

end Literal

namespace Scientific

variable {d e : Scientific} {places : Nat}

/-- One digit stands before the places. -/
def Normal (places : Nat) (d : Scientific) : Prop :=
  10 ^ places ≤ d.coefficient ∧ d.coefficient < 10 ^ (places + 1)

theorem Normal.value_bounds (h : d.Normal places) :
    (10 : ℚ) ^ d.exponent ≤ d.value places ∧ d.value places < 10 ^ (d.exponent + 1) := by
  have hten : (0 : ℚ) < 10 ^ d.exponent := zpow_pos (by decide) _
  have hplaces : (0 : ℚ) < 10 ^ places := pow_pos (by decide) _
  have hlow : (1 : ℚ) ≤ d.coefficient / 10 ^ places := by
    rw [le_div_iff₀ hplaces, one_mul]
    exact_mod_cast h.1
  have hhigh : (d.coefficient : ℚ) / 10 ^ places < 10 := by
    rw [div_lt_iff₀ hplaces, ← pow_succ']
    exact_mod_cast h.2
  constructor
  · calc (10 : ℚ) ^ d.exponent = 1 * 10 ^ d.exponent := (one_mul _).symm
      _ ≤ d.value places := mul_le_mul_of_nonneg_right hlow hten.le
  · calc d.value places < 10 * 10 ^ d.exponent := mul_lt_mul_of_pos_right hhigh hten
      _ = 10 ^ (d.exponent + 1) := by rw [zpow_add_one₀ (by decide), mul_comm]

/-- The value tells where the leading digit stands, and then what the digits are. -/
theorem Normal.eq_of_value (hd : d.Normal places) (he : e.Normal places)
    (h : d.value places = e.value places) : d = e := by
  obtain ⟨hdlow, hdhigh⟩ := hd.value_bounds
  obtain ⟨helow, hehigh⟩ := he.value_bounds
  have hle := Literal.lt_of_ten_zpow_lt (lt_of_le_of_lt hdlow (h ▸ hehigh))
  have hge := Literal.lt_of_ten_zpow_lt (lt_of_le_of_lt helow (h ▸ hdhigh))
  have hexponent : d.exponent = e.exponent := by omega
  have hten : (10 : ℚ) ^ e.exponent ≠ 0 := zpow_ne_zero _ (by decide)
  have hplaces : (10 : ℚ) ^ places ≠ 0 := pow_ne_zero _ (by decide)
  rw [value, value, hexponent, mul_left_inj' hten, div_left_inj' hplaces, Nat.cast_inj] at h
  cases d
  cases e
  simp_all

end Scientific

namespace Number

theorem normal_scientific {v : Number} (h : ¬ v.isZero) (places : Nat) :
    (v.scientific places).Normal places :=
  coefficient_bounds h places

theorem scientific_value_eq_zero_iff (v : Number) (places : Nat) :
    (v.scientific places).value places = 0 ↔ v.isZero := by
  constructor
  · intro hvalue
    by_contra hzero
    have hpos : (0 : ℚ) < 10 ^ (v.scientific places).exponent := zpow_pos (by decide) _
    have hlow := (normal_scientific hzero places).value_bounds.1
    rw [hvalue] at hlow
    exact absurd hlow (not_le.mpr hpos)
  · intro hzero
    rw [scientific_of_isZero hzero]
    simp [Scientific.value]

/-- Numbers that are rounded to the same value have the same scientific form. -/
theorem scientific_eq_of_value {v w : Number} {places : Nat}
    (h : (v.scientific places).value places = (w.scientific places).value places) :
    v.scientific places = w.scientific places := by
  by_cases hzero : v.isZero
  · have hother : w.isZero := by
      rwa [← scientific_value_eq_zero_iff w places, ← h, scientific_value_eq_zero_iff]
    rw [scientific_of_isZero hzero, scientific_of_isZero hother]
  · have hother : ¬ w.isZero := by
      rwa [← scientific_value_eq_zero_iff w places, ← h, scientific_value_eq_zero_iff]
    exact (normal_scientific hzero places).eq_of_value (normal_scientific hother places) h

end Number

open Literal

namespace Conversion

variable {c : Conversion} {v w : Number}

theorem generalBody_of_rounded_eq (h : c.rounded v = c.rounded w) :
    c.generalBody v = c.generalBody w := by
  by_cases hrange : c.InRange (c.rounded v).exponent
  · obtain ⟨places, hplaces, -, hbody⟩ := generalBody_of_inRange hrange
    obtain ⟨others, hothers, -, hother⟩ := generalBody_of_inRange (h ▸ hrange)
    obtain rfl : places = others := by
      rw [← h] at hothers
      omega
    rw [hbody, hother, h]
  · rw [generalBody_of_not_inRange hrange, generalBody_of_not_inRange (h ▸ hrange), h]

/-- The general style shows the significant digits and the exponent, and nothing else. -/
theorem generalBody_eq_iff (hv : v.isFinite) (hw : w.isFinite) :
    c.generalBody v = c.generalBody w ↔ c.rounded v = c.rounded w := by
  constructor
  · intro h
    have hwrites := generalBody_writes (c := c) hw
    rw [← h] at hwrites
    exact Number.scientific_eq_of_value ((generalBody_writes hv).unique hwrites)
  · exact generalBody_of_rounded_eq

/-- The conversion of `%g`. -/
def brief : Conversion where
  flags := ⟨false, false, false, false, false⟩
  width := none
  precision := none
  style := .general
  upper := false

theorem brief_body_of_isFinite (h : v.isFinite) : brief.body v = brief.generalBody v := by
  rw [body, h]
  rfl

theorem brief_body_of_not_isFinite (h : ¬ v.isFinite) :
    brief.body v = if v.isNaN then "nan".toList else "inf".toList := by
  rw [body_of_not_isFinite h (by decide)]
  rfl

theorem brief_sign (v : Number) : brief.sign v = if v.isNegative then ['-'] else [] := rfl

theorem brief_sign_eq_iff : brief.sign v = brief.sign w ↔ v.isNegative = w.isNegative := by
  rw [brief_sign, brief_sign]
  cases v.isNegative <;> cases w.isNegative <;> simp

/-- Digits and words are told apart by their first character. -/
theorem brief_body_ne (hv : v.isFinite) (hw : ¬ w.isFinite) : brief.body v ≠ brief.body w := by
  intro h
  have hdigit := isDigit_head_of_writes (generalBody_writes (c := brief) hv)
  rw [← brief_body_of_isFinite hv, h, brief_body_of_not_isFinite hw] at hdigit
  cases hnan : w.isNaN with
  | true =>
    rw [hnan] at hdigit
    exact absurd (hdigit 'n' rfl) (by decide)
  | false =>
    rw [hnan] at hdigit
    exact absurd (hdigit 'i' rfl) (by decide)

theorem brief_body_eq_iff :
    brief.body v = brief.body w ↔
      v.isNaN = w.isNaN ∧ v.isFinite = w.isFinite ∧
        (v.isFinite → v.scientific 5 = w.scientific 5) := by
  by_cases hv : v.isFinite
  · by_cases hw : w.isFinite
    · have hvnan := Number.not_isNaN_of_isFinite hv
      have hwnan := Number.not_isNaN_of_isFinite hw
      rw [brief_body_of_isFinite hv, brief_body_of_isFinite hw, generalBody_eq_iff hv hw]
      simp only [hvnan, hwnan, hv, hw, true_and, forall_const]
      rfl
    · simp [brief_body_ne hv hw, hv, hw]
  · by_cases hw : w.isFinite
    · simp [(brief_body_ne hw hv).symm, hv, hw]
    · rw [brief_body_of_not_isFinite hv, brief_body_of_not_isFinite hw]
      cases v.isNaN <;> cases w.isNaN <;> simp [hv, hw]

end Conversion

namespace Number

theorem segments_general : (Template.mk "%g").segments = [⟨['%', 'g'], .conversion .brief⟩] := by
  decide +kernel

theorem toList_brief (v : Number) :
    v.brief.toList = Conversion.brief.sign v ++ Conversion.brief.body v := by
  rw [brief, Template.render, segments_general, ← Conversion.render_of_no_width rfl]
  simp [Piece.render]

theorem blank_not_mem_brief (v : Number) : ' ' ∉ v.brief.toList := by
  rw [toList_brief, List.mem_append, not_or]
  constructor
  · rw [Conversion.brief_sign]
    split <;> simp
  · by_cases hfinite : v.isFinite
    · rw [Conversion.brief_body_of_isFinite hfinite]
      exact (Conversion.generalBody_writes hfinite).blank_not_mem
    · rw [Conversion.brief_body_of_not_isFinite hfinite]
      split <;> decide

/-- Two numbers look alike exactly if they have the same sign and are both a NaN, both
infinite, or the same when rounded to six significant digits. -/
theorem brief_eq_iff (v w : Number) :
    v.brief = w.brief ↔
      v.isNegative = w.isNegative ∧ v.isNaN = w.isNaN ∧ v.isFinite = w.isFinite ∧
        (v.isFinite → v.scientific 5 = w.scientific 5) := by
  rw [← Conversion.brief_sign_eq_iff, ← Conversion.brief_body_eq_iff, ← String.toList_inj,
    toList_brief, toList_brief]
  constructor
  · intro h
    exact (Conversion.brief.run_sign v).unique (Conversion.brief.run_sign w) h
  · rintro ⟨hsign, hbody⟩
    rw [hsign, hbody]

end Number

end StoredProgram
