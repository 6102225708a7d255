import StoredProgram.Proofs.Composition
import StoredProgram.Proofs.GeneralStyle
import StoredProgram.Proofs.Layout

/-!
Printed numbers read back. With a sign and enough places, what a conversion writes for a
number other than a NaN is one token of a line of source, and a program that has it as data
holds the number that was printed, down to the sign of a zero.
-/
namespace StoredProgram

open Literal

theorem Number.magnitude_of_infinite {v : Number} (hfinite : ¬ v.isFinite) (hnan : ¬ v.isNaN) :
    v.magnitude = infinityMagnitude := by
  simp only [isFinite, isNaN, decide_eq_true_eq] at hfinite hnan
  omega

theorem Number.not_isNaN_of_isFinite {v : Number} (h : v.isFinite) : ¬ v.isNaN := by
  simp only [isFinite, isNaN, decide_eq_true_eq] at h ⊢
  omega

namespace Conversion

variable {c : Conversion} {v : Number}

/-- Nothing of a finite number is rounded off with so many places. -/
theorem body_writes (hfinite : v.isFinite) (hstyle : c.style ≠ .integer)
    (hplaces : 1400 ≤ c.places) : Writes (c.body v) v.value := by
  unfold body
  rw [hfinite]
  cases hkind : c.style with
  | fixed =>
    rw [← v.roundedAt_div_pow (le_trans (by decide) hplaces)]
    exact (c.fixedBody_writes v c.places).writes
  | scientific =>
    rw [← Number.value_scientific hfinite (le_trans (by decide) hplaces)]
    exact scientificBody_writes hfinite
  | general =>
    have hdigits : 1400 ≤ c.significantDigits := le_trans hplaces (Nat.le_max_right 1 _)
    rw [← Number.value_scientific hfinite (Nat.le_sub_one_of_lt hdigits)]
    exact generalBody_writes hfinite
  | integer => exact absurd hkind hstyle

theorem body_of_not_isFinite (hfinite : ¬ v.isFinite) (hstyle : c.style ≠ .integer) :
    c.body v = c.word v := by
  rw [body, Bool.eq_false_iff.mpr hfinite]
  cases hkind : c.style with
  | integer => exact absurd hkind hstyle
  | _ => rfl

theorem magnitude?_body (hnan : ¬ v.isNaN) (hstyle : c.style ≠ .integer)
    (hplaces : 1400 ≤ c.places) : magnitude? (c.body v) = some v.magnitude := by
  by_cases hfinite : v.isFinite
  · exact (body_writes hfinite hstyle hplaces).magnitude? hfinite
  · rw [body_of_not_isFinite hfinite hstyle, Number.magnitude_of_infinite hfinite hnan, word,
      if_neg hnan]
    cases c.upper <;> decide

theorem render_of_no_width (hwidth : c.width = none) : c.render v = c.sign v ++ c.body v := by
  simp [render, hwidth]

theorem sign_of_plus (hstyle : c.style ≠ .integer) (hplus : c.flags.plus) :
    c.sign v = [if v.isNegative then '-' else '+'] := by
  rw [sign, isNegative, if_neg hstyle, if_pos hplus]
  split <;> rfl

/-- With a sign and enough places a conversion writes a number as a literal for it. -/
theorem render_written (hnan : ¬ v.isNaN) (hstyle : c.style ≠ .integer)
    (hplaces : 1400 ≤ c.places) (hwidth : c.width = none) (hplus : c.flags.plus) :
    Layout.Numeral (.number v) (c.render v) := by
  have hvalue : (magnitude? (c.body v)).map (Number.ofMagnitude v.isNegative) = some v := by
    rw [magnitude?_body hnan hstyle hplaces, Option.map_some, v.ofMagnitude_magnitude]
  rw [render_of_no_width hwidth, sign_of_plus hstyle hplus]
  cases hsign : v.isNegative with
  | true =>
    rw [hsign] at hvalue
    refine Layout.Numeral.number rfl ?_
    simpa [number?, splitSign] using hvalue
  | false =>
    rw [hsign] at hvalue
    refine Layout.Numeral.number rfl ?_
    simpa [number?, splitSign] using hvalue

end Conversion

/-- What stands between the percent sign and the letter of a conversion with a sign and a
precision. -/
def Directive.signed (precision : Nat) : Directive where
  flags := ['+']
  width := []
  precision := some (Nat.toDigits 10 precision)
  lengths := []

namespace Directive

theorem signed_wellFormed (precision : Nat) : (signed precision).WellFormed where
  flags := by simp [signed, isFlag]
  width := by simp [signed]
  width_head := by simp [signed]
  precision := by simpa [signed] using isDigit_of_mem_toDigits (n := precision)
  lengths := by simp [signed]

theorem signed_fits {precision : Nat} (h : precision ≤ 4096) (kind : Style × Bool) :
    ((signed precision).meant kind).Fits := by
  rw [Conversion.fits_iff]
  refine ⟨Nat.zero_le _, ?_⟩
  simpa [meant, signed, digitsValue_toDigits, fieldLimit] using h

end Directive

theorem render_signed {precision : Nat} (hprecision : precision ≤ 4096) {letter : Char}
    {kind : Style × Bool} (hkind : (letter, kind) ∈ Directive.kinds) (v : Number) :
    (Template.mk s!"%+.{precision}{letter}").render v =
      String.ofList (((Directive.signed precision).meant kind).render v) := by
  have hbefore : Segment.Before ⟨(Directive.signed precision).source ++ [letter],
      .conversion ((Directive.signed precision).meant kind)⟩ [] :=
    .conversion ((Directive.signed_wellFormed precision).longest hkind [])
      (Directive.denotes_meant hkind) (Directive.signed_fits hprecision kind)
  have htext : (s!"%+.{precision}{letter}").toList =
      (Directive.signed precision).source ++ [letter] := by
    simp [Directive.source, Directive.signed, toString]
  rw [Template.render, Template.segments, htext, ← List.append_nil (_ ++ [letter]),
    segmentsOf_of_before hbefore, segmentsOf]
  simp [Piece.render]

namespace Layout

variable {text : List Char} {v : Number} {origin : Nat}

theorem dataLine (h : Numeral (.number v) text) :
    StatementLine (.instruction (.data v)) ("data ".toList ++ text) := by
  have hline : StatementLine (.instruction (.data v))
      ([] ++ ("data".toList ++ (([' '] ++ (text ++ [])) ++ []))) :=
    .plain (by decide) (.cons (by decide) h .nil) (.space (by decide))
  simpa using hline

theorem originLine (h : origin ≤ largestSize) :
    StatementLine (.origin origin) ("org ".toList ++ Nat.toDigits 10 origin) := by
  have hline : StatementLine (.origin origin)
      ([] ++ ("org".toList ++ (([' '] ++ (decimalDigits 0 origin ++ [])) ++ []))) :=
    .plain (by decide) (.cons (by decide) (.address 0 h) .nil) (.space (by decide))
  simpa [decimalDigits] using hline

/-- A program of one number, with or without a line feed at the end. -/
theorem ofLines_data (horigin : origin ≤ largestSize) (h : Numeral (.number v) text)
    {ending : List Char} (hending : ending = [] ∨ ending = ['\n']) :
    Program.ofLines 1 (Text.lines ("org ".toList ++ Nat.toDigits 10 origin ++
      '\n' :: "data ".toList ++ text ++ ending)) = .ok ⟨origin, [.data v]⟩ := by
  have hsource := Source.origin (originLine horigin) .lineFeed
    (Body.instruction (dataLine h) .lineFeed .nil)
  have hended := hsource.ofLines 1
  rcases hending with rfl | rfl
  · have hlast : ∀ c ∈ ("org ".toList ++ Nat.toDigits 10 origin ++
        '\n' :: "data ".toList ++ text).getLast?, c ≠ '\n' ∧ c ≠ '\r' := by
      intro c hc
      rw [List.getLast?_append_of_ne_nil _ h.ne_nil] at hc
      have hword := h.isWordChar c (List.mem_of_getLast? hc)
      constructor
      · rintro rfl
        exact absurd hword (by decide)
      · rintro rfl
        exact absurd hword (by decide)
    rw [List.append_nil, ← Text.lines_append_lineFeed (by simp) hlast]
    simpa using hended
  · simpa using hended

end Layout

/-- The letters that print a number that need not be an integer. -/
theorem exists_kind {letter : Char} (h : letter ∈ ['f', 'F', 'e', 'E', 'g', 'G']) :
    ∃ kind, (letter, kind) ∈ Directive.kinds ∧ kind.1 ≠ .integer := by
  simp only [List.mem_cons, List.not_mem_nil, or_false] at h
  rcases h with rfl | rfl | rfl | rfl | rfl | rfl
  · exact ⟨(.fixed, false), by decide, by decide⟩
  · exact ⟨(.fixed, true), by decide, by decide⟩
  · exact ⟨(.scientific, false), by decide, by decide⟩
  · exact ⟨(.scientific, true), by decide, by decide⟩
  · exact ⟨(.general, false), by decide, by decide⟩
  · exact ⟨(.general, true), by decide, by decide⟩

/-- Any number but a NaN, printed with a sign and a precision from 1400 on, is a single token
that starts like a number. As the data of a program, in a line after the origin, it is read
as the number that was printed, with the same bits. -/
theorem Template.printed_numbers_read_back (v : Number) (hnan : v.isNaN = false) (letter : Char)
    (hletter : letter ∈ ['f', 'F', 'e', 'E', 'g', 'G']) (precision : Nat)
    (hlow : 1400 ≤ precision) (hhigh : precision ≤ 4096) :
    let text := (Template.mk s!"%+.{precision}{letter}").render v
    Token.lex text.toList = [.number text] ∧
      Program.statementOf s!"data {text}".toList = .ok (some (.instruction (.data v))) ∧
      ∀ origin ≤ Literal.largestSize, ∀ ending ∈ ["", "\n"],
        Program.parse s!"org {origin}\ndata {text}{ending}" = .ok ⟨origin, [.data v]⟩ := by
  obtain ⟨kind, hkind, hstyle⟩ := exists_kind hletter
  have hplaces : 1400 ≤ ((Directive.signed precision).meant kind).places := by
    simpa [Conversion.places, Directive.meant, Directive.signed, digitsValue_toDigits] using hlow
  have hwritten := Conversion.render_written (v := v) (by simp [hnan]) hstyle hplaces rfl rfl
  simp only [render_signed hhigh hkind]
  generalize ((Directive.signed precision).meant kind).render v = text at hwritten
  refine ⟨?_, ?_, ?_⟩
  · have hlex : Token.lex (text ++ []) = _ := hwritten.lex (by simp [Token.Boundary])
    simpa [Token.lex] using hlex
  · have hline := (Layout.dataLine hwritten).statementOf
    simpa [toString] using hline
  · intro origin horigin ending hending
    have hlist : ending.toList = [] ∨ ending.toList = ['\n'] := by
      simp only [List.mem_cons, List.not_mem_nil, or_false] at hending
      rcases hending with rfl | rfl
      · exact Or.inl rfl
      · exact Or.inr rfl
    have hprogram := Layout.ofLines_data horigin hwritten hlist
    rw [Program.parse]
    simpa [toString] using hprogram

/-- The negative number next to zero. -/
def Number.negativeSmallest : Number := ⟨0x8000000000000001⟩

theorem Template.zero_and_smallest_read_back :
    ((Template.mk "%+.1400g").render .negativeZero = "-0" ∧
      Token.lex "-0".toList = [.number "-0"] ∧
      Program.parse "org 7\ndata -0\n" = .ok ⟨7, [.data .negativeZero]⟩) ∧
    Program.parse ("org 7\ndata " ++ (Template.mk "%+.4096E").render .negativeSmallest) =
      .ok ⟨7, [.data .negativeSmallest]⟩ := by
  have hgeneral : toString "%+." ++ toString 1400 ++ toString 'g' = "%+.1400g" := by decide +kernel
  have hexponent : toString "%+." ++ toString 4096 ++ toString 'E' = "%+.4096E" := by
    decide +kernel
  have horigin : toString "org " ++ toString 7 ++ toString "\ndata " = "org 7\ndata " := by
    decide +kernel
  have htext : (Template.mk "%+.1400g").render .negativeZero = "-0" := by decide +kernel
  have hzero := printed_numbers_read_back .negativeZero (by decide) 'g' (by decide) 1400
    (by decide) (by decide)
  have hsmallest := printed_numbers_read_back .negativeSmallest (by decide) 'E' (by decide) 4096
    (by decide) (by decide)
  simp only [hgeneral, htext] at hzero
  simp only [hexponent] at hsmallest
  have hended := hzero.2.2 7 (by decide) "\n" (by decide)
  have hopen := hsmallest.2.2 7 (by decide) "" (by decide)
  rw [horigin] at hended hopen
  exact ⟨⟨htext, hzero.1, hended⟩, by simpa [toString] using hopen⟩

end StoredProgram
