import Mathlib.Data.List.TakeWhile
import StoredProgram.Template.Render

/-!
What a template is made of. Its text is a row of segments, each of them one plain
character, a doubled percent sign, a conversion, or a percent sign with whatever follows
it that makes no conversion. The parts of a directive are as long as they can be, so that
a text can be split in one way only, and what is rendered is what its segments stand for,
one after another.
-/
namespace StoredProgram

/-- A run of characters of one sort, which is over where a text goes on with another. -/
structure Run (sort : Char → Bool) (run rest : List Char) : Prop where
  all : ∀ c ∈ run, sort c
  stops : ∀ c ∈ rest.head?, sort c = false

namespace Run

variable {sort : Char → Bool} {run rest : List Char}

theorem exists_run (sort : Char → Bool) (text : List Char) :
    ∃ run rest, text = run ++ rest ∧ Run sort run rest := by
  refine ⟨text.takeWhile sort, text.dropWhile sort, ?_, ?_, ?_⟩
  · rw [List.takeWhile_append_dropWhile]
  · intro c hc
    exact List.mem_takeWhile_imp hc
  · intro c hc
    have hhead := List.head?_dropWhile_not sort text
    rw [Option.mem_def.mp hc] at hhead
    simpa using hhead

theorem takeWhile_append (h : Run sort run rest) : (run ++ rest).takeWhile sort = run := by
  rw [List.takeWhile_append_of_pos h.all]
  cases rest with
  | nil => simp
  | cons c more => simp [h.stops c rfl]

theorem dropWhile_append (h : Run sort run rest) : (run ++ rest).dropWhile sort = rest := by
  rw [List.dropWhile_append_of_pos h.all]
  cases rest with
  | nil => rfl
  | cons c more => simp [h.stops c rfl]

/-- A text starts with one run of a sort only. -/
theorem unique {other others : List Char} (h : Run sort run rest)
    (hother : Run sort other others) (htext : run ++ rest = other ++ others) :
    run = other ∧ rest = others := by
  constructor
  · rw [← h.takeWhile_append, htext, hother.takeWhile_append]
  · rw [← h.dropWhile_append, htext, hother.dropWhile_append]

end Run

namespace Directive

/-- The precision as it is written. -/
def pointText (d : Directive) : List Char :=
  match d.precision with
  | none => []
  | some digits => '.' :: digits

/-- The directive as it is written after its percent sign. -/
def body (d : Directive) : List Char := d.flags ++ (d.width ++ (d.pointText ++ d.lengths))

/-- Each part of a directive is as long as it can be before the text that follows. -/
structure Longest (d : Directive) (rest : List Char) : Prop where
  flags : Run isFlag d.flags (d.width ++ (d.pointText ++ (d.lengths ++ rest)))
  width : Run Char.isDigit d.width (d.pointText ++ (d.lengths ++ rest))
  point : d.precision = none → (d.lengths ++ rest).head? ≠ some '.'
  precision : ∀ digits ∈ d.precision, Run Char.isDigit digits (d.lengths ++ rest)
  lengths : Run isLength d.lengths rest

theorem source_eq_cons_body (d : Directive) : d.source = '%' :: d.body := by
  simp only [source, body, List.append_assoc]
  rfl

theorem body_append (d : Directive) (rest : List Char) :
    d.body ++ rest = d.flags ++ (d.width ++ (d.pointText ++ (d.lengths ++ rest))) := by
  simp only [body, List.append_assoc]

theorem exists_longest (text : List Char) :
    ∃ (d : Directive) (rest : List Char), text = d.body ++ rest ∧ d.Longest rest := by
  obtain ⟨flags, afterFlags, rfl, hflags⟩ := Run.exists_run isFlag text
  obtain ⟨width, afterWidth, rfl, hwidth⟩ := Run.exists_run Char.isDigit afterFlags
  by_cases hpoint : afterWidth.head? = some '.'
  · obtain ⟨afterPoint, rfl⟩ := List.head?_eq_some_iff.mp hpoint
    obtain ⟨digits, afterDigits, rfl, hdigits⟩ := Run.exists_run Char.isDigit afterPoint
    obtain ⟨lengths, rest, rfl, hlengths⟩ := Run.exists_run isLength afterDigits
    have hprecision : ∀ other ∈ some digits, Run Char.isDigit other (lengths ++ rest) := by
      intro other hother
      rwa [← Option.some.inj hother]
    exact ⟨⟨flags, width, some digits, lengths⟩, rest, by rw [body_append]; rfl,
      hflags, hwidth, fun hnone => absurd hnone (by simp), hprecision, hlengths⟩
  · obtain ⟨lengths, rest, rfl, hlengths⟩ := Run.exists_run isLength afterWidth
    exact ⟨⟨flags, width, none, lengths⟩, rest, by rw [body_append]; rfl,
      hflags, hwidth, fun _ => hpoint, by simp, hlengths⟩

theorem splitPrecision_of_longest {d : Directive} {rest : List Char} (h : d.Longest rest) :
    splitPrecision (d.pointText ++ (d.lengths ++ rest)) = (d.precision, d.lengths ++ rest) := by
  cases hprecision : d.precision with
  | none =>
    simp only [pointText, hprecision, List.nil_append]
    unfold splitPrecision
    split
    · next heq => exact absurd (by rw [heq, List.head?_cons]) (h.point hprecision)
    · rfl
  | some digits =>
    have hdigits := h.precision digits hprecision
    simp only [pointText, hprecision, List.cons_append, splitPrecision,
      hdigits.takeWhile_append, hdigits.dropWhile_append]

/-- There is one way to read a directive. -/
theorem read_of_longest {d : Directive} {rest : List Char} (h : d.Longest rest) :
    read (d.body ++ rest) = (d, rest) := by
  simp only [read, body_append, h.flags.takeWhile_append, h.flags.dropWhile_append,
    h.width.takeWhile_append, h.width.dropWhile_append, splitPrecision_of_longest h,
    h.lengths.takeWhile_append, h.lengths.dropWhile_append]

/-- The letters that make a conversion, with what they ask for. -/
def kinds : List (Char × Style × Bool) :=
  [('f', .fixed, false), ('F', .fixed, true), ('e', .scientific, false),
   ('E', .scientific, true), ('g', .general, false), ('G', .general, true),
   ('d', .integer, false), ('i', .integer, false)]

theorem letter?_eq_some_iff (letter : Char) (kind : Style × Bool) :
    letter? letter = some kind ↔ (letter, kind) ∈ kinds := by
  constructor
  · intro h
    unfold letter? at h
    split at h
    all_goals cases h
    all_goals decide
  · intro h
    simp only [kinds, List.mem_cons, List.not_mem_nil, or_false, Prod.mk.injEq] at h
    rcases h with ⟨rfl, rfl⟩ | ⟨rfl, rfl⟩ | ⟨rfl, rfl⟩ | ⟨rfl, rfl⟩ | ⟨rfl, rfl⟩ | ⟨rfl, rfl⟩ |
      ⟨rfl, rfl⟩ | ⟨rfl, rfl⟩ <;> rfl

/-- A conversion is what the parts of a directive and the letter after it say. A numeral
stands for its value, and a point without digits for zero. -/
structure Denotes (d : Directive) (letter : Char) (c : Conversion) : Prop where
  left : c.flags.left = true ↔ '-' ∈ d.flags
  plus : c.flags.plus = true ↔ '+' ∈ d.flags
  space : c.flags.space = true ↔ ' ' ∈ d.flags
  zero : c.flags.zero = true ↔ '0' ∈ d.flags
  alternate : c.flags.alternate = true ↔ '#' ∈ d.flags
  no_width : d.width = [] → c.width = none
  width : d.width ≠ [] → c.width = some (Nat.ofDigitChars 10 d.width 0)
  no_precision : d.precision = none → c.precision = none
  precision : ∀ digits, d.precision = some digits →
    c.precision = some (Nat.ofDigitChars 10 digits 0)
  kind : (letter, c.style, c.upper) ∈ kinds

end Directive

namespace Conversion

/-- Neither the width nor the precision is beyond the limit. -/
def Fits (c : Conversion) : Prop :=
  ∀ size, c.width = some size ∨ c.precision = some size → size ≤ 4096

theorem fits_iff (c : Conversion) :
    c.Fits ↔ c.width.getD 0 ≤ Directive.fieldLimit ∧ c.precision.getD 0 ≤ Directive.fieldLimit := by
  constructor
  · intro h
    constructor
    · cases hwidth : c.width with
      | none => exact Nat.zero_le _
      | some size => exact h size (Or.inl hwidth)
    · cases hprecision : c.precision with
      | none => exact Nat.zero_le _
      | some size => exact h size (Or.inr hprecision)
  · rintro ⟨hwidth, hprecision⟩ size (heq | heq)
    · rwa [heq] at hwidth
    · rwa [heq] at hprecision

end Conversion

namespace Directive

/-- The conversion of a directive with a letter, whether it fits or not. -/
def meant (d : Directive) (kind : Style × Bool) : Conversion where
  flags := d.parsedFlags
  width := if d.width = [] then none else some (Literal.digitsValue d.width)
  precision := d.precision.map Literal.digitsValue
  style := kind.1
  upper := kind.2

theorem fieldValue_eq_min (digits : List Char) :
    fieldValue digits = min (Literal.digitsValue digits) Literal.largestSize := by
  -- what is capped already and what is capped only at the end agree after each digit
  have hfold : ∀ (rest : List Char) (value : Nat),
      rest.foldl (fun value c => min (min (10 * value) Literal.largestSize +
        (c.toNat - '0'.toNat)) Literal.largestSize) (min value Literal.largestSize) =
          min (Nat.ofDigitChars 10 rest value) Literal.largestSize := by
    intro rest
    induction rest with
    | nil => intro value; rfl
    | cons c rest ih =>
      intro value
      have hstep : min (min (10 * min value Literal.largestSize) Literal.largestSize +
          (c.toNat - '0'.toNat)) Literal.largestSize =
            min (10 * value + (c.toNat - '0'.toNat)) Literal.largestSize := by
        omega
      rw [List.foldl_cons, hstep, ih, Nat.ofDigitChars_cons]
  exact hfold digits 0

/-- No cap at the largest size shows in a field that is within the limit. -/
theorem capped_eq_of_le {field : Option Nat}
    (h : (field.map (min · Literal.largestSize)).getD 0 ≤ fieldLimit) :
    field.map (min · Literal.largestSize) = field := by
  cases field with
  | none => rfl
  | some size =>
    have hlimits : fieldLimit < Literal.largestSize := by decide
    have hsize : min size Literal.largestSize ≤ fieldLimit := h
    rw [Option.map_some, Nat.min_eq_left (by omega)]

theorem widthValue_eq_capped (d : Directive) (kind : Style × Bool) :
    d.widthValue = (d.meant kind).width.map (min · Literal.largestSize) := by
  unfold widthValue meant
  split
  · rfl
  · rw [fieldValue_eq_min, Option.map_some]

theorem precisionValue_eq_capped (d : Directive) (kind : Style × Bool) :
    d.precisionValue = (d.meant kind).precision.map (min · Literal.largestSize) := by
  rw [precisionValue, meant, Option.map_map]
  exact congrArg (d.precision.map ·) (funext fieldValue_eq_min)

theorem denotes_meant {d : Directive} {letter : Char} {kind : Style × Bool}
    (h : (letter, kind) ∈ kinds) : d.Denotes letter (d.meant kind) where
  left := by simp [meant, parsedFlags]
  plus := by simp [meant, parsedFlags]
  space := by simp [meant, parsedFlags]
  zero := by simp [meant, parsedFlags]
  alternate := by simp [meant, parsedFlags]
  no_width := fun hnone => by simp [meant, hnone]
  width := fun hsome => by simp [meant, hsome, Literal.digitsValue]
  no_precision := fun hnone => by simp [meant, hnone]
  precision := fun digits hsome => by simp [meant, hsome, Literal.digitsValue]
  kind := h

theorem Denotes.eq_meant {d : Directive} {letter : Char} {c : Conversion}
    (h : d.Denotes letter c) : c = d.meant (c.style, c.upper) := by
  have hflags : c.flags = d.parsedFlags := by
    have hsame : ∀ {b : Bool} {flag : Char}, (b = true ↔ flag ∈ d.flags) →
        b = d.flags.contains flag := by
      intro b flag hb
      rw [Bool.eq_iff_iff, hb, List.contains_iff_mem]
    rw [parsedFlags, ← hsame h.left, ← hsame h.plus, ← hsame h.space, ← hsame h.zero,
      ← hsame h.alternate]
  have hwidth : c.width = (d.meant (c.style, c.upper)).width := by
    unfold meant
    split
    · next hnone => exact h.no_width hnone
    · next hsome => exact h.width hsome
  have hprecision : c.precision = (d.meant (c.style, c.upper)).precision := by
    cases hpoint : d.precision with
    | none => rw [meant, hpoint, h.no_precision hpoint, Option.map_none]
    | some digits => rw [meant, hpoint, h.precision digits hpoint, Option.map_some]; rfl
  calc c = ⟨c.flags, c.width, c.precision, c.style, c.upper⟩ := rfl
    _ = d.meant (c.style, c.upper) := by rw [hflags, hwidth, hprecision]; rfl

theorem fits_meant_iff (d : Directive) (kind : Style × Bool) :
    (d.meant kind).Fits ↔
      d.widthValue.getD 0 ≤ fieldLimit ∧ d.precisionValue.getD 0 ≤ fieldLimit := by
  have hcapped : ∀ field : Option Nat, (field.map (min · Literal.largestSize)).getD 0 ≤ fieldLimit ↔
      field.getD 0 ≤ fieldLimit := by
    intro field
    cases field with
    | none => exact Iff.rfl
    | some size =>
      have hlimits : fieldLimit < Literal.largestSize := by decide
      simp only [Option.map_some, Option.getD_some]
      omega
  rw [Conversion.fits_iff, d.widthValue_eq_capped kind, d.precisionValue_eq_capped kind, hcapped,
    hcapped]

theorem conversion?_eq_some_iff (d : Directive) (letter : Char) (c : Conversion) :
    d.conversion? letter = some c ↔ d.Denotes letter c ∧ c.Fits := by
  -- within the limit a cap at the largest size changes nothing
  have hmeant : ∀ kind, d.widthValue.getD 0 ≤ fieldLimit ∧ d.precisionValue.getD 0 ≤ fieldLimit →
      (⟨d.parsedFlags, d.widthValue, d.precisionValue, kind.1, kind.2⟩ : Conversion) =
        d.meant kind := by
    intro kind hfits
    rw [d.widthValue_eq_capped kind, d.precisionValue_eq_capped kind] at hfits ⊢
    rw [capped_eq_of_le hfits.1, capped_eq_of_le hfits.2]
    rfl
  constructor
  · intro h
    unfold conversion? at h
    split at h
    · next hfits =>
      obtain ⟨kind, hletter, hc⟩ := Option.map_eq_some_iff.mp h
      obtain rfl : c = d.meant kind := hc.symm.trans (hmeant kind hfits)
      exact ⟨denotes_meant ((letter?_eq_some_iff letter kind).mp hletter),
        (d.fits_meant_iff kind).mpr hfits⟩
    · cases h
  · rintro ⟨hdenotes, hfits⟩
    have hletter := (letter?_eq_some_iff letter _).mpr hdenotes.kind
    rw [hdenotes.eq_meant, fits_meant_iff] at hfits
    rw [conversion?, if_pos hfits, hletter, Option.map_some]
    exact congrArg some ((hmeant _ hfits).trans hdenotes.eq_meant.symm)

end Directive

/-- A segment at the front of a text, before the rest of it. -/
inductive Segment.Before : Segment → List Char → Prop
  | plain {c : Char} (hplain : c ≠ '%') (rest : List Char) : Before ⟨[c], .literal [c]⟩ rest
  | percent (rest : List Char) : Before ⟨['%', '%'], .literal ['%']⟩ rest
  | conversion {d : Directive} {letter : Char} {c : Conversion} {rest : List Char}
      (hlongest : d.Longest (letter :: rest)) (hdenotes : d.Denotes letter c) (hfits : c.Fits) :
      Before ⟨d.source ++ [letter], .conversion c⟩ rest
  /-- Anything else stands for itself, up to the character that makes no conversion. -/
  | other {d : Directive} {next : Option Char} {rest : List Char}
      (hlongest : d.Longest (next.toList ++ rest)) (hend : next = none → rest = [])
      (hpercent : d.source ++ next.toList ≠ ['%', '%'])
      (hrefused : ∀ letter ∈ next, ∀ c, d.Denotes letter c → ¬ c.Fits) :
      Before ⟨d.source ++ next.toList, .literal (d.source ++ next.toList)⟩ rest

/-- A text is split into segments from left to right. -/
inductive Splits : List Char → List Segment → Prop
  | nil : Splits [] []
  | cons {first : Segment} {rest : List Char} {segments : List Segment}
      (hfirst : first.Before rest) (hrest : Splits rest segments) :
      Splits (first.source ++ rest) (first :: segments)

theorem segmentsOf_plain {c : Char} (h : c ≠ '%') (rest : List Char) :
    segmentsOf (c :: rest) = ⟨[c], .literal [c]⟩ :: segmentsOf rest := by
  rw [segmentsOf, if_neg h]

theorem segmentsOf_directive {d : Directive} {next : Option Char} {rest : List Char}
    (hlongest : d.Longest (next.toList ++ rest)) (hend : next = none → rest = []) :
    segmentsOf (d.source ++ (next.toList ++ rest)) = d.segment next :: segmentsOf rest := by
  have hread := Directive.read_of_longest hlongest
  rw [d.source_eq_cons_body, List.cons_append, segmentsOf, if_pos rfl, hread]
  cases next with
  | none => simp [hend rfl]
  | some c => simp

/-- A percent sign alone, before one that makes the pair complete. -/
theorem longest_percent (rest : List Char) :
    (⟨[], [], none, []⟩ : Directive).Longest ('%' :: rest) where
  flags := ⟨by simp, by simp [Directive.pointText, Directive.isFlag]⟩
  width := ⟨by simp, by simp [Directive.pointText, Char.isDigit]⟩
  point := by simp
  precision := by simp
  lengths := ⟨by simp, by simp [Directive.isLength]⟩

namespace Directive

theorem segment_of_denotes {d : Directive} {letter : Char} {c : Conversion}
    (hdenotes : d.Denotes letter c) (hfits : c.Fits) :
    d.segment (some letter) = ⟨d.source ++ [letter], .conversion c⟩ := by
  have hletter : letter ≠ '%' := by
    rintro rfl
    exact absurd hdenotes.kind (by simp [kinds])
  have hpercent : d.source ++ [letter] ≠ ['%', '%'] := by
    intro heq
    have hlast := congrArg List.getLast? heq
    simp [hletter] at hlast
  have hconversion := (d.conversion?_eq_some_iff letter c).mpr ⟨hdenotes, hfits⟩
  simp only [segment, if_neg hpercent, hconversion]

theorem segment_of_refused {d : Directive} {next : Option Char}
    (hpercent : d.source ++ next.toList ≠ ['%', '%'])
    (hrefused : ∀ letter ∈ next, ∀ c, d.Denotes letter c → ¬ c.Fits) :
    d.segment next = ⟨d.source ++ next.toList, .literal (d.source ++ next.toList)⟩ := by
  cases next with
  | none => simp only [segment, Option.toList_none, List.append_nil]
  | some letter =>
    have hnone : d.conversion? letter = none := by
      rw [Option.eq_none_iff_forall_ne_some]
      intro c hc
      obtain ⟨hdenotes, hfits⟩ := (d.conversion?_eq_some_iff letter c).mp hc
      exact hrefused letter rfl c hdenotes hfits
    simp only [Option.toList_some] at hpercent
    simp only [segment, if_neg hpercent, hnone, Option.toList_some]

end Directive

/-- What a text starts with is its first segment. -/
theorem segmentsOf_of_before {first : Segment} {rest : List Char} (h : first.Before rest) :
    segmentsOf (first.source ++ rest) = first :: segmentsOf rest := by
  cases h with
  | plain hplain => exact segmentsOf_plain hplain rest
  | percent =>
    have hlongest : (⟨[], [], none, []⟩ : Directive).Longest ((some '%').toList ++ rest) :=
      longest_percent rest
    exact segmentsOf_directive hlongest (by simp)
  | @conversion d letter c _ hlongest hdenotes hfits =>
    rw [← Directive.segment_of_denotes hdenotes hfits, ← segmentsOf_directive hlongest (by simp),
      Directive.segment_of_denotes hdenotes hfits]
    simp only [Option.toList_some, List.append_assoc]
  | @other d next _ hlongest hend hpercent hrefused =>
    rw [← Directive.segment_of_refused hpercent hrefused, ← segmentsOf_directive hlongest hend,
      Directive.segment_of_refused hpercent hrefused, List.append_assoc]

/-- A directive makes a segment with the character after it, whatever that is. -/
theorem exists_before_directive {d : Directive} {next : Option Char} {rest : List Char}
    (hlongest : d.Longest (next.toList ++ rest)) (hend : next = none → rest = []) :
    ∃ piece, (⟨d.source ++ next.toList, piece⟩ : Segment).Before rest := by
  by_cases hpercent : d.source ++ next.toList = ['%', '%']
  · exact ⟨.literal ['%'], hpercent ▸ Segment.Before.percent rest⟩
  · by_cases hconversion : ∃ letter ∈ next, ∃ c, d.Denotes letter c ∧ c.Fits
    · obtain ⟨letter, hletter, c, hdenotes, hfits⟩ := hconversion
      obtain rfl : next = some letter := hletter
      exact ⟨.conversion c, Segment.Before.conversion hlongest hdenotes hfits⟩
    · refine ⟨_, Segment.Before.other hlongest hend hpercent ?_⟩
      intro letter hletter c hdenotes hfits
      exact hconversion ⟨letter, hletter, c, hdenotes, hfits⟩

/-- Every text that is not empty starts with a segment. -/
theorem exists_before {text : List Char} (h : text ≠ []) :
    ∃ (first : Segment) (rest : List Char), text = first.source ++ rest ∧ first.Before rest := by
  obtain ⟨c, more, rfl⟩ := List.exists_cons_of_ne_nil h
  by_cases hc : c = '%'
  · obtain ⟨d, after, rfl, hlongest⟩ := Directive.exists_longest more
    have hafter : after.head?.toList ++ after.tail = after := by cases after <;> rfl
    have hend : after.head? = none → after.tail = [] := by cases after <;> simp
    rw [← hafter] at hlongest
    obtain ⟨piece, hbefore⟩ := exists_before_directive hlongest hend
    refine ⟨_, after.tail, ?_, hbefore⟩
    rw [hc, d.source_eq_cons_body, List.append_assoc, hafter, List.cons_append]
  · exact ⟨⟨[c], .literal [c]⟩, more, rfl, Segment.Before.plain hc more⟩

theorem Segment.Before.source_ne_nil {first : Segment} {rest : List Char} (h : first.Before rest) :
    first.source ≠ [] := by
  cases h <;> simp [Directive.source]

theorem splits_segmentsOf (text : List Char) : Splits text (segmentsOf text) := by
  induction hlength : text.length using Nat.strong_induction_on generalizing text with
  | h length ih =>
    by_cases htext : text = []
    · rw [htext, segmentsOf]
      exact Splits.nil
    · obtain ⟨first, rest, rfl, hbefore⟩ := exists_before htext
      have hshorter : rest.length < length := by
        have hpos := List.length_pos_iff.mpr hbefore.source_ne_nil
        rw [List.length_append] at hlength
        omega
      rw [segmentsOf_of_before hbefore]
      exact Splits.cons hbefore (ih rest.length hshorter rest rfl)

namespace Splits

variable {text : List Char} {segments : List Segment}

theorem eq_segmentsOf (h : Splits text segments) : segments = segmentsOf text := by
  induction h with
  | nil => rw [segmentsOf]
  | cons hfirst hrest ih => rw [segmentsOf_of_before hfirst, ih]

theorem flatMap_source (h : Splits text segments) : segments.flatMap Segment.source = text := by
  induction h with
  | nil => rfl
  | cons hfirst hrest ih => rw [List.flatMap_cons, ih]

theorem source_ne_nil (h : Splits text segments) : ∀ segment ∈ segments, segment.source ≠ [] := by
  induction h with
  | nil => simp
  | cons hfirst hrest ih =>
    intro segment hsegment
    rcases List.mem_cons.mp hsegment with rfl | hlater
    · exact hfirst.source_ne_nil
    · exact ih segment hlater

end Splits

/-- A template's text is split from left to right into segments that are not empty and make
up all of it, in one way only, and what the template renders for a number is what the
segments render for it, in order. -/
theorem Template.render_concatenates_segments (t : Template) :
    ∃ segments, Splits t.text.toList segments ∧
      segments.flatMap Segment.source = t.text.toList ∧
      (∀ segment ∈ segments, segment.source ≠ []) ∧
      (∀ v : Number, (t.render v).toList = segments.flatMap fun segment => segment.piece.render v) ∧
      ∀ others, Splits t.text.toList others → others = segments := by
  have hsplits := splits_segmentsOf t.text.toList
  refine ⟨segmentsOf t.text.toList, hsplits, hsplits.flatMap_source, hsplits.source_ne_nil, ?_, ?_⟩
  · intro v
    rw [render, segments, String.toList_ofList]
  · intro others hothers
    exact hothers.eq_segmentsOf

/-- A plain character, a doubled percent sign, a conversion, one that is too wide, and two
percent signs that open nothing. -/
def mixedTemplate : Template := ⟨"a%%%-05.lf%4097d%5%%"⟩

def mixedSegments : List Segment :=
  [⟨['a'], .literal ['a']⟩, ⟨['%', '%'], .literal ['%']⟩,
   ⟨"%-05.lf".toList,
    .conversion ⟨⟨true, false, false, true, false⟩, some 5, some 0, .fixed, false⟩⟩,
   ⟨"%4097d".toList, .literal "%4097d".toList⟩, ⟨"%5%".toList, .literal "%5%".toList⟩,
   ⟨['%'], .literal ['%']⟩]

theorem mixedTemplate_splits :
    Splits mixedTemplate.text.toList mixedSegments ∧
      (mixedTemplate.render .one).toList = "a%1    %4097d%5%%".toList ∧
      ∀ v : Number, (mixedTemplate.render v).toList =
        mixedSegments.flatMap fun segment => segment.piece.render v := by
  have hsplits : Splits mixedTemplate.text.toList mixedSegments := by
    have hsegments : segmentsOf mixedTemplate.text.toList = mixedSegments := by decide +kernel
    rw [← hsegments]
    exact splits_segmentsOf _
  obtain ⟨segments, -, -, -, hrender, hunique⟩ := mixedTemplate.render_concatenates_segments
  obtain rfl := hunique mixedSegments hsplits
  exact ⟨hsplits, by decide +kernel, hrender⟩

end StoredProgram
