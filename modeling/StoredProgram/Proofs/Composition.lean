import StoredProgram.Proofs.Exactness

/-!
Templates put together from parts. A text in which every percent sign is doubled stands for
itself, and a conversion is over with its letter. So no part reads on into the next one,
whatever that starts with, and what a template of such parts renders is what the parts
render, one after another.
-/
namespace StoredProgram

open Literal

/-- The text with every percent sign doubled. -/
def doubled (text : List Char) : List Char :=
  text.flatMap fun c => if c = '%' then ['%', '%'] else [c]

namespace Directive

/-- Each part of a directive is of its sort. A zero in front of the width would be a flag. -/
structure WellFormed (d : Directive) : Prop where
  flags : ∀ c ∈ d.flags, isFlag c
  width : ∀ c ∈ d.width, c.isDigit
  width_head : d.width.head? ≠ some '0'
  precision : ∀ digits ∈ d.precision, ∀ c ∈ digits, c.isDigit
  lengths : ∀ c ∈ d.lengths, isLength c

theorem letter_of_kinds {letter : Char} {kind : Style × Bool} (h : (letter, kind) ∈ kinds) :
    isFlag letter = false ∧ letter.isDigit = false ∧ letter ≠ '.' ∧ isLength letter = false := by
  have hall : kinds.all fun entry => !isFlag entry.1 && (!entry.1.isDigit &&
      (entry.1 != '.' && !isLength entry.1)) := by decide
  simpa using List.all_eq_true.mp hall _ h

/-- Length letters are of no other sort. -/
theorem of_isLength {c : Char} (h : isLength c) :
    isFlag c = false ∧ c.isDigit = false ∧ c ≠ '.' := by
  have hall : ['h', 'l', 'L', 'q', 'j', 'z', 't'].all fun c =>
      !isFlag c && (!c.isDigit && c != '.') := by decide
  simpa using List.all_eq_true.mp hall c (by simpa [isLength] using h)

theorem isFlag_of_isDigit {c : Char} (h : c.isDigit) (hzero : c ≠ '0') : isFlag c = false := by
  have hother : ∀ flag ∈ ['-', '+', ' ', '#'], c ≠ flag := by
    rintro flag hflag rfl
    have hnone : ['-', '+', ' ', '#'].all fun flag => !flag.isDigit := by decide
    simpa [h] using List.all_eq_true.mp hnone c hflag
  simp only [List.mem_cons, List.not_mem_nil, or_false, forall_eq_or_imp, forall_eq] at hother
  simp [isFlag, hother, hzero]

variable {d : Directive} {letter : Char} {kind : Style × Bool}

theorem WellFormed.head?_lengths (h : d.WellFormed) (hkind : (letter, kind) ∈ kinds)
    (rest : List Char) :
    ∀ c ∈ (d.lengths ++ letter :: rest).head?,
      isFlag c = false ∧ c.isDigit = false ∧ c ≠ '.' := by
  obtain ⟨hflag, hdigit, hpoint, -⟩ := letter_of_kinds hkind
  intro c hc
  cases hlengths : d.lengths with
  | nil =>
    rw [hlengths] at hc
    obtain rfl := Option.some.inj hc
    exact ⟨hflag, hdigit, hpoint⟩
  | cons first more =>
    rw [hlengths] at hc
    obtain rfl := Option.some.inj hc
    exact of_isLength (h.lengths first (by rw [hlengths]; exact List.mem_cons_self))

theorem WellFormed.head?_point (h : d.WellFormed) (hkind : (letter, kind) ∈ kinds)
    (rest : List Char) :
    ∀ c ∈ (d.pointText ++ (d.lengths ++ letter :: rest)).head?,
      isFlag c = false ∧ c.isDigit = false := by
  intro c hc
  cases hprecision : d.precision with
  | none =>
    simp only [pointText, hprecision, List.nil_append] at hc
    obtain ⟨hflag, hdigit, -⟩ := h.head?_lengths hkind rest c hc
    exact ⟨hflag, hdigit⟩
  | some digits =>
    simp only [pointText, hprecision, List.cons_append] at hc
    obtain rfl := Option.some.inj hc
    decide

/-- Before its letter a directive is read to the end, and no further, whatever comes after. -/
theorem WellFormed.longest (h : d.WellFormed) (hkind : (letter, kind) ∈ kinds)
    (rest : List Char) : d.Longest (letter :: rest) where
  flags := by
    refine ⟨h.flags, fun c hc => ?_⟩
    cases hwidth : d.width with
    | nil =>
      rw [hwidth] at hc
      exact (h.head?_point hkind rest c hc).1
    | cons first more =>
      have hhead := h.width_head
      have hdigit := h.width
      rw [hwidth] at hc hhead hdigit
      obtain rfl := Option.some.inj hc
      exact isFlag_of_isDigit (hdigit first List.mem_cons_self) (by simpa using hhead)
  width := ⟨h.width, fun c hc => (h.head?_point hkind rest c hc).2⟩
  point := fun _ hhead => (h.head?_lengths hkind rest '.' hhead).2.2 rfl
  precision := fun digits hdigits =>
    ⟨h.precision digits hdigits, fun c hc => (h.head?_lengths hkind rest c hc).2.1⟩
  lengths := by
    refine ⟨h.lengths, fun c hc => ?_⟩
    obtain rfl := Option.some.inj hc
    exact (letter_of_kinds hkind).2.2.2

end Directive

theorem head?_toDigits_ne_zero {n : Nat} (h : 0 < n) : (Nat.toDigits 10 n).head? ≠ some '0' := by
  intro hhead
  obtain ⟨rest, hdigits⟩ := List.head?_eq_some_iff.mp hhead
  have hrest : ∀ c ∈ rest, c.isDigit := fun c hc =>
    isDigit_of_mem_toDigits c (hdigits ▸ List.mem_cons_of_mem '0' hc)
  have hvalue : n = digitsValue rest := by
    rw [← digitsValue_toDigits n, hdigits, digitsValue_cons]
    simp
  have hlt : n < 10 ^ rest.length := hvalue ▸ digitsValue_lt hrest
  -- fewer digits would do
  have hpos : 0 < rest.length := by
    rcases Nat.eq_zero_or_pos rest.length with hzero | hpos
    · rw [hzero, Nat.pow_zero] at hlt
      omega
    · exact hpos
  have hlength := (Nat.length_toDigits_le_iff (by decide) hpos).mpr hlt
  rw [hdigits, List.length_cons] at hlength
  omega

/-- A conversion as it is written in a template: any flags, perhaps a width without leading
zeros, perhaps a point with the digits of a precision or with none, any length letters, and
the letter with what it asks for. -/
structure Specification where
  flags : List Char
  width : Option Nat
  precision : Option (List Char)
  lengths : List Char
  letter : Char
  kind : Style × Bool
  flags_sort : ∀ c ∈ flags, Directive.isFlag c
  width_range : ∀ size ∈ width, 1 ≤ size ∧ size ≤ 4096
  precision_digits : ∀ digits ∈ precision, ∀ c ∈ digits, c.isDigit
  precision_range : ∀ digits ∈ precision, digitsValue digits ≤ 4096
  lengths_sort : ∀ c ∈ lengths, Directive.isLength c
  letter_kind : (letter, kind) ∈ Directive.kinds

namespace Specification

def directive (s : Specification) : Directive where
  flags := s.flags
  width := (s.width.map (Nat.toDigits 10)).getD []
  precision := s.precision
  lengths := s.lengths

def source (s : Specification) : List Char := s.directive.source ++ [s.letter]

def conversion (s : Specification) : Conversion where
  flags :=
    { left := s.flags.contains '-'
      plus := s.flags.contains '+'
      space := s.flags.contains ' '
      zero := s.flags.contains '0'
      alternate := s.flags.contains '#' }
  width := s.width
  precision := s.precision.map digitsValue
  style := s.kind.1
  upper := s.kind.2

theorem wellFormed (s : Specification) : s.directive.WellFormed where
  flags := s.flags_sort
  width := by
    cases hwidth : s.width with
    | none => simp [directive, hwidth]
    | some size => simpa [directive, hwidth] using isDigit_of_mem_toDigits (n := size)
  width_head := by
    cases hwidth : s.width with
    | none => simp [directive, hwidth]
    | some size =>
      simpa [directive, hwidth] using head?_toDigits_ne_zero (s.width_range size hwidth).1
  precision := s.precision_digits
  lengths := s.lengths_sort

theorem conversion_eq_meant (s : Specification) : s.conversion = s.directive.meant s.kind := by
  have hwidth : s.width = (s.directive.meant s.kind).width := by
    cases hwidth : s.width with
    | none => simp [directive, Directive.meant, hwidth]
    | some size =>
      simp [directive, Directive.meant, hwidth, Nat.toDigits_ne_nil, digitsValue_toDigits]
  rw [conversion, hwidth]
  rfl

theorem fits (s : Specification) : s.conversion.Fits := by
  rintro size (hwidth | hprecision)
  · exact (s.width_range size hwidth).2
  · obtain ⟨digits, hdigits, rfl⟩ := Option.map_eq_some_iff.mp hprecision
    exact s.precision_range digits hdigits

/-- Whatever follows a conversion, it is taken for what it says. -/
theorem before (s : Specification) (rest : List Char) :
    Segment.Before ⟨s.source, .conversion s.conversion⟩ rest := by
  refine Segment.Before.conversion (s.wellFormed.longest s.letter_kind rest) ?_ s.fits
  rw [conversion_eq_meant]
  exact Directive.denotes_meant s.letter_kind

end Specification

/-- A part that a template is put together from. -/
inductive Part where
  | literal (text : List Char)
  | conversion (specification : Specification)

namespace Part

def source : Part → List Char
  | literal text => doubled text
  | conversion specification => specification.source

def render (v : Number) : Part → List Char
  | literal text => text
  | conversion specification => specification.conversion.render v

end Part

/-- What a text renders as a template. -/
def rendering (v : Number) (text : List Char) : List Char :=
  (segmentsOf text).flatMap fun segment => segment.piece.render v

variable {v : Number}

theorem toList_render (text : List Char) :
    ((Template.mk (String.ofList text)).render v).toList = rendering v text := by
  rw [Template.render, Template.segments, String.toList_ofList, String.toList_ofList, rendering]

theorem rendering_nil : rendering v [] = [] := by
  rw [rendering, segmentsOf, List.flatMap_nil]

theorem rendering_of_before {first : Segment} {rest : List Char} (h : first.Before rest) :
    rendering v (first.source ++ rest) = first.piece.render v ++ rendering v rest := by
  rw [rendering, segmentsOf_of_before h, List.flatMap_cons, rendering]

theorem rendering_doubled (text rest : List Char) :
    rendering v (doubled text ++ rest) = text ++ rendering v rest := by
  induction text with
  | nil => rfl
  | cons c more ih =>
    rw [doubled, List.flatMap_cons, ← doubled, List.append_assoc]
    by_cases hc : c = '%'
    · subst hc
      have hpercent := rendering_of_before (v := v) (Segment.Before.percent (doubled more ++ rest))
      rw [ih] at hpercent
      exact hpercent
    · have hplain := rendering_of_before (v := v) (Segment.Before.plain hc (doubled more ++ rest))
      rw [ih] at hplain
      rw [if_neg hc]
      exact hplain

/-- A part renders what it stands for, and leaves what follows it as it is. -/
theorem rendering_part (part : Part) (rest : List Char) :
    rendering v (part.source ++ rest) = part.render v ++ rendering v rest := by
  cases part with
  | literal text => exact rendering_doubled text rest
  | conversion specification => exact rendering_of_before (specification.before rest)

theorem rendering_parts (parts : List Part) :
    rendering v (parts.flatMap Part.source) = parts.flatMap (Part.render v) := by
  induction parts with
  | nil => exact rendering_nil
  | cons part more ih => rw [List.flatMap_cons, List.flatMap_cons, rendering_part, ih]

/-- A template that is put together from parts renders the literal texts themselves and what
each conversion renders on its own, in order. In particular a text with every percent sign
doubled renders as the text, for every number. -/
theorem Template.render_composes (parts : List Part) (v : Number) :
    ((Template.mk (String.ofList (parts.flatMap Part.source))).render v).toList =
        parts.flatMap (Part.render v) ∧
      (∀ specification : Specification,
        ((Template.mk (String.ofList specification.source)).render v).toList =
          specification.conversion.render v) ∧
      ∀ text : String, (Template.mk (String.ofList (doubled text.toList))).render v = text := by
  refine ⟨?_, fun specification => ?_, fun text => ?_⟩
  · rw [toList_render, rendering_parts]
  · have halone := rendering_part (v := v) (.conversion specification) []
    rw [List.append_nil, rendering_nil, List.append_nil] at halone
    rw [toList_render]
    exact halone
  · have hliteral := rendering_doubled (v := v) text.toList []
    rw [List.append_nil, rendering_nil, List.append_nil, ← toList_render] at hliteral
    exact String.toList_injective hliteral

/-- A flag that is written twice, a width, a precision with a leading zero and a letter for a
length that has no effect. -/
def Specification.narrow : Specification where
  flags := ['-', '-']
  width := some 8
  precision := some ['0', '2']
  lengths := ['l']
  letter := 'f'
  kind := (.fixed, false)
  flags_sort := by simp [Directive.isFlag]
  width_range := by simp
  precision_digits := by simp [Char.isDigit]
  precision_range := by rintro digits ⟨⟩; decide
  lengths_sort := by simp [Directive.isLength]
  letter_kind := by simp [Directive.kinds]

def Specification.shortest : Specification where
  flags := []
  width := none
  precision := none
  lengths := []
  letter := 'g'
  kind := (.general, false)
  flags_sort := by simp
  width_range := by simp
  precision_digits := by simp
  precision_range := by simp
  lengths_sort := by simp
  letter_kind := by simp [Directive.kinds]

/-- Texts that would be read as something else if their percent signs were not doubled. -/
def mixedParts : List Part :=
  [.literal "5%".toList, .conversion .narrow, .literal "00%d".toList, .conversion .shortest]

theorem Template.render_mixedParts :
    mixedParts.flatMap Part.source = "5%%%--8.02lf00%%d%g".toList ∧
      (Template.mk "5%%%--8.02lf00%%d%g").render .one = "5%1.00    00%d1" ∧
      (Template.mk "%--8.02lf").render .one = "1.00    " ∧
      (Template.mk "5%%00%%d%%").render .one = "5%00%d%" := by
  have hsource : mixedParts.flatMap Part.source = "5%%%--8.02lf00%%d%g".toList := by
    decide +kernel
  have hnarrow : Specification.narrow.source = "%--8.02lf".toList := by decide +kernel
  have hdoubled : doubled "5%00%d%".toList = "5%%00%%d%%".toList := by decide +kernel
  obtain ⟨hparts, halone, hliteral⟩ := render_composes mixedParts .one
  have halone := halone .narrow
  have hliteral := hliteral "5%00%d%"
  rw [hsource, String.ofList_toList] at hparts
  rw [hnarrow, String.ofList_toList] at halone
  rw [hdoubled, String.ofList_toList] at hliteral
  refine ⟨hsource, String.toList_injective (hparts.trans ?_),
    String.toList_injective (halone.trans ?_), hliteral⟩
  · decide +kernel
  · decide +kernel

end StoredProgram
