import Mathlib.Data.List.Forall2
import StoredProgram.Proofs.LineGrammar
import StoredProgram.Proofs.Lexing

/-!
Blanks at the ends of lines. They make no token, so that two texts with the same lines but
for such blanks are read alike, with the same fault in the same line if there is one. This
covers line feeds that get a carriage return before them, and blanks or line feeds at the
end of the text.
-/
namespace StoredProgram

namespace Text

/-- The line is the core with blanks before and after it. -/
def Frames (core line : List Char) : Prop :=
  ∃ before after, line = before ++ (core ++ after) ∧ (∀ c ∈ before, isBlank c) ∧
    ∀ c ∈ after, isBlank c

/-- Lines that differ only in blanks at their ends. -/
def SameCore (line other : List Char) : Prop := ∃ core, Frames core line ∧ Frames core other

/-- Lines that differ only in blanks after what they have in common. -/
def SameStart (line other : List Char) : Prop :=
  ∃ core after after', line = core ++ after ∧ other = core ++ after' ∧
    (∀ c ∈ after, isBlank c) ∧ ∀ c ∈ after', isBlank c

/-- The text with a carriage return before each line feed. -/
def withReturns (text : List Char) : List Char :=
  text.flatMap fun c => if c = '\n' then ['\r', '\n'] else [c]

theorem SameStart.refl (line : List Char) : SameStart line line :=
  ⟨line, [], [], by simp, by simp, by simp, by simp⟩

theorem SameStart.cons {line other : List Char} (h : SameStart line other) (c : Char) :
    SameStart (c :: line) (c :: other) := by
  obtain ⟨core, after, after', rfl, rfl, hafter, hafter'⟩ := h
  exact ⟨c :: core, after, after', rfl, rfl, hafter, hafter'⟩

/-- A line that has nothing to keep may begin with any blank. -/
theorem SameStart.prepend {other : List Char} {c : Char} (h : SameStart [] other)
    (hc : isBlank c) : SameStart [] (c :: other) := by
  obtain ⟨core, after, after', hnil, rfl, -, hafter'⟩ := h
  obtain ⟨rfl, rfl⟩ := List.append_eq_nil_iff.mp hnil.symm
  exact ⟨[], [], c :: after', rfl, rfl, by simp, List.forall_mem_cons.mpr ⟨hc, hafter'⟩⟩

theorem SameStart.sameCore {line other : List Char} (h : SameStart line other) :
    SameCore line other := by
  obtain ⟨core, after, after', rfl, rfl, hafter, hafter'⟩ := h
  exact ⟨core, ⟨[], after, rfl, by simp, hafter⟩, ⟨[], after', rfl, by simp, hafter'⟩⟩

/-- Lines with one more character at the start of the first. -/
def extendFirst (c : Char) : List (List Char) → List (List Char)
  | [] => [[c]]
  | line :: more => (c :: line) :: more

theorem lines_cons {c : Char} {rest : List Char} (hfeed : c ≠ '\n')
    (hreturn : ¬ (c = '\r' ∧ rest.head? = some '\n')) :
    lines (c :: rest) = extendFirst c (lines rest) := by
  rw [lines, if_neg hfeed, if_neg hreturn]
  rfl

theorem lines_lineFeed_cons (rest : List Char) : lines ('\n' :: rest) = [] :: lines rest := by
  rw [lines, if_pos rfl]

theorem lines_return_cons {rest : List Char} (h : rest.head? = some '\n') :
    lines ('\r' :: rest) = lines rest := by
  rw [lines, if_neg (by decide), if_pos ⟨rfl, h⟩]

theorem forall₂_extendFirst {texts others : List (List Char)}
    (h : List.Forall₂ SameStart texts others) (c : Char) :
    List.Forall₂ SameStart (extendFirst c texts) (extendFirst c others) := by
  cases h with
  | nil => exact List.Forall₂.cons (SameStart.refl [c]) List.Forall₂.nil
  | cons hfirst hrest => exact List.Forall₂.cons (hfirst.cons c) hrest

theorem head?_withReturns_ne (text : List Char) : (withReturns text).head? ≠ some '\n' := by
  cases text with
  | nil => simp [withReturns]
  | cons c rest =>
    by_cases hc : c = '\n'
    · simp [withReturns, hc]
    · simp [withReturns, hc]

theorem lines_withReturns (text : List Char) :
    List.Forall₂ SameStart (lines text) (lines (withReturns text)) := by
  induction text with
  | nil => exact List.Forall₂.nil
  | cons c rest ih =>
    by_cases hfeed : c = '\n'
    · subst hfeed
      have hwith : withReturns ('\n' :: rest) = '\r' :: '\n' :: withReturns rest := rfl
      rw [hwith, lines_return_cons rfl, lines_lineFeed_cons, lines_lineFeed_cons]
      exact List.Forall₂.cons (SameStart.refl []) ih
    · have hwith : withReturns (c :: rest) = c :: withReturns rest := by
        simp [withReturns, hfeed]
      rw [hwith, lines_cons hfeed fun h => head?_withReturns_ne rest h.2]
      by_cases hreturn : c = '\r' ∧ rest.head? = some '\n'
      · -- the carriage return that was there ends the line now, before the new one
        obtain ⟨rfl, hhead⟩ := hreturn
        rw [lines_return_cons hhead]
        obtain ⟨more, rfl⟩ := List.head?_eq_some_iff.mp hhead
        rw [lines_lineFeed_cons] at ih ⊢
        cases hlines : lines (withReturns ('\n' :: more)) with
        | nil => simp [hlines] at ih
        | cons first others =>
          rw [hlines, List.forall₂_cons] at ih
          exact List.Forall₂.cons (ih.1.prepend (by decide)) ih.2
      · rw [lines_cons hfeed hreturn]
        exact forall₂_extendFirst ih c

/-- A blank at the end of a text is in its last line, or in a line of its own. -/
theorem lines_append_blank {c : Char} (hc : isBlank c) (text : List Char) :
    List.Forall₂ SameStart (lines text) (lines (text ++ [c])) ∨
      ∃ blanks, (∀ d ∈ blanks, isBlank d) ∧ lines (text ++ [c]) = lines text ++ [blanks] := by
  induction text with
  | nil =>
    refine Or.inr ?_
    by_cases hfeed : c = '\n'
    · exact ⟨[], by simp, by simp [lines, hfeed]⟩
    · exact ⟨[c], by simpa using hc, by simp [lines, hfeed]⟩
  | cons d rest ih =>
    rw [List.cons_append]
    by_cases hfeed : d = '\n'
    · subst hfeed
      rw [lines_lineFeed_cons, lines_lineFeed_cons]
      rcases ih with hsame | ⟨blanks, hblanks, hlines⟩
      · exact Or.inl (List.Forall₂.cons (SameStart.refl []) hsame)
      · exact Or.inr ⟨blanks, hblanks, by rw [hlines, List.cons_append]⟩
    · by_cases hreturn : d = '\r' ∧ (rest ++ [c]).head? = some '\n'
      · obtain ⟨rfl, hhead⟩ := hreturn
        rw [lines_return_cons hhead]
        cases rest with
        | nil =>
          obtain rfl : c = '\n' := by simpa using hhead
          refine Or.inl (List.Forall₂.cons ?_ List.Forall₂.nil)
          exact ⟨[], ['\r'], [], rfl, rfl, List.all_eq_true.mp (by decide), by simp⟩
        | cons e more => rwa [lines_return_cons (by simpa using hhead)]
      · have hreturn' : ¬ (d = '\r' ∧ rest.head? = some '\n') := by
          rintro ⟨hd, hhead⟩
          exact hreturn ⟨hd, by simp [List.head?_append, hhead]⟩
        rw [lines_cons hfeed hreturn, lines_cons hfeed hreturn']
        rcases ih with hsame | ⟨blanks, hblanks, hlines⟩
        · exact Or.inl (forall₂_extendFirst hsame d)
        · rw [hlines]
          cases lines rest with
          | nil =>
            refine Or.inl (List.Forall₂.cons ?_ List.Forall₂.nil)
            exact ⟨[d], [], blanks, rfl, rfl, by simp, hblanks⟩
          | cons first more => exact Or.inr ⟨blanks, hblanks, rfl⟩

end Text

namespace Program

theorem lex_of_frames {core line : List Char} (h : Text.Frames core line) :
    Token.lex line = Token.lex core := by
  obtain ⟨before, after, rfl, hbefore, hafter⟩ := h
  rw [Token.lex_blanks hbefore, Token.lex_append_blanks hafter]

/-- Of a line only the tokens count. -/
theorem instructionsOf_congr {texts others : List (List Char)}
    (h : texts.map Token.lex = others.map Token.lex) (number : Nat) :
    instructionsOf number texts = instructionsOf number others := by
  induction texts generalizing others number with
  | nil => rw [List.map_eq_nil_iff.mp h.symm]
  | cons line rest ih =>
    obtain ⟨other, more, rfl, hlex, hrest⟩ := List.map_eq_cons_iff.mp h.symm
    rw [instructionsOf_cons, instructionsOf_cons, statementOf, statementOf, hlex,
      ih hrest.symm (number + 1)]

theorem ofLines_congr {texts others : List (List Char)}
    (h : texts.map Token.lex = others.map Token.lex) (number : Nat) :
    ofLines number texts = ofLines number others := by
  induction texts generalizing others number with
  | nil => rw [List.map_eq_nil_iff.mp h.symm]
  | cons line rest ih =>
    obtain ⟨other, more, rfl, hlex, hrest⟩ := List.map_eq_cons_iff.mp h.symm
    rw [ofLines, ofLines, hlex, ih hrest.symm (number + 1),
      instructionsOf_congr hrest.symm (number + 1)]

theorem ofLines_of_sameCore {texts others : List (List Char)}
    (h : List.Forall₂ Text.SameCore texts others) (number : Nat) :
    ofLines number texts = ofLines number others := by
  refine ofLines_congr ?_ number
  induction h with
  | nil => rfl
  | cons hfirst hrest ih =>
    obtain ⟨core, hline, hother⟩ := hfirst
    rw [List.map_cons, List.map_cons, ih, lex_of_frames hline, lex_of_frames hother]

/-- A blank line after the last makes no difference. -/
theorem instructionsOf_append_blank {blank : List Char} (h : isBlankLine blank)
    (texts : List (List Char)) (number : Nat) :
    instructionsOf number (texts ++ [blank]) = instructionsOf number texts := by
  induction texts generalizing number with
  | nil =>
    rw [List.nil_append, instructionsOf_cons, statementOf_of_blank h]
    rfl
  | cons line rest ih =>
    rw [List.cons_append, instructionsOf_cons, instructionsOf_cons, ih (number + 1)]

theorem ofLines_append_blank {blank : List Char} (h : isBlankLine blank)
    (texts : List (List Char)) (number : Nat) :
    ofLines number (texts ++ [blank]) = ofLines number texts := by
  induction texts generalizing number with
  | nil =>
    rw [List.nil_append, ofLines_cons, if_pos h]
    rfl
  | cons line rest ih =>
    rw [List.cons_append, ofLines_cons, ofLines_cons, ih (number + 1),
      instructionsOf_append_blank h rest (number + 1)]

theorem ofLines_append_char {c : Char} (hc : Text.isBlank c) (text : List Char) (number : Nat) :
    ofLines number (Text.lines (text ++ [c])) = ofLines number (Text.lines text) := by
  rcases Text.lines_append_blank hc text with hsame | ⟨blanks, hblanks, hlines⟩
  · exact (ofLines_of_sameCore (hsame.imp fun _ _ h => h.sameCore) number).symm
  · have hblank : isBlankLine blanks := by
      rw [isBlankLine, Token.lex_eq_nil_of_blanks hblanks]
      rfl
    rw [hlines, ofLines_append_blank hblank]

theorem ofLines_append_blanks {tail : List Char} (h : ∀ c ∈ tail, Text.isBlank c)
    (text : List Char) (number : Nat) :
    ofLines number (Text.lines (text ++ tail)) = ofLines number (Text.lines text) := by
  induction tail generalizing text with
  | nil => rw [List.append_nil]
  | cons c more ih =>
    rw [← List.singleton_append, ← List.append_assoc,
      ih fun d hd => h d (List.mem_cons_of_mem c hd),
      ofLines_append_char (h c List.mem_cons_self)]

/-- Texts with as many lines, which differ only in blanks at the ends of lines, are read
alike: as the same program, or with the same fault in the same line. So are a text with
carriage returns before its line feeds, and one with blanks or line feeds at its end. -/
theorem parse_ignores_margins :
    (∀ source other : String,
      List.Forall₂ Text.SameCore (Text.lines source.toList) (Text.lines other.toList) →
      parse source = parse other) ∧
    (∀ source : String,
      parse (String.ofList (Text.withReturns source.toList)) = parse source) ∧
    ∀ source tail : String, (∀ c ∈ tail.toList, Text.isBlank c) →
      parse (source ++ tail) = parse source := by
  refine ⟨fun source other h => ofLines_of_sameCore h 1, fun source => ?_,
    fun source tail h => ?_⟩
  · have hlines := (Text.lines_withReturns source.toList).imp fun _ _ h => h.sameCore
    rw [parse, parse, String.toList_ofList, ofLines_of_sameCore hlines]
  · rw [parse, parse, String.toList_append, ofLines_append_blanks h]

/-- A quote that is not closed in the second line, and the same with blanks around. -/
def tightSource : String := "org 0\nput 1 \"x"

def looseSource : String := "\torg 0 \n  put 1 \"x \r\n"

theorem parse_looseSource :
    let fault : Fault := { cause := .invalidOperand, line := some 2, note := "\"x" }
    (List.Forall₂ Text.SameCore (Text.lines looseSource.toList)
        (Text.lines tightSource.toList) ∧
      parse tightSource = .error fault ∧ parse looseSource = .error fault) ∧
    ((∀ c ∈ "\n \r\n".toList, Text.isBlank c) ∧
      parse (tightSource ++ "\n \r\n") = .error fault) := by
  intro fault
  obtain ⟨hmargins, -, htail⟩ := parse_ignores_margins
  have hframes : List.Forall₂ Text.SameCore ["\torg 0 ".toList, "  put 1 \"x ".toList]
      ["org 0".toList, "put 1 \"x".toList] := by
    have hsame : ∀ line : List Char, Text.Frames line line := fun line =>
      ⟨[], [], by simp, by simp, by simp⟩
    refine .cons ⟨_, ⟨['\t'], [' '], rfl, ?_, ?_⟩, hsame _⟩
      (.cons ⟨_, ⟨[' ', ' '], [' '], rfl, ?_, ?_⟩, hsame _⟩ .nil)
    all_goals exact List.all_eq_true.mp (by decide)
  have hloose : Text.lines looseSource.toList = ["\torg 0 ".toList, "  put 1 \"x ".toList] := by
    decide +kernel
  have htight : Text.lines tightSource.toList = ["org 0".toList, "put 1 \"x".toList] := by
    decide +kernel
  rw [← hloose, ← htight] at hframes
  have hfault : parse tightSource = .error fault := by decide +kernel
  have hblanks : ∀ c ∈ "\n \r\n".toList, Text.isBlank c := List.all_eq_true.mp (by decide)
  exact ⟨⟨hframes, hfault, (hmargins _ _ hframes).trans hfault⟩, hblanks,
    (htail _ _ hblanks).trans hfault⟩

end Program

end StoredProgram
