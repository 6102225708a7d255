import StoredProgram.Proofs.Numerals
import StoredProgram.Proofs.Operands

/-!
Source texts of a program in any layout. How blanks separate the tokens, where blank
lines and comments stand, how line ends and numerals are written and what follows an
end is all left open. Every such text is read as the program that it was written for.
-/
namespace StoredProgram

namespace Layout

/-- Blanks that stay within a line. -/
def Space (text : List Char) : Prop := ∀ c ∈ text, Text.isBlank c ∧ c ≠ '\n'

-- Named, as a search may also find the instance that tries every character there is.
instance (text : List Char) : Decidable (Space text) :=
  List.decidableBAll (fun c => Text.isBlank c ∧ c ≠ '\n') text

/-- What separates two tokens. -/
def Gap (text : List Char) : Prop := text ≠ [] ∧ Space text

instance (text : List Char) : Decidable (Gap text) :=
  inferInstanceAs (Decidable (text ≠ [] ∧ Space text))

/-- The ways to write an operand as a numeral. For a number it is any literal that starts like
a number and has its value; for a register or an address that fits it is the decimal digits,
after zeros if need be. -/
inductive Numeral : Operand → List Char → Prop
  | number {value : Number} {text : List Char} (hstart : text.head?.any Token.startsNumber)
      (hvalue : Literal.number? (String.ofList text) = some value) : Numeral (.number value) text
  | register {index : Nat} (zeros : Nat) (hfits : index ≤ Literal.largestSize) :
      Numeral (.register index) (Literal.decimalDigits zeros index)
  | address {index : Nat} (zeros : Nat) (hfits : index ≤ Literal.largestSize) :
      Numeral (.address index) (Literal.decimalDigits zeros index)

/-- Numerals in a row, each after a gap. -/
inductive Numerals : List Operand → List Char → Prop
  | nil : Numerals [] []
  | cons {operand : Operand} {operands : List Operand} {gap text rest : List Char}
      (hgap : Gap gap) (hfirst : Numeral operand text) (hrest : Numerals operands rest) :
      Numerals (operand :: operands) (gap ++ (text ++ rest))

/-- What may stand at the end of a line: blanks, or a comment after blanks. The comment
has no quotes if the line has a template. -/
inductive Trailer (quotes : Bool) : List Char → Prop
  | space {text : List Char} (htext : Space text) : Trailer quotes text
  | comment {gap text : List Char} (hgap : Gap gap) (htext : '\n' ∉ text)
      (hquotes : quotes = false → '"' ∉ text) : Trailer quotes (gap ++ '/' :: '/' :: text)

/-- A line with the keyword of a statement and its operands, which are numerals and at the end
a template, if there is one. -/
inductive StatementLine (s : Statement) : List Char → Prop
  | plain {indent operands trailer : List Char} (hindent : Space indent)
      (hoperands : Numerals s.operands operands) (htrailer : Trailer true trailer) :
      StatementLine s (indent ++ (s.keyword.spelling.toList ++ (operands ++ trailer)))
  | withTemplate {indent operands gap trailer : List Char} {numerals : List Operand}
      {template : Template} (hs : s.operands = numerals ++ [.template template])
      (hindent : Space indent) (hoperands : Numerals numerals operands) (hgap : Gap gap)
      (htemplate : '\n' ∉ template.text.toList) (htrailer : Trailer false trailer) :
      StatementLine s (indent ++ (s.keyword.spelling.toList ++ (operands ++
        (gap ++ '"' :: (template.text.toList ++ '"' :: trailer)))))

/-- A line that says nothing: blanks, and perhaps a comment. -/
inductive SilentLine : List Char → Prop
  | space {text : List Char} (htext : Space text) : SilentLine text
  | comment {indent text : List Char} (hindent : Space indent) (htext : '\n' ∉ text) :
      SilentLine (indent ++ '/' :: '/' :: text)

inductive LineEnd : List Char → Prop
  | lineFeed : LineEnd ['\n']
  | returnLineFeed : LineEnd ['\r', '\n']

/-- The lines after the origin. Whatever follows an end is free. -/
inductive Body : List Instruction → List Char → Prop
  | nil : Body [] []
  | finish {line lineEnd : List Char} (hline : StatementLine .finish line)
      (hend : LineEnd lineEnd) (rest : List Char) : Body [] (line ++ (lineEnd ++ rest))
  | silent {line lineEnd rest : List Char} {instructions : List Instruction}
      (hline : SilentLine line) (hend : LineEnd lineEnd) (hrest : Body instructions rest) :
      Body instructions (line ++ (lineEnd ++ rest))
  | instruction {line lineEnd rest : List Char} {i : Instruction}
      {instructions : List Instruction}
      (hline : StatementLine (.instruction i) line) (hend : LineEnd lineEnd)
      (hrest : Body instructions rest) : Body (i :: instructions) (line ++ (lineEnd ++ rest))

/-- A text in which a program is written. -/
inductive Source : Program → List Char → Prop
  | silent {line lineEnd rest : List Char} {p : Program} (hline : SilentLine line)
      (hend : LineEnd lineEnd) (hrest : Source p rest) : Source p (line ++ (lineEnd ++ rest))
  | origin {line lineEnd rest : List Char} {address : Nat} {instructions : List Instruction}
      (hline : StatementLine (.origin address) line) (hend : LineEnd lineEnd)
      (hbody : Body instructions rest) :
      Source ⟨address, instructions⟩ (line ++ (lineEnd ++ rest))

open Token

theorem Space.isBlank {text : List Char} (h : Space text) : ∀ c ∈ text, Text.isBlank c :=
  fun c hc => (h c hc).1

theorem Space.lineFeed_not_mem {text : List Char} (h : Space text) : '\n' ∉ text :=
  fun hmem => (h '\n' hmem).2 rfl

theorem Gap.boundary {gap : List Char} (h : Gap gap) (rest : List Char) :
    Boundary (gap ++ rest) := by
  obtain ⟨hne, hspace⟩ := h
  obtain ⟨c, more, rfl⟩ := List.exists_cons_of_ne_nil hne
  exact boundary_of_blank_head ⟨c, rfl, hspace.isBlank c List.mem_cons_self⟩

theorem Trailer.boundary {quotes : Bool} {text : List Char} (h : Trailer quotes text) :
    Boundary text := by
  cases h with
  | space htext => exact boundary_of_blanks htext.isBlank
  | comment hgap _ _ => exact hgap.boundary _

theorem Numerals.boundary {numerals : List Operand} {text rest : List Char}
    (h : Numerals numerals text) (hrest : Boundary rest) : Boundary (text ++ rest) := by
  cases h with
  | nil => exact hrest
  | cons hgap _ _ =>
    rw [List.append_assoc]
    exact hgap.boundary _

/-- No word that is read has a line feed in it. -/
theorem lineFeed_not_mem_of_isWordChar {word : List Char} (h : ∀ c ∈ word, isWordChar c) :
    '\n' ∉ word :=
  fun hmem => absurd (h '\n' hmem) (by decide)

namespace Numeral

variable {operand : Operand} {text : List Char}

theorem isWordChar (h : Numeral operand text) : ∀ c ∈ text, isWordChar c := by
  cases h with
  | number _ hvalue => simpa using Literal.isWordChar_of_number? hvalue
  | register zeros _ | address zeros _ =>
    intro c hc
    exact isWordChar_of_isDigit (Literal.isDigit_of_mem_decimalDigits c hc)

theorem startsNumber_decimalDigits (zeros value : Nat) :
    (Literal.decimalDigits zeros value).head?.any startsNumber := by
  obtain ⟨c, more, hdigits⟩ :=
    List.exists_cons_of_ne_nil (Literal.decimalDigits_ne_nil zeros value)
  have hc : c.isDigit := Literal.isDigit_of_mem_decimalDigits c (hdigits ▸ List.mem_cons_self)
  simp [hdigits, Token.startsNumber, hc]

theorem startsNumber (h : Numeral operand text) : text.head?.any startsNumber := by
  cases h with
  | number hstart _ => exact hstart
  | register zeros _ | address zeros _ => exact startsNumber_decimalDigits zeros _

theorem ne_nil (h : Numeral operand text) : text ≠ [] := by
  rintro rfl
  exact absurd h.startsNumber (by simp)

theorem reads (h : Numeral operand text) : operand.Reads (.number (String.ofList text)) := by
  have hsize : ∀ {index : Nat} (zeros : Nat), index ≤ Literal.largestSize →
      Literal.SizeText (String.ofList (Literal.decimalDigits zeros index)).toList index :=
    fun zeros hfits =>
      (Literal.size?_eq_some_iff _ _).mp (Literal.size?_decimalDigits hfits zeros)
  cases h with
  | number _ hvalue => exact .number hvalue
  | register zeros hfits => exact .register (hsize zeros hfits)
  | address zeros hfits => exact .address (hsize zeros hfits)

theorem lex {rest : List Char} (h : Numeral operand text) (hrest : Boundary rest) :
    Token.lex (text ++ rest) = .number (String.ofList text) :: Token.lex rest := by
  have hstart := h.startsNumber
  have hcomment : ['/', '/'].isPrefixOf text = false := by
    obtain ⟨c, more, rfl⟩ := List.exists_cons_of_ne_nil h.ne_nil
    have hc : Token.startsNumber c := hstart
    have hslash : ('/' == c) = false := by
      rw [beq_eq_false_iff_ne]
      rintro rfl
      exact absurd hc (by decide)
    rw [List.isPrefixOf, hslash, Bool.false_and]
  rw [lex_word h.ne_nil h.isWordChar hcomment hrest, ofWord_of_startsNumber (by simpa using hstart)]

end Numeral

theorem Numerals.lex {numerals : List Operand} {text rest : List Char}
    (h : Numerals numerals text) (hrest : Boundary rest) :
    ∃ tokens, Token.lex (text ++ rest) = tokens ++ Token.lex rest ∧
      List.Forall₂ Operand.Reads numerals tokens := by
  induction h with
  | nil => exact ⟨[], rfl, List.Forall₂.nil⟩
  | @cons operand numerals gap text more hgap hfirst hmore ih =>
    obtain ⟨tokens, hlex, hreads⟩ := ih
    refine ⟨.number (String.ofList text) :: tokens, ?_, List.Forall₂.cons hfirst.reads hreads⟩
    rw [List.append_assoc, List.append_assoc, lex_blanks hgap.2.isBlank,
      hfirst.lex (hmore.boundary hrest), hlex, List.cons_append]

theorem Numerals.lineFeed_not_mem {numerals : List Operand} {text : List Char}
    (h : Numerals numerals text) : '\n' ∉ text := by
  induction h with
  | nil => simp
  | cons hgap hfirst hrest ih =>
    simp only [List.mem_append, not_or]
    exact ⟨hgap.2.lineFeed_not_mem, lineFeed_not_mem_of_isWordChar hfirst.isWordChar, ih⟩

theorem not_mem_comment {c : Char} {blanks text : List Char} (hslash : c ≠ '/')
    (hblanks : c ∉ blanks) (htext : c ∉ text) : c ∉ blanks ++ '/' :: '/' :: text := by
  simp [hslash, hblanks, htext]

theorem Trailer.lineFeed_not_mem {quotes : Bool} {text : List Char} (h : Trailer quotes text) :
    '\n' ∉ text := by
  cases h with
  | space htext => exact htext.lineFeed_not_mem
  | comment hgap htext _ => exact not_mem_comment (by decide) hgap.2.lineFeed_not_mem htext

theorem Trailer.quote_not_mem {text : List Char} (h : Trailer false text) : '"' ∉ text := by
  have hspace : ∀ {blanks : List Char}, Space blanks → '"' ∉ blanks :=
    fun hblanks hmem => absurd (hblanks.isBlank _ hmem) (by decide)
  cases h with
  | space htext => exact hspace htext
  | comment hgap _ hquotes => exact not_mem_comment (by decide) (hspace hgap.2) (hquotes rfl)

theorem spelling_word (k : Keyword) :
    k.spelling.toList ≠ [] ∧ (∀ c ∈ k.spelling.toList, isWordChar c) ∧
      ['/', '/'].isPrefixOf k.spelling.toList = false := by
  rw [← List.all_eq_true]
  rcases k with _ | _ | _ | _ | _ | _ | operation | _ | _ | _ | _
  case arithmetic => cases operation <;> decide
  all_goals decide

theorem lex_spelling (k : Keyword) {rest : List Char} (hrest : Boundary rest) :
    Token.lex (k.spelling.toList ++ rest) = .keyword k :: Token.lex rest := by
  obtain ⟨hne, hword, hcomment⟩ := spelling_word k
  rw [lex_word hne hword hcomment hrest, String.ofList_toList, ofWord_spelling]

/-- A statement line has the keyword and tokens for the operands, and then whatever its trailer
gives. -/
theorem StatementLine.lex {s : Statement} {line : List Char} (h : StatementLine s line) :
    ∃ used extra, Token.lex line = .keyword s.keyword :: (used ++ extra) ∧
      List.Forall₂ Operand.Reads s.operands used := by
  cases h with
  | @plain indent operands trailer hindent hoperands htrailer =>
    obtain ⟨tokens, hlex, hreads⟩ := hoperands.lex htrailer.boundary
    refine ⟨tokens, Token.lex trailer, ?_, hreads⟩
    rw [lex_blanks hindent.isBlank, lex_spelling _ (hoperands.boundary htrailer.boundary), hlex]
  | @withTemplate indent operands gap trailer _ template hs hindent hoperands hgap _ htrailer =>
    obtain ⟨tokens, hlex, hreads⟩ := hoperands.lex (hgap.boundary _)
    refine ⟨tokens ++ [.text template.text], Token.lex trailer, ?_, ?_⟩
    · rw [lex_blanks hindent.isBlank, lex_spelling _ (hoperands.boundary (hgap.boundary _)), hlex,
        lex_blanks hgap.2.isBlank, lex_text htrailer.quote_not_mem, String.ofList_toList,
        List.append_assoc, List.singleton_append]
    · rw [hs]
      exact List.rel_append hreads (.cons (.template template.text) .nil)

theorem StatementLine.statementOf {s : Statement} {line : List Char} (h : StatementLine s line) :
    Program.statementOf line = .ok (some s) :=
  Statement.ofTokens_eq_some_iff.mpr h.lex

theorem StatementLine.lineFeed_not_mem {s : Statement} {line : List Char}
    (h : StatementLine s line) : '\n' ∉ line := by
  have hkeyword := lineFeed_not_mem_of_isWordChar (spelling_word s.keyword).2.1
  cases h with
  | plain hindent hoperands htrailer =>
    simp only [List.mem_append, not_or]
    exact ⟨hindent.lineFeed_not_mem, hkeyword, hoperands.lineFeed_not_mem,
      htrailer.lineFeed_not_mem⟩
  | withTemplate _ hindent hoperands hgap htemplate htrailer =>
    simp only [List.mem_append, List.mem_cons, not_or]
    exact ⟨hindent.lineFeed_not_mem, hkeyword, hoperands.lineFeed_not_mem,
      hgap.2.lineFeed_not_mem, by decide, htemplate, by decide, htrailer.lineFeed_not_mem⟩

theorem SilentLine.lineFeed_not_mem {line : List Char} (h : SilentLine line) : '\n' ∉ line := by
  cases h with
  | space htext => exact htext.lineFeed_not_mem
  | comment hindent htext =>
    exact not_mem_comment (by decide) hindent.lineFeed_not_mem htext

theorem SilentLine.isBlankLine {line : List Char} (h : SilentLine line) :
    Program.isBlankLine line := by
  cases h with
  | space htext => simp [Program.isBlankLine, lex_eq_nil_of_blanks htext.isBlank]
  | comment hindent _ =>
    simp [Program.isBlankLine, lex_blanks hindent.isBlank, lex_comment, Token.isComment]

open Program

/-- A line is split off with its end, up to a carriage return that makes no token. -/
theorem lines_append {line lineEnd : List Char} (hline : '\n' ∉ line) (hend : LineEnd lineEnd)
    (rest : List Char) :
    ∃ front, Text.lines (line ++ (lineEnd ++ rest)) = front :: Text.lines rest ∧
      Token.lex front = Token.lex line := by
  have hblank : ∀ c ∈ ['\r'], Text.isBlank c := List.all_eq_true.mp (by decide)
  cases hend with
  | lineFeed =>
    obtain ⟨front, hlines, rfl | rfl⟩ := Text.lines_lineFeed hline rest
    · exact ⟨line, hlines, rfl⟩
    · exact ⟨front, hlines, (Token.lex_append_blanks hblank front).symm⟩
  | returnLineFeed =>
    have hreturn : '\n' ∉ line ++ ['\r'] := by simp [hline]
    obtain ⟨front, hlines, hfront⟩ := Text.lines_lineFeed hreturn rest
    rw [List.append_assoc] at hlines
    refine ⟨front, hlines, ?_⟩
    rcases hfront with rfl | hfront
    · exact Token.lex_append_blanks hblank line
    · rw [List.append_cancel_right hfront]

theorem statementOf_congr {line front : List Char} (h : Token.lex front = Token.lex line) :
    statementOf front = statementOf line := by
  rw [statementOf, statementOf, h]

theorem Body.instructionsOf {instructions : List Instruction} {text : List Char}
    (h : Body instructions text) (number : Nat) :
    Program.instructionsOf number (Text.lines text) = .ok instructions := by
  induction h generalizing number with
  | nil => rfl
  | finish hline hend rest =>
    obtain ⟨front, hlines, hlex⟩ := lines_append hline.lineFeed_not_mem hend rest
    rw [hlines, instructionsOf_cons, statementOf_congr hlex, hline.statementOf]
  | silent hline hend hrest ih =>
    obtain ⟨front, hlines, hlex⟩ := lines_append hline.lineFeed_not_mem hend _
    rw [hlines, instructionsOf_cons, statementOf_congr hlex,
      statementOf_of_blank hline.isBlankLine]
    exact ih (number + 1)
  | instruction hline hend hrest ih =>
    obtain ⟨front, hlines, hlex⟩ := lines_append hline.lineFeed_not_mem hend _
    rw [hlines, instructionsOf_cons, statementOf_congr hlex, hline.statementOf,
      ih (number + 1)]
    rfl

theorem Source.ofLines {p : Program} {text : List Char} (h : Source p text) (number : Nat) :
    Program.ofLines number (Text.lines text) = .ok p := by
  induction h generalizing number with
  | silent hline hend hrest ih =>
    obtain ⟨front, hlines, hlex⟩ := lines_append hline.lineFeed_not_mem hend _
    have hblank : isBlankLine front := by
      rw [isBlankLine, hlex]
      exact hline.isBlankLine
    rw [hlines, ofLines_cons, if_pos hblank]
    exact ih (number + 1)
  | origin hline hend hbody =>
    obtain ⟨front, hlines, hlex⟩ := lines_append hline.lineFeed_not_mem hend _
    have hstatement := (statementOf_congr hlex).trans hline.statementOf
    have horigin : opensWith .origin front := opensWith_of_statementOf hstatement
    rw [hlines, ofLines_cons, isBlankLine_of_opensWith horigin, horigin, hstatement,
      hbody.instructionsOf (number + 1)]
    rfl

/-- Source in any layout is read as the program that it was written for. -/
theorem parse_source_in_any_layout (p : Program) (text : List Char) (h : Source p text) :
    parse (String.ofList text) = .ok p := by
  rw [parse, String.toList_ofList]
  exact h.ofLines 1

/-- A source with leading blanks and zeros, comments, quotes in a comment and in a template,
both line ends, and more after its end. -/
def oddSource : String :=
  "\t// start\r\n org 007 // \"q\"\n\r\nprint  2 \"say \"hi\"\" \r\nload -1.5e1\t3\nend\n?"

def oddProgram : Program :=
  ⟨7, [.print 2 ⟨"say \"hi\""⟩, .load ⟨0xC02E000000000000⟩ 3]⟩

theorem parse_oddSource :
    Source oddProgram oddSource.toList ∧
      parse (String.ofList oddSource.toList) = .ok oddProgram := by
  have hstart : SilentLine (['\t'] ++ '/' :: '/' :: " start".toList) :=
    .comment (by decide) (by decide)
  have horigin : StatementLine (.origin 7)
      ([' '] ++ ("org".toList ++ (([' '] ++ (Literal.decimalDigits 2 7 ++ [])) ++
        ([' '] ++ '/' :: '/' :: " \"q\"".toList)))) :=
    .plain (by decide) (.cons (by decide) (.address 2 (by decide)) .nil)
      (.comment (by decide) (by decide) (by decide))
  have hprint : StatementLine (.instruction (.print 2 ⟨"say \"hi\""⟩))
      ([] ++ ("print".toList ++ (([' ', ' '] ++ (Literal.decimalDigits 0 2 ++ [])) ++
        ([' '] ++ '"' :: ("say \"hi\"".toList ++ '"' :: [' ']))))) :=
    .withTemplate (by rfl) (by decide) (.cons (by decide) (.register 0 (by decide)) .nil)
      (by decide) (by decide) (.space (by decide))
  have hvalue : Literal.number? (String.ofList "-1.5e1".toList) = some ⟨0xC02E000000000000⟩ := by
    decide +kernel
  have hload : StatementLine (.instruction (.load ⟨0xC02E000000000000⟩ 3))
      ([] ++ ("load".toList ++ (([' '] ++ ("-1.5e1".toList ++
        (['\t'] ++ (Literal.decimalDigits 0 3 ++ [])))) ++ []))) :=
    .plain (by decide)
      (.cons (by decide) (.number (by decide) hvalue)
        (.cons (by decide) (.register 0 (by decide)) .nil))
      (.space (by decide))
  have hfinish : StatementLine .finish ([] ++ ("end".toList ++ ([] ++ []))) :=
    .plain (by decide) .nil (.space (by decide))
  have hbody : Body oddProgram.instructions _ :=
    .silent (.space (show Space [] by decide)) .returnLineFeed
      (.instruction hprint .returnLineFeed
        (.instruction hload .lineFeed (.finish hfinish .lineFeed ['?'])))
  have hsource : Source oddProgram _ :=
    .silent hstart .returnLineFeed (.origin horigin .lineFeed hbody)
  have hodd : Source oddProgram oddSource.toList :=
    (congrArg (Source oddProgram) (by decide +kernel)).mpr hsource
  exact ⟨hodd, parse_source_in_any_layout oddProgram oddSource.toList hodd⟩

end Layout

end StoredProgram
