import Mathlib.Data.List.TakeWhile
import StoredProgram.Text.Lines
import StoredProgram.Token.Lexer

/-!
Equations of the lexer for each thing that can stand at the start of a line, and of the
splitting into lines. Blanks around a line make no token, so that a carriage return
before the line feed does not either.
-/
namespace StoredProgram

theorem splitAtLastQuote?_eq_none_iff (text : List Char) :
    splitAtLastQuote? text = none ↔ '"' ∉ text := by
  induction text with
  | nil => simp [splitAtLastQuote?]
  | cons c rest ih =>
    rw [List.mem_cons, not_or, ← ih, splitAtLastQuote?]
    cases splitAtLastQuote? rest with
    | none => simp [eq_comm]
    | some parts => simp

theorem splitAtLastQuote?_append {after : List Char} (h : '"' ∉ after) (before : List Char) :
    splitAtLastQuote? (before ++ '"' :: after) = some (before, after) := by
  induction before with
  | nil => simp [splitAtLastQuote?, (splitAtLastQuote?_eq_none_iff after).mpr h]
  | cons c rest ih => simp [splitAtLastQuote?, ih]

theorem not_mem_of_splitAtLastQuote? {text before after : List Char}
    (h : splitAtLastQuote? text = some (before, after)) : '"' ∉ after := by
  induction text generalizing before with
  | nil => simp [splitAtLastQuote?] at h
  | cons c rest ih =>
    unfold splitAtLastQuote? at h
    split at h
    · next front back hrest =>
      obtain ⟨-, rfl⟩ : c :: front = before ∧ back = after := by simpa using h
      exact ih hrest
    · next hnone =>
      by_cases hc : c = '"'
      · obtain ⟨-, rfl⟩ : [] = before ∧ rest = after := by simpa [hc] using h
        exact (splitAtLastQuote?_eq_none_iff rest).mp hnone
      · simp [hc] at h

namespace Text

theorem trimEnd_append {blanks : List Char} (h : ∀ c ∈ blanks, isBlank c) (text : List Char) :
    trimEnd (text ++ blanks) = trimEnd text := by
  have hreverse : ∀ c ∈ blanks.reverse, isBlank c := by simpa using h
  simp only [trimEnd, dropEndWhile, List.reverse_append, List.dropWhile_append_of_pos hreverse]

end Text

namespace Token

/-- A word ends where a text is over or goes on with a blank or a quote. -/
def Boundary (text : List Char) : Prop := ∀ c ∈ text.head?, isWordChar c = false

theorem isWordChar_of_isBlank {c : Char} (h : Text.isBlank c) : isWordChar c = false := by
  simp [isWordChar, h]

theorem boundary_of_blanks {blanks : List Char} (h : ∀ c ∈ blanks, Text.isBlank c) :
    Boundary blanks := by
  intro c hc
  exact isWordChar_of_isBlank (h c (List.mem_of_head? hc))

theorem boundary_of_blank_head {text : List Char} (h : ∃ c ∈ text.head?, Text.isBlank c) :
    Boundary text := by
  obtain ⟨c, hc, hblank⟩ := h
  intro d hd
  obtain rfl : c = d := Option.mem_unique hc hd
  exact isWordChar_of_isBlank hblank

theorem takeWhile_append_boundary {rest : List Char} (hrest : Boundary rest) (word : List Char) :
    (word ++ rest).takeWhile isWordChar = word.takeWhile isWordChar := by
  induction word with
  | nil =>
    cases rest with
    | nil => rfl
    | cons c more => simp [hrest c rfl]
  | cons c more ih => simp only [List.cons_append, List.takeWhile_cons, ih]

theorem dropWhile_append_boundary {rest : List Char} (hrest : Boundary rest) (word : List Char) :
    (word ++ rest).dropWhile isWordChar = word.dropWhile isWordChar ++ rest := by
  induction word with
  | nil =>
    cases rest with
    | nil => rfl
    | cons c more => simp [hrest c rfl]
  | cons c more ih =>
    simp only [List.cons_append, List.dropWhile_cons, ih]
    split
    · rfl
    · rfl

theorem lex_blank {c : Char} (h : Text.isBlank c) (rest : List Char) :
    lex (c :: rest) = lex rest := by
  rw [lex, if_pos h]

theorem lex_blanks {blanks : List Char} (h : ∀ c ∈ blanks, Text.isBlank c) (rest : List Char) :
    lex (blanks ++ rest) = lex rest := by
  induction blanks with
  | nil => rfl
  | cons c more ih =>
    rw [List.cons_append, lex_blank (h c List.mem_cons_self)]
    exact ih fun d hd => h d (List.mem_cons_of_mem _ hd)

theorem lex_eq_nil_of_blanks {blanks : List Char} (h : ∀ c ∈ blanks, Text.isBlank c) :
    lex blanks = [] := by
  simpa [lex] using lex_blanks h []

theorem lex_text {after : List Char} (h : '"' ∉ after) (content : List Char) :
    lex ('"' :: (content ++ '"' :: after)) = text (String.ofList content) :: lex after := by
  rw [lex, if_neg (by decide), if_pos rfl]
  split
  · next found rest hsplit =>
    rw [splitAtLastQuote?_append h] at hsplit
    obtain ⟨rfl, rfl⟩ := Prod.mk.inj (Option.some.inj hsplit)
    rfl
  · next hsplit => simp [splitAtLastQuote?_append h] at hsplit

theorem lex_unclosed {rest : List Char} (h : '"' ∉ rest) :
    lex ('"' :: rest) = [unknown (String.ofList (Text.trimEnd ('"' :: rest)))] := by
  have hnone := (splitAtLastQuote?_eq_none_iff rest).mpr h
  rw [lex, if_neg (by decide), if_pos rfl]
  split
  · next content after hsplit => simp [hnone] at hsplit
  · rfl

theorem eq_slash_of_isPrefixOf {c : Char} {rest : List Char}
    (h : ['/', '/'].isPrefixOf (c :: rest.takeWhile isWordChar)) :
    ∃ more, c = '/' ∧ rest = '/' :: more := by
  cases rest with
  | nil => simp at h
  | cons d more =>
    rw [List.takeWhile_cons] at h
    split at h
    · obtain ⟨rfl, rfl⟩ : '/' = c ∧ '/' = d := by simpa using h
      exact ⟨more, rfl, rfl⟩
    · simp at h

theorem lex_comment (rest : List Char) :
    lex ('/' :: '/' :: rest) = [comment (String.ofList (Text.trimEnd rest))] := by
  have hslash : isWordChar '/' = true := by decide
  rw [lex, if_neg (by decide), if_neg (by decide), if_pos (by simp [hslash])]
  rfl

theorem lex_word {word rest : List Char} (hne : word ≠ []) (hword : ∀ c ∈ word, isWordChar c)
    (hcomment : ['/', '/'].isPrefixOf word = false) (hrest : Boundary rest) :
    lex (word ++ rest) = ofWord (String.ofList word) :: lex rest := by
  cases word with
  | nil => exact absurd rfl hne
  | cons c more =>
    have hc : isWordChar c := hword c List.mem_cons_self
    have hmore : ∀ d ∈ more, isWordChar d := fun d hd => hword d (List.mem_cons_of_mem _ hd)
    obtain ⟨hblank, hquote⟩ : Text.isBlank c = false ∧ c ≠ '"' := by simpa [isWordChar] using hc
    have htake : (more ++ rest).takeWhile isWordChar = more := by
      rw [takeWhile_append_boundary hrest, List.takeWhile_eq_self_iff.mpr hmore]
    have hdrop : (more ++ rest).dropWhile isWordChar = rest := by
      rw [dropWhile_append_boundary hrest, List.dropWhile_eq_nil_iff.mpr hmore, List.nil_append]
    rw [List.cons_append, lex, if_neg (by simp [hblank]), if_neg hquote, htake, hdrop,
      if_neg (by simp [hcomment])]

/-- Blanks at the end of a line make no difference. -/
theorem lex_append_blanks {blanks : List Char} (h : ∀ c ∈ blanks, Text.isBlank c)
    (line : List Char) : lex (line ++ blanks) = lex line := by
  have hboundary : Boundary blanks := boundary_of_blanks h
  have hquotes : '"' ∉ blanks := by
    intro hmem
    exact absurd (h '"' hmem) (by decide)
  fun_induction lex line with
  | case1 => exact lex_eq_nil_of_blanks h
  | case2 c rest hblank ih => rw [List.cons_append, lex_blank hblank, ih]
  | case3 rest content after hsplit hblank ih =>
    have hafter : '"' ∉ after ++ blanks := by
      simp [not_mem_of_splitAtLastQuote? hsplit, hquotes]
    rw [eq_of_splitAtLastQuote? hsplit, List.cons_append, List.append_assoc, List.cons_append,
      lex_text hafter, ih]
  | case4 rest hsplit hblank =>
    have hrest : '"' ∉ rest ++ blanks := by
      simp [(splitAtLastQuote?_eq_none_iff rest).mp hsplit, hquotes]
    rw [List.cons_append, lex_unclosed hrest, ← List.cons_append, Text.trimEnd_append h]
  | case5 c rest hblank hquote hcomment =>
    obtain ⟨more, rfl, rfl⟩ := eq_slash_of_isPrefixOf hcomment
    rw [List.cons_append, List.cons_append, lex_comment, Text.trimEnd_append h]
    rfl
  | case6 c rest hblank hquote hcomment ih =>
    rw [List.cons_append, lex, if_neg hblank, if_neg hquote, takeWhile_append_boundary hboundary,
      dropWhile_append_boundary hboundary, if_neg hcomment, ih]

end Token

/-- A line feed ends the line before it, which loses a carriage return at its end. -/
theorem Text.lines_lineFeed {line : List Char} (h : '\n' ∉ line) (rest : List Char) :
    ∃ front, lines (line ++ '\n' :: rest) = front :: lines rest ∧
      (line = front ∨ line = front ++ ['\r']) := by
  induction line with
  | nil => exact ⟨[], by simp [lines], Or.inl rfl⟩
  | cons c more ih =>
    rw [List.mem_cons, not_or] at h
    obtain ⟨front, hlines, hfront⟩ := ih h.2
    rw [List.cons_append, lines, if_neg (Ne.symm h.1)]
    by_cases hreturn : c = '\r' ∧ (more ++ '\n' :: rest).head? = some '\n'
    · -- nothing but the line feed can follow, as the line itself has none
      obtain ⟨rfl, hhead⟩ := hreturn
      have hmore : more = [] := by
        cases more with
        | nil => rfl
        | cons d others =>
          have hd : d = '\n' := by simpa using hhead
          simp [hd] at h
      subst hmore
      exact ⟨[], by simp [lines], Or.inr rfl⟩
    · rw [if_neg hreturn, hlines]
      refine ⟨c :: front, rfl, ?_⟩
      rcases hfront with rfl | rfl
      · exact Or.inl rfl
      · exact Or.inr rfl

/-- The last line may lack its line feed. -/
theorem Text.lines_append_lineFeed {text : List Char} (hne : text ≠ [])
    (h : ∀ c ∈ text.getLast?, c ≠ '\n' ∧ c ≠ '\r') : lines (text ++ ['\n']) = lines text := by
  induction text with
  | nil => exact absurd rfl hne
  | cons c more ih =>
    cases more with
    | nil =>
      obtain ⟨hfeed, hreturn⟩ := h c rfl
      simp [lines, hfeed, hreturn]
    | cons d others =>
      rw [List.getLast?_cons_cons] at h
      have hrest := ih (by simp) h
      rw [List.cons_append, lines, hrest]
      rfl

end StoredProgram
