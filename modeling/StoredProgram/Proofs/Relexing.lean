import StoredProgram.Proofs.Layout
import StoredProgram.Proofs.Margins
import StoredProgram.Proofs.Tiling

/-!
Lines put together again from their tokens. If the tokens of a line are written one after
another, with any blanks between them, the lexer finds the same tokens: what was quoted, open
or a comment is so again. So a line has a normal form, with one space between its tokens,
which is read the same way, and so is a source all of whose lines are in this form.
-/
namespace StoredProgram

namespace Token

/-- Blanks that keep two tokens apart. -/
def Separator (gap : List Char) : Prop := gap ≠ [] ∧ ∀ c ∈ gap, Text.isBlank c

/-- Tokens that are written after another one, each after a separator. -/
inductive Trailing : List Token → List Char → Prop
  | nil : Trailing [] []
  | cons {token : Token} {tokens : List Token} {gap rest : List Char} (hgap : Separator gap)
      (hrest : Trailing tokens rest) :
      Trailing (token :: tokens) (gap ++ (token.display.toList ++ rest))

/-- Tokens that are written one after another, with separators between them. -/
inductive Joined : List Token → List Char → Prop
  | nil : Joined [] []
  | cons {token : Token} {tokens : List Token} {rest : List Char}
      (hrest : Trailing tokens rest) :
      Joined (token :: tokens) (token.display.toList ++ rest)

/-- The tokens of a line with one space between them. -/
def normalized (line : List Char) : List Char :=
  [' '].intercalate ((lex line).map fun token => token.display.toList)

theorem separator_space : Separator [' '] := ⟨by simp, List.all_eq_true.mp (by decide)⟩

theorem Separator.boundary {gap : List Char} (h : Separator gap) (rest : List Char) :
    Boundary (gap ++ rest) := by
  obtain ⟨hne, hblank⟩ := h
  obtain ⟨c, more, rfl⟩ := List.exists_cons_of_ne_nil hne
  exact boundary_of_blank_head ⟨c, rfl, hblank c List.mem_cons_self⟩

theorem Trailing.boundary {tokens : List Token} {rest : List Char} (h : Trailing tokens rest) :
    Boundary rest := by
  cases h with
  | nil => simp [Boundary]
  | cons hgap _ => exact hgap.boundary _

theorem Trailing.quote_not_mem {tokens : List Token} {rest : List Char}
    (h : Trailing tokens rest) (htokens : ∀ token ∈ tokens, '"' ∉ token.display.toList) :
    '"' ∉ rest := by
  induction h with
  | nil => simp
  | cons hgap hrest ih =>
    obtain ⟨hfirst, hothers⟩ := List.forall_mem_cons.mp htokens
    simp only [List.mem_append, not_or]
    exact ⟨quote_not_mem_of_isBlank hgap.2, hfirst, ih hothers⟩

theorem Trailing.lex {tokens : List Token} {rest : List Char} (h : Trailing tokens rest)
    (hjoined : ∀ text, Joined tokens text → lex text = tokens) : lex rest = tokens := by
  cases h with
  | nil => rw [Token.lex]
  | cons hgap hrest => rw [lex_blanks hgap.2, hjoined _ (.cons hrest)]

/-- What a token shows is on its line. -/
theorem display_subset {line : List Char} {token : Token} (h : token ∈ lex line) :
    token.display.toList ⊆ line := by
  obtain ⟨t, rfl, htokens, -⟩ := exists_tiling (Resumes.start line)
  rw [← htokens] at h
  obtain ⟨tile, htile, rfl⟩ := List.mem_map.mp h
  intro c hc
  exact List.mem_append_left _ (Tiling.display_subset_flatMap htile hc)

theorem lex_trimEnd (front line : List Char) :
    lex (front ++ Text.trimEnd line) = lex (front ++ line) := by
  obtain ⟨blanks, hline, hblanks, -⟩ := Text.exists_trimEnd line
  calc
    lex (front ++ Text.trimEnd line) = lex (front ++ Text.trimEnd line ++ blanks) :=
      (lex_append_blanks hblanks _).symm
    _ = lex (front ++ line) := by rw [List.append_assoc, ← hline]

/-- The lexer finds the tokens of a line again, whatever blanks are between them. -/
theorem lex_joined {line text : List Char} (h : Joined (lex line) text) : lex text = lex line := by
  fun_induction lex line generalizing text with
  | case1 =>
    cases h with
    | nil => rw [lex]
  | case2 c rest hblank ih => exact ih h
  | case3 rest content after hsplit hblank ih =>
    cases h with
    | @cons _ _ tail htail =>
      have hafter := not_mem_of_splitAtLastQuote? hsplit
      have hquote : '"' ∉ tail := htail.quote_not_mem fun token htoken hmem =>
        hafter (display_subset htoken hmem)
      have hlex := lex_text hquote content
      rw [htail.lex fun _ => ih] at hlex
      simpa [display] using hlex
  | case4 rest hsplit hblank =>
    cases h with
    | cons htail =>
      cases htail with
      | nil =>
        have hlex := lex_trimEnd [] ('"' :: rest)
        rw [List.nil_append, List.nil_append,
          lex_unclosed ((splitAtLastQuote?_eq_none_iff rest).mp hsplit)] at hlex
        simpa [display] using hlex
  | case5 c rest hblank hquote hcomment =>
    obtain ⟨more, rfl, rfl⟩ := eq_slash_of_isPrefixOf hcomment
    cases h with
    | cons htail =>
      cases htail with
      | nil =>
        have hlex := lex_trimEnd ['/', '/'] more
        simpa [display, lex_comment] using hlex
  | case6 c rest hblank hquote hcomment ih =>
    obtain ⟨run, after, rfl, hrun⟩ := Run.exists_run isWordChar rest
    rw [hrun.takeWhile_append] at hcomment h ⊢
    rw [hrun.dropWhile_append] at ih h ⊢
    cases h with
    | @cons _ _ tail htail =>
      have hc : isWordChar c := by simp [isWordChar, hblank, hquote]
      have hword := lex_word (List.cons_ne_nil c run)
        (List.forall_mem_cons.mpr ⟨hc, hrun.all⟩) (Bool.eq_false_iff.mpr hcomment) htail.boundary
      rw [htail.lex fun _ => ih] at hword
      rwa [display_ofWord, String.toList_ofList]

theorem joined_intercalate {gap : List Char} (hgap : Separator gap) (tokens : List Token) :
    Joined tokens (gap.intercalate (tokens.map fun token => token.display.toList)) := by
  induction tokens with
  | nil => exact Joined.nil
  | cons token rest ih =>
    cases rest with
    | nil =>
      rw [List.map_singleton, List.intercalate_singleton, ← List.append_nil token.display.toList]
      exact Joined.cons Trailing.nil
    | cons next more =>
      rw [List.map_cons] at ih
      rw [List.map_cons, List.map_cons, List.intercalate_cons_cons, List.append_assoc]
      generalize gap.intercalate (_ :: more.map _) = text at ih ⊢
      cases ih with
      | cons hrest => exact Joined.cons (Trailing.cons hgap hrest)

theorem joined_normalized (line : List Char) : Joined (lex line) (normalized line) :=
  joined_intercalate separator_space (lex line)

theorem mem_of_mem_intercalate {gap : List Char} {texts : List (List Char)} {c : Char}
    (h : c ∈ gap.intercalate texts) : c ∈ gap ∨ ∃ text ∈ texts, c ∈ text := by
  induction texts with
  | nil => simp at h
  | cons text rest ih =>
    cases rest with
    | nil => exact Or.inr ⟨text, List.mem_cons_self, by simpa using h⟩
    | cons next more =>
      simp only [List.intercalate_cons_cons, List.mem_append] at h
      rcases h with (hfirst | hgap) | hrest
      · exact Or.inr ⟨text, List.mem_cons_self, hfirst⟩
      · exact Or.inl hgap
      · rcases ih hrest with hgap | ⟨other, hother, hc⟩
        · exact Or.inl hgap
        · exact Or.inr ⟨other, List.mem_cons_of_mem _ hother, hc⟩

theorem lineFeed_not_mem_normalized {line : List Char} (h : '\n' ∉ line) :
    '\n' ∉ normalized line := by
  intro hmem
  rcases mem_of_mem_intercalate hmem with hgap | ⟨text, htext, hc⟩
  · simp at hgap
  · obtain ⟨token, htoken, rfl⟩ := List.mem_map.mp htext
    exact h (display_subset htoken hc)

end Token

theorem Text.lineFeed_not_mem_of_mem_lines {text line : List Char} (h : line ∈ lines text) :
    '\n' ∉ line := by
  induction text generalizing line with
  | nil => simp [lines] at h
  | cons c rest ih =>
    by_cases hfeed : c = '\n'
    · subst hfeed
      rw [lines_lineFeed_cons, List.mem_cons] at h
      rcases h with rfl | hrest
      · simp
      · exact ih hrest
    · by_cases hreturn : c = '\r' ∧ rest.head? = some '\n'
      · obtain ⟨rfl, hhead⟩ := hreturn
        rw [lines_return_cons hhead] at h
        exact ih h
      · rw [lines_cons hfeed hreturn] at h
        cases hlines : lines rest with
        | nil =>
          rw [hlines, extendFirst, List.mem_singleton] at h
          simpa [h] using Ne.symm hfeed
        | cons first more =>
          rw [hlines, extendFirst, List.mem_cons] at h
          rcases h with rfl | hmore
          · have hfirst := ih (hlines ▸ List.mem_cons_self)
            simpa [hfirst] using Ne.symm hfeed
          · exact ih (hlines ▸ List.mem_cons_of_mem _ hmore)

namespace Program

/-- The source with each line in its normal form. -/
def normalizedSource (source : String) : String :=
  String.ofList ((Text.lines source.toList).flatMap fun line => Token.normalized line ++ ['\n'])

theorem map_lex_lines {texts : List (List Char)} (h : ∀ text ∈ texts, '\n' ∉ text) :
    (Text.lines (texts.flatMap fun text => text ++ ['\n'])).map Token.lex =
      texts.map Token.lex := by
  induction texts with
  | nil => rfl
  | cons text rest ih =>
    obtain ⟨htext, hrest⟩ := List.forall_mem_cons.mp h
    obtain ⟨front, hlines, hlex⟩ := Layout.lines_append htext Layout.LineEnd.lineFeed
      (rest.flatMap fun text => text ++ ['\n'])
    rw [List.flatMap_cons, List.append_assoc, hlines, List.map_cons, List.map_cons, hlex, ih hrest]

theorem parse_normalizedSource (source : String) :
    parse (normalizedSource source) = parse source := by
  have hfeed : ∀ text ∈ (Text.lines source.toList).map Token.normalized, '\n' ∉ text := by
    intro text htext
    obtain ⟨line, hline, rfl⟩ := List.mem_map.mp htext
    exact Token.lineFeed_not_mem_normalized (Text.lineFeed_not_mem_of_mem_lines hline)
  have hlex := map_lex_lines hfeed
  rw [List.flatMap_map, List.map_map] at hlex
  rw [parse, parse, normalizedSource, String.toList_ofList]
  refine ofLines_congr (hlex.trans ?_) 1
  exact List.map_congr_left fun line _ => Token.lex_joined (Token.joined_normalized line)

end Program

namespace Token

theorem normalized_of_joined {line text : List Char} (h : Joined (lex line) text) :
    normalized text = normalized line := by
  rw [normalized, lex_joined h, normalized]

/-- Whatever blanks are put between the tokens of a line, the lexer finds these tokens again,
and the line keeps its statement. In particular one space will do, and the form with
single spaces is its own. A source whose lines are brought into this form is read the same
way as before. -/
theorem relexing_is_stable (line : List Char) :
    (∀ text, Joined (lex line) text →
      lex text = lex line ∧ Program.statementOf text = Program.statementOf line) ∧
    (∀ gap, Separator gap →
      Joined (lex line) (gap.intercalate ((lex line).map fun token => token.display.toList))) ∧
    normalized (normalized line) = normalized line ∧
    Program.statementOf (normalized line) = Program.statementOf line ∧
    ∀ source : String, Program.parse (Program.normalizedSource source) = Program.parse source := by
  have hkept : ∀ text, Joined (lex line) text →
      lex text = lex line ∧ Program.statementOf text = Program.statementOf line := by
    intro text htext
    have hlex := lex_joined htext
    exact ⟨hlex, by rw [Program.statementOf, hlex, Program.statementOf]⟩
  exact ⟨hkept, fun gap hgap => joined_intercalate hgap (lex line),
    normalized_of_joined (joined_normalized line), (hkept _ (joined_normalized line)).2,
    Program.parse_normalizedSource⟩

/-- Blanks of other sorts, where there were none and where there were some. -/
theorem relexing_of_mixedLine_and_openLine :
    (Joined (lex mixedLine) "print\n\"a\"b\"\t x //c".toList ∧
      lex "print\n\"a\"b\"\t x //c".toList =
        [.keyword .print, .text "a\"b", .unknown "x", .comment "c"]) ∧
    normalized openLine = "put \"oops".toList ∧
      lex "put \"oops".toList = [.keyword .put, .unknown "\"oops"] := by
  have hmixed : lex mixedLine = [.keyword .print, .text "a\"b", .unknown "x", .comment "c"] := by
    decide +kernel
  have hopen : lex openLine = [.keyword .put, .unknown "\"oops"] := by decide +kernel
  have hblank : ∀ gap : List Char, gap ≠ [] → gap.all Text.isBlank → Separator gap :=
    fun gap hne hall => ⟨hne, List.all_eq_true.mp hall⟩
  have hjoined : Joined (lex mixedLine) "print\n\"a\"b\"\t x //c".toList := by
    have hspaced : Joined [.keyword .print, .text "a\"b", .unknown "x", .comment "c"] _ :=
      .cons (.cons (hblank ['\n'] (by simp) (by decide))
        (.cons (hblank ['\t', ' '] (by simp) (by decide)) (.cons separator_space .nil)))
    rw [hmixed]
    exact (congrArg (Joined _) (by decide +kernel)).mpr hspaced
  have hnormal : normalized openLine = "put \"oops".toList := by decide +kernel
  obtain ⟨hstable, -⟩ := relexing_is_stable mixedLine
  obtain ⟨hstable', hspaced, -⟩ := relexing_is_stable openLine
  refine ⟨⟨hjoined, (hstable _ hjoined).1.trans hmixed⟩, hnormal, ?_⟩
  have hopen' := (hstable' _ (hspaced [' '] separator_space)).1
  rw [← hnormal, ← hopen]
  exact hopen'

end Token

end StoredProgram
