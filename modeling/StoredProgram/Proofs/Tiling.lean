import StoredProgram.Proofs.Lexing
import StoredProgram.Proofs.Splitting

/-!
How the tokens of a line lie on it. Their texts stand one after another with blanks and
nothing else around them, so that a line can be put together again from its tokens. A word
is as long as it can be. Before a comment at most one token has quotes: it goes from the
first quote of the line to the last, or, if there is just one quote, on to the end of the
line. A comment goes on to the end of the line as well.
-/
namespace StoredProgram

/-- Trimming takes off the blanks at the end, and all of them. -/
theorem Text.exists_trimEnd (text : List Char) :
    ∃ blanks, text = trimEnd text ++ blanks ∧ (∀ c ∈ blanks, isBlank c) ∧
      ∀ c ∈ (trimEnd text).getLast?, isBlank c = false := by
  obtain ⟨run, rest, htext, hrun⟩ := Run.exists_run isBlank text.reverse
  have htrim : trimEnd text = rest.reverse := by
    rw [trimEnd, dropEndWhile, htext, hrun.dropWhile_append]
  refine ⟨run.reverse, ?_, ?_, ?_⟩
  · rw [htrim, ← List.reverse_append, ← htext, List.reverse_reverse]
  · intro c hc
    exact hrun.all c (List.mem_reverse.mp hc)
  · intro c hc
    rw [htrim, List.getLast?_reverse] at hc
    exact hrun.stops c hc

namespace Token

/-- Where a token can stand on a line, between what is to its left and to its right. -/
inductive Stands (left : List Char) : Token → List Char → Prop
  | word {word right : List Char} (hne : word ≠ []) (hword : Run isWordChar word right)
      (hslashes : ['/', '/'].isPrefixOf word = false)
      (hleft : ∀ c ∈ left.getLast?, isWordChar c = false) :
      Stands left (ofWord (String.ofList word)) right
  | text {content right : List Char} (hleft : '"' ∉ left) (hright : '"' ∉ right) :
      Stands left (.text (String.ofList content)) right
  | unclosed {content right : List Char} (hleft : '"' ∉ left) (hcontent : '"' ∉ content)
      (hright : ∀ c ∈ right, Text.isBlank c)
      (hlast : ∀ c ∈ ('"' :: content).getLast?, Text.isBlank c = false) :
      Stands left (.unknown (String.ofList ('"' :: content))) right
  | comment {content right : List Char} (hright : ∀ c ∈ right, Text.isBlank c)
      (hlast : ∀ c ∈ content.getLast?, Text.isBlank c = false) :
      Stands left (.comment (String.ofList content)) right

/-- A token with quotes that is not a comment. -/
def isQuoted (token : Token) : Bool := !token.isComment && token.display.toList.contains '"'

theorem display_ofWord (word : String) : (ofWord word).display = word := by
  unfold ofWord
  split
  · exact Keyword.spelling_of_find? ‹_›
  · split <;> rfl

theorem isComment_ofWord (word : String) : (ofWord word).isComment = false := by
  unfold ofWord
  split
  · rfl
  · split <;> rfl

theorem quote_not_mem_of_isBlank {blanks : List Char} (h : ∀ c ∈ blanks, Text.isBlank c) :
    '"' ∉ blanks :=
  fun hmem => absurd (h '"' hmem) (by decide)

theorem quote_not_mem_of_isWordChar {word : List Char} (h : ∀ c ∈ word, isWordChar c) :
    '"' ∉ word :=
  fun hmem => absurd (h '"' hmem) (by decide)

namespace Stands

variable {left right : List Char} {token : Token}

theorem exists_not_blank (h : Stands left token right) :
    ∃ c ∈ token.display.toList, Text.isBlank c = false := by
  cases h with
  | @word word _ hne hword _ _ =>
    obtain ⟨c, more, rfl⟩ := List.exists_cons_of_ne_nil hne
    have hc : isWordChar c := hword.all c List.mem_cons_self
    refine ⟨c, by simp [display_ofWord], ?_⟩
    simp only [isWordChar, Bool.and_eq_true, Bool.not_eq_true'] at hc
    exact hc.1
  | text => exact ⟨'"', by simp [display], by decide⟩
  | unclosed => exact ⟨'"', by simp [display], by decide⟩
  | comment => exact ⟨'/', by simp [display], by decide⟩

/-- All other quotes of a line are in a comment. -/
theorem quote_not_mem (h : Stands left token right) (hquoted : token.isQuoted) :
    '"' ∉ left ∧ '"' ∉ right := by
  cases h with
  | word hne hword =>
    have hnone := quote_not_mem_of_isWordChar hword.all
    simp [isQuoted, display_ofWord, hnone] at hquoted
  | text hleft hright => exact ⟨hleft, hright⟩
  | unclosed hleft _ hright _ => exact ⟨hleft, quote_not_mem_of_isBlank hright⟩
  | comment => simp [isQuoted, isComment] at hquoted

theorem blank_of_comment (h : Stands left token right) (hcomment : token.isComment) :
    ∀ c ∈ right, Text.isBlank c := by
  cases h with
  | word => simp [isComment_ofWord] at hcomment
  | text => simp [isComment] at hcomment
  | unclosed => simp [isComment] at hcomment
  | comment hright => exact hright

theorem blank_of_unclosed {content : String} (h : Stands left (.unknown content) right)
    (hquote : '"' ∈ content.toList) : ∀ c ∈ right, Text.isBlank c := by
  generalize htoken : Token.unknown content = token at h
  cases h with
  | @word word _ _ hword _ _ =>
    have hcontent : content = String.ofList word := by
      rw [← display_ofWord (String.ofList word), ← htoken]
      rfl
    rw [hcontent, String.toList_ofList] at hquote
    exact absurd hquote (quote_not_mem_of_isWordChar hword.all)
  | text => cases htoken
  | unclosed _ _ hright => exact hright
  | comment => cases htoken

end Stands

end Token

/-- A token and the blanks that stand before it. -/
structure Tile where
  gap : List Char
  token : Token
  blank : ∀ c ∈ gap, Text.isBlank c

def Tile.text (t : Tile) : List Char := t.gap ++ t.token.display.toList

/-- Tiles in a row, and blanks after the last of them. -/
structure Tiling where
  tiles : List Tile
  margin : List Char
  blank : ∀ c ∈ margin, Text.isBlank c

namespace Tiling

def text (t : Tiling) : List Char := t.tiles.flatMap Tile.text ++ t.margin

def tokens (t : Tiling) : List Token := t.tiles.map Tile.token

/-- Each token can stand where it does if the line has `left` before the tiles. -/
def Fits (left : List Char) (t : Tiling) : Prop :=
  ∀ before tile after, t.tiles = before ++ tile :: after →
    Token.Stands (left ++ (before.flatMap Tile.text ++ tile.gap)) tile.token
      (after.flatMap Tile.text ++ t.margin)

/-- No tiles, only blanks. -/
def bare (margin : List Char) (h : ∀ c ∈ margin, Text.isBlank c) : Tiling := ⟨[], margin, h⟩

theorem fits_bare (left : List Char) {margin : List Char} (h : ∀ c ∈ margin, Text.isBlank c) :
    (bare margin h).Fits left := by
  intro before tile after hsplit
  simp [bare] at hsplit

/-- The tiling with one more token at its start. -/
def cons (token : Token) (t : Tiling) : Tiling :=
  ⟨⟨[], token, by simp⟩ :: t.tiles, t.margin, t.blank⟩

theorem text_cons (token : Token) (t : Tiling) :
    (t.cons token).text = token.display.toList ++ t.text := by
  simp [cons, text, Tile.text]

theorem Fits.cons {left : List Char} {token : Token} {t : Tiling}
    (hrest : t.Fits (left ++ token.display.toList)) (hfirst : Token.Stands left token t.text) :
    (t.cons token).Fits left := by
  intro before tile after hsplit
  cases before with
  | nil =>
    obtain ⟨rfl, rfl⟩ := List.cons.inj hsplit
    simpa [Tiling.cons, text] using hfirst
  | cons head before =>
    obtain ⟨rfl, htiles⟩ := List.cons.inj hsplit
    simpa [Tiling.cons, Tile.text] using hrest before tile after htiles

/-- The tiling with one more blank at its start. -/
def indent (c : Char) (hc : Text.isBlank c) (t : Tiling) : Tiling :=
  match t.tiles with
  | [] => bare (c :: t.margin) (List.forall_mem_cons.mpr ⟨hc, t.blank⟩)
  | first :: rest =>
    ⟨⟨c :: first.gap, first.token, List.forall_mem_cons.mpr ⟨hc, first.blank⟩⟩ :: rest,
      t.margin, t.blank⟩

theorem text_indent {c : Char} (hc : Text.isBlank c) (t : Tiling) :
    (t.indent c hc).text = c :: t.text := by
  obtain ⟨_ | ⟨first, rest⟩, margin, hmargin⟩ := t
  · rfl
  · simp [indent, text, Tile.text]

theorem tokens_indent {c : Char} (hc : Text.isBlank c) (t : Tiling) :
    (t.indent c hc).tokens = t.tokens := by
  obtain ⟨_ | ⟨first, rest⟩, margin, hmargin⟩ := t
  · rfl
  · rfl

theorem Fits.indent {left : List Char} {c : Char} {t : Tiling} (h : t.Fits (left ++ [c]))
    (hc : Text.isBlank c) : (t.indent c hc).Fits left := by
  obtain ⟨_ | ⟨first, rest⟩, margin, hmargin⟩ := t
  · exact fits_bare left _
  · intro before tile after hsplit
    cases before with
    | nil =>
      obtain ⟨rfl, rfl⟩ := List.cons.inj hsplit
      simpa [Tiling.indent] using h [] first rest rfl
    | cons head before =>
      obtain ⟨rfl, rfl⟩ := List.cons.inj hsplit
      simpa [Tiling.indent, Tile.text] using h (first :: before) tile after rfl

end Tiling

namespace Token

/-- Reading a line can go on after `left`: no word goes across, and not both sides have
quotes. -/
structure Resumes (left line : List Char) : Prop where
  boundary : Boundary line ∨ ∀ c ∈ left.getLast?, isWordChar c = false
  quote : '"' ∉ left ∨ '"' ∉ line

namespace Resumes

variable {left rest : List Char} {c : Char}

theorem start (line : List Char) : Resumes [] line := ⟨Or.inr (by simp), Or.inl (by simp)⟩

theorem blank (h : Resumes left (c :: rest)) (hc : Text.isBlank c) :
    Resumes (left ++ [c]) rest := by
  refine ⟨Or.inr (by simpa using isWordChar_of_isBlank hc), ?_⟩
  rcases h.quote with hleft | hline
  · have hne : '"' ≠ c := by
      rintro rfl
      exact absurd hc (by decide)
    exact Or.inl (by simp [hleft, hne])
  · exact Or.inr fun hmem => hline (List.mem_cons_of_mem c hmem)

theorem text (h : '"' ∉ rest) (before content : List Char) :
    Resumes (before ++ '"' :: (content ++ ['"'])) rest := by
  refine ⟨Or.inr ?_, Or.inr h⟩
  rw [← List.cons_append, ← List.append_assoc, List.getLast?_concat]
  simp [isWordChar]

theorem word {word : List Char} (h : Resumes left (word ++ rest))
    (hword : Run isWordChar word rest) : Resumes (left ++ word) rest := by
  refine ⟨Or.inl hword.stops, ?_⟩
  rcases h.quote with hleft | hline
  · exact Or.inl (by simp [hleft, quote_not_mem_of_isWordChar hword.all])
  · exact Or.inr fun hmem => hline (List.mem_append_right _ hmem)

theorem quote_not_mem (h : Resumes left ('"' :: rest)) : '"' ∉ left := by
  rcases h.quote with hleft | hline
  · exact hleft
  · exact absurd List.mem_cons_self hline

theorem isWordChar_getLast? (h : Resumes left (c :: rest)) (hc : isWordChar c) :
    ∀ d ∈ left.getLast?, isWordChar d = false := by
  rcases h.boundary with hline | hleft
  · have hfalse := hline c rfl
    rw [hc] at hfalse
    cases hfalse
  · exact hleft

end Resumes

/-- A token after which only blanks are left. -/
theorem exists_tiling_of_blanks {left blanks : List Char} {token : Token}
    (hblanks : ∀ c ∈ blanks, Text.isBlank c) (hstands : Stands left token blanks) :
    ∃ t : Tiling, t.text = token.display.toList ++ blanks ∧ t.tokens = [token] ∧ t.Fits left := by
  refine ⟨(Tiling.bare blanks hblanks).cons token, ?_, rfl, ?_⟩
  · rw [Tiling.text_cons]
    rfl
  · exact (Tiling.fits_bare _ hblanks).cons hstands

theorem exists_tiling {left line : List Char} (h : Resumes left line) :
    ∃ t : Tiling, t.text = line ∧ t.tokens = lex line ∧ t.Fits left := by
  fun_induction lex line generalizing left with
  | case1 => exact ⟨Tiling.bare [] (by simp), rfl, rfl, Tiling.fits_bare left _⟩
  | case2 c rest hblank ih =>
    obtain ⟨t, htext, htokens, hfits⟩ := ih (h.blank hblank)
    refine ⟨t.indent c hblank, ?_, ?_, hfits.indent hblank⟩
    · rw [Tiling.text_indent, htext]
    · rw [Tiling.tokens_indent, htokens]
  | case3 rest content after hsplit hblank ih =>
    have hafter := not_mem_of_splitAtLastQuote? hsplit
    have hdisplay : (text (String.ofList content)).display.toList =
        '"' :: (content ++ ['"']) := by
      simp [display]
    obtain ⟨t, htext, htokens, hfits⟩ := ih (Resumes.text hafter left content)
    rw [← hdisplay] at hfits
    refine ⟨t.cons (text (String.ofList content)), ?_, congrArg _ htokens, hfits.cons ?_⟩
    · rw [Tiling.text_cons, htext, hdisplay, eq_of_splitAtLastQuote? hsplit]
      simp
    · rw [htext]
      exact Stands.text h.quote_not_mem hafter
  | case4 rest hsplit hblank =>
    obtain ⟨blanks, hline, hblanks, hlast⟩ := Text.exists_trimEnd ('"' :: rest)
    generalize Text.trimEnd ('"' :: rest) = kept at hline hlast
    cases kept with
    | nil =>
      rw [List.nil_append] at hline
      exact absurd (hblanks '"' (hline ▸ List.mem_cons_self)) (by decide)
    | cons c content =>
      obtain ⟨rfl, rfl⟩ := List.cons.inj hline
      have hcontent : '"' ∉ content := fun hmem =>
        (splitAtLastQuote?_eq_none_iff _).mp hsplit (List.mem_append_left blanks hmem)
      have hstands := Stands.unclosed h.quote_not_mem hcontent hblanks hlast
      obtain ⟨t, htext, htokens, hfits⟩ := exists_tiling_of_blanks hblanks hstands
      exact ⟨t, by simpa [display] using htext, htokens, hfits⟩
  | case5 c rest hblank hquote hcomment =>
    obtain ⟨more, rfl, rfl⟩ := eq_slash_of_isPrefixOf hcomment
    obtain ⟨blanks, hmore, hblanks, hlast⟩ := Text.exists_trimEnd more
    have hstands : Stands left _ blanks := Stands.comment hblanks hlast
    obtain ⟨t, htext, htokens, hfits⟩ := exists_tiling_of_blanks hblanks hstands
    refine ⟨t, ?_, htokens, hfits⟩
    rw [htext]
    simpa [display] using hmore.symm
  | case6 c rest hblank hquote hcomment ih =>
    have hc : isWordChar c := by simp [isWordChar, hblank, hquote]
    obtain ⟨run, after, rfl, hrun⟩ := Run.exists_run isWordChar rest
    rw [hrun.takeWhile_append] at hcomment ⊢
    rw [hrun.dropWhile_append] at ih ⊢
    have hword : Run isWordChar (c :: run) after :=
      ⟨List.forall_mem_cons.mpr ⟨hc, hrun.all⟩, hrun.stops⟩
    have hdisplay : (ofWord (String.ofList (c :: run))).display.toList = c :: run := by
      rw [display_ofWord, String.toList_ofList]
    obtain ⟨t, htext, htokens, hfits⟩ := ih (h.word hword)
    rw [← hdisplay] at hfits
    refine ⟨t.cons (ofWord (String.ofList (c :: run))), ?_, congrArg _ htokens, hfits.cons ?_⟩
    · rw [Tiling.text_cons, htext, hdisplay]
      rfl
    · rw [htext]
      exact Stands.word (List.cons_ne_nil c run) hword (Bool.eq_false_iff.mpr hcomment)
        (h.isWordChar_getLast? hc)

end Token

namespace Tiling

variable {t : Tiling}

theorem display_subset_flatMap {tile : Tile} {tiles : List Tile} (h : tile ∈ tiles) :
    tile.token.display.toList ⊆ tiles.flatMap Tile.text := by
  intro c hc
  exact List.mem_flatMap.mpr ⟨tile, h, List.mem_append_right _ hc⟩

/-- Where only blanks are left there is no further tile. -/
theorem Fits.eq_nil_of_blank {left : List Char} (h : t.Fits left) {before after : List Tile}
    {tile : Tile} (hsplit : t.tiles = before ++ tile :: after)
    (hblank : ∀ c ∈ after.flatMap Tile.text ++ t.margin, Text.isBlank c) : after = [] := by
  cases after with
  | nil => rfl
  | cons next more =>
    have hnext := h (before ++ [tile]) next more (by simp [hsplit])
    obtain ⟨c, hc, hfalse⟩ := hnext.exists_not_blank
    have hmem : c ∈ (next :: more).flatMap Tile.text :=
      display_subset_flatMap List.mem_cons_self hc
    rw [hblank c (List.mem_append_left _ hmem)] at hfalse
    cases hfalse

theorem countP_isQuoted_eq_zero {tiles : List Tile} (h : '"' ∉ tiles.flatMap Tile.text) :
    (tiles.map Tile.token).countP Token.isQuoted = 0 := by
  rw [List.countP_eq_zero]
  intro token htoken
  obtain ⟨tile, htile, rfl⟩ := List.mem_map.mp htoken
  have hnone : '"' ∉ tile.token.display.toList := fun hmem =>
    h (display_subset_flatMap htile hmem)
  simp [Token.isQuoted, hnone]

theorem Fits.countP_isQuoted_le {left : List Char} (h : t.Fits left) :
    t.tokens.countP Token.isQuoted ≤ 1 := by
  by_cases hsome : ∃ tile ∈ t.tiles, tile.token.isQuoted
  · obtain ⟨tile, htile, hquoted⟩ := hsome
    obtain ⟨before, after, hsplit⟩ := List.append_of_mem htile
    obtain ⟨hleft, hright⟩ := (h before tile after hsplit).quote_not_mem hquoted
    simp only [List.mem_append, not_or] at hleft hright
    rw [tokens, hsplit, List.map_append, List.map_cons, List.countP_append, List.countP_cons,
      countP_isQuoted_eq_zero hleft.2.1, countP_isQuoted_eq_zero hright.1, if_pos hquoted]
  · have hnone : t.tokens.countP Token.isQuoted = 0 := by
      rw [List.countP_eq_zero]
      intro token htoken hquoted
      obtain ⟨tile, htile, rfl⟩ := List.mem_map.mp htoken
      exact hsome ⟨tile, htile, hquoted⟩
    omega

theorem filter_blanks {blanks : List Char} (h : ∀ c ∈ blanks, Text.isBlank c) :
    blanks.filter (fun c => !Text.isBlank c) = [] := by
  rw [List.filter_eq_nil_iff]
  intro c hc
  simp [h c hc]

/-- What is not blank on a line is in the tokens, in the same order. -/
theorem filter_text (t : Tiling) :
    t.text.filter (fun c => !Text.isBlank c) =
      (t.tokens.flatMap fun token => token.display.toList).filter fun c => !Text.isBlank c := by
  obtain ⟨tiles, margin, hmargin⟩ := t
  induction tiles with
  | nil => simpa [text, tokens] using hmargin
  | cons tile rest ih =>
    simp only [text, tokens, List.flatMap_cons, List.map_cons, List.append_assoc,
      List.filter_append, Tile.text, filter_blanks tile.blank, List.nil_append] at ih ⊢
    rw [ih]

end Tiling

namespace Token

/-- A line is its tokens with blanks before, between and after them, and nothing on it that
is not blank is lost, repeated or moved. Each token stands as its sort can. A comment, or what
follows a quote that is not closed, is the last token, and at most one token that is not a
comment has quotes. -/
theorem tokens_tile_line (line : List Char) :
    ∃ t : Tiling, t.text = line ∧ t.tokens = lex line ∧
      (∀ before tile after, t.tiles = before ++ tile :: after →
        Stands (before.flatMap Tile.text ++ tile.gap) tile.token
            (after.flatMap Tile.text ++ t.margin) ∧
          (tile.token.isComment → after = []) ∧
          ∀ content, tile.token = .unknown content → '"' ∈ content.toList → after = []) ∧
      (lex line).countP isQuoted ≤ 1 ∧
      line.filter (fun c => !Text.isBlank c) =
        ((lex line).flatMap fun token => token.display.toList).filter fun c => !Text.isBlank c := by
  obtain ⟨t, htext, htokens, hfits⟩ := exists_tiling (Resumes.start line)
  refine ⟨t, htext, htokens, ?_, ?_, ?_⟩
  · intro before tile after hsplit
    have hstands := hfits before tile after hsplit
    rw [List.nil_append] at hstands
    refine ⟨hstands, fun hcomment => ?_, fun content hunknown hquote => ?_⟩
    · exact hfits.eq_nil_of_blank hsplit (hstands.blank_of_comment hcomment)
    · rw [hunknown] at hstands
      exact hfits.eq_nil_of_blank hsplit (hstands.blank_of_unclosed hquote)
  · rw [← htokens]
    exact hfits.countP_isQuoted_le
  · rw [← htokens, ← htext]
    exact t.filter_text

/-- A text with a quote in it, a word right after it, and a comment before a blank. -/
def mixedLine : List Char := " print\t\"a\"b\"x //c\r".toList

/-- A quote that ends a word and is not closed. -/
def openLine : List Char := "put\"oops ".toList

theorem tiles_of_mixedLine :
    (∃ (t : Tiling) (a b c d : Tile), t.text = mixedLine ∧ t.tiles = [a, b, c, d] ∧
      Stands (a.text ++ b.gap) (.text "a\"b") (c.text ++ (d.text ++ t.margin)) ∧
      Stands (a.text ++ (b.text ++ c.gap)) (.unknown "x") (d.text ++ t.margin) ∧
      d.token = .comment "c") ∧
    ∃ (t : Tiling) (a b : Tile), t.text = openLine ∧ t.tiles = [a, b] ∧
      Stands (a.text ++ b.gap) (.unknown "\"oops") t.margin := by
  constructor
  · obtain ⟨t, htext, htokens, hplaced, -⟩ := tokens_tile_line mixedLine
    have hlex : lex mixedLine = [.keyword .print, .text "a\"b", .unknown "x", .comment "c"] := by
      decide +kernel
    rw [hlex] at htokens
    obtain ⟨a, rest, htiles, -, hrest⟩ := List.map_eq_cons_iff.mp htokens
    obtain ⟨b, rest, rfl, hb, hrest⟩ := List.map_eq_cons_iff.mp hrest
    obtain ⟨c, rest, rfl, hc, hrest⟩ := List.map_eq_cons_iff.mp hrest
    obtain ⟨d, rest, rfl, hd, -⟩ := List.map_eq_cons_iff.mp hrest
    obtain rfl : rest = [] := by
      refine (hplaced [a, b, c] d rest htiles).2.1 ?_
      rw [hd]
      rfl
    have htext' := (hplaced [a] b [c, d] htiles).1
    have hword := (hplaced [a, b] c [d] htiles).1
    rw [hb] at htext'
    rw [hc] at hword
    exact ⟨t, a, b, c, d, htext, htiles, by simpa using htext', by simpa using hword, hd⟩
  · obtain ⟨t, htext, htokens, hplaced, -⟩ := tokens_tile_line openLine
    have hlex : lex openLine = [.keyword .put, .unknown "\"oops"] := by decide +kernel
    rw [hlex] at htokens
    obtain ⟨a, rest, htiles, -, hrest⟩ := List.map_eq_cons_iff.mp htokens
    obtain ⟨b, rest, rfl, hb, -⟩ := List.map_eq_cons_iff.mp hrest
    obtain ⟨hstands, -, hlast⟩ := hplaced [a] b rest htiles
    obtain rfl : rest = [] := hlast _ hb (by decide)
    rw [hb] at hstands
    exact ⟨t, a, b, htext, htiles, by simpa using hstands⟩

end Token

end StoredProgram
