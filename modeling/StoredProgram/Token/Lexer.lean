import StoredProgram.Text.Blank
import StoredProgram.Token.Basic

/-!
Splitting a line into tokens. Words end at blanks and at quotes. A quoted text runs to
the last quote of the line, so that it may hold quotes itself; a quote that is the last
one leaves the rest of the line unknown. A word that starts with two slashes makes the
rest of the line a comment.
-/
namespace StoredProgram

/-- The parts of a text before and after its last quote. -/
def splitAtLastQuote? : List Char → Option (List Char × List Char)
  | [] => none
  | c :: rest =>
    match splitAtLastQuote? rest with
    | some (before, after) => some (c :: before, after)
    | none => if c = '"' then some ([], rest) else none

theorem eq_of_splitAtLastQuote? {text before after : List Char}
    (h : splitAtLastQuote? text = some (before, after)) : text = before ++ '"' :: after := by
  induction text generalizing before with
  | nil => simp [splitAtLastQuote?] at h
  | cons c rest ih =>
    unfold splitAtLastQuote? at h
    split at h
    · next front back hrest =>
      obtain ⟨rfl, rfl⟩ : c :: front = before ∧ back = after := by simpa using h
      rw [ih hrest, List.cons_append]
    · by_cases hc : c = '"'
      · obtain ⟨rfl, rfl⟩ : [] = before ∧ rest = after := by simpa [hc] using h
        rw [hc, List.nil_append]
      · simp [hc] at h

namespace Token

def isWordChar (c : Char) : Bool := !Text.isBlank c && c != '"'

/-- The tokens of a line, from left to right. -/
def lex : List Char → List Token
  | [] => []
  | c :: rest =>
    if Text.isBlank c then lex rest
    else if c = '"' then
      match _hquote : splitAtLastQuote? rest with
      | some (content, after) => text (String.ofList content) :: lex after
      | none => [unknown (String.ofList (Text.trimEnd (c :: rest)))]
    else if ['/', '/'].isPrefixOf (c :: rest.takeWhile isWordChar) then
      [comment (String.ofList (Text.trimEnd (rest.drop 1)))]
    else
      ofWord (String.ofList (c :: rest.takeWhile isWordChar)) ::
        lex (rest.dropWhile isWordChar)
termination_by line => line.length
decreasing_by
  · simp
  · have hsplit := congrArg List.length (eq_of_splitAtLastQuote? _hquote)
    simp only [List.length_append, List.length_cons] at hsplit ⊢
    omega
  · have hword := (List.dropWhile_suffix (l := rest) isWordChar).length_le
    simp only [List.length_cons]
    omega

/-- The tokens that mean something, which are those before a comment. -/
def significant (tokens : List Token) : List Token := tokens.takeWhile fun t => !t.isComment

end Token

end StoredProgram
