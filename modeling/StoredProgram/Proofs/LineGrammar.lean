import Mathlib.Data.List.TakeWhile
import StoredProgram.Program.Source
import StoredProgram.Proofs.Statements

/-!
The grammar of a program, line by line. Blank lines count for nothing, the first other
line sets the origin, and each one after it up to an end is an instruction. Reading
accepts exactly the texts of this form. In any other text there is a first line that
offends, or no line that says anything, and reading reports just that.
-/
namespace StoredProgram

namespace Program

def statementOf (line : List Char) : Except Fault (Option Statement) :=
  Statement.ofTokens (Token.lex line)

/-- A line without tokens, or with nothing before a comment. -/
def isBlankLine (line : List Char) : Bool := (Token.lex line).head?.all Token.isComment

def opensWith (keyword : Keyword) (line : List Char) : Bool :=
  (Token.lex line).head? = some (.keyword keyword)

/-- The index of the first line that is an end, or the number of lines. -/
def endIndex (lines : List (List Char)) : Nat := lines.findIdx (opensWith .finish)

/-- The lines before an end that say something. -/
def bodyLines (lines : List (List Char)) : List (List Char) :=
  (lines.take (endIndex lines)).filter fun line => !isBlankLine line

/-- Lines in which a program is written. -/
def Accepts (lines : List (List Char)) (p : Program) : Prop :=
  ∃ first rest, bodyLines lines = first :: rest ∧
    statementOf first = .ok (some (.origin p.origin)) ∧
    rest.map statementOf = p.instructions.map fun i => .ok (some (.instruction i))

/-- A line breaks the grammar after the lines before it: nothing has set an origin and
this line does not even try to, or it sets one again, or it is no statement. -/
inductive Offends (before : List (List Char)) (line : List Char) : Fault → Prop
  | noOrigin (hbefore : ∀ earlier ∈ before, isBlankLine earlier)
      (hline : isBlankLine line = false) (horigin : opensWith .origin line = false) :
      Offends before line { cause := .missingOrigin }
  | secondOrigin {address : Nat} (hbefore : ∃ earlier ∈ before, isBlankLine earlier = false)
      (hline : statementOf line = .ok (some (.origin address))) :
      Offends before line { cause := .unknownToken, note := "org" }
  | statement {fault : Fault}
      (hbefore : (∃ earlier ∈ before, isBlankLine earlier = false) ∨ opensWith .origin line)
      (hline : statementOf line = .error fault) : Offends before line fault

/-- A fault in the first line that offends, with the number of that line. No end stands
before it. Here `number` is the number of the first line. -/
def Reports (offends : List (List Char) → List Char → Fault → Prop) (number : Nat)
    (lines : List (List Char)) (reported : Fault) : Prop :=
  ∃ before line after fault, lines = before ++ line :: after ∧ offends before line fault ∧
    (∀ earlier ∈ before, opensWith .finish earlier = false) ∧
    (∀ b earlier a other, before = b ++ earlier :: a → ¬ offends b earlier other) ∧
    reported = { fault with line := some (number + before.length) }

section Reports

variable {offends : List (List Char) → List Char → Fault → Prop} {number : Nat}
variable {line : List Char} {rest : List (List Char)} {fault reported : Fault}

theorem not_reports_nil : ¬ Reports offends number [] reported := by
  rintro ⟨before, line, after, fault, heq, -⟩
  simp at heq

theorem reports_cons_of_offends (h : offends [] line fault)
    (hunique : ∀ other, offends [] line other → other = fault) :
    Reports offends number (line :: rest) reported ↔
      reported = { fault with line := some number } := by
  constructor
  · rintro ⟨before, found, after, other, heq, hoffends, -, hclean, rfl⟩
    cases before with
    | nil =>
      obtain ⟨rfl, rfl⟩ := List.cons.inj heq
      rw [hunique other hoffends, List.length_nil, Nat.add_zero]
    | cons head tail =>
      obtain ⟨rfl, -⟩ := List.cons.inj heq
      exact absurd h (hclean [] line tail fault rfl)
  · rintro rfl
    exact ⟨[], line, rest, fault, rfl, h, by simp, by simp, rfl⟩

theorem reports_cons_of_not_offends (hend : opensWith .finish line = false)
    (h : ∀ other, ¬ offends [] line other) :
    Reports offends number (line :: rest) reported ↔
      Reports (fun before => offends (line :: before)) (number + 1) rest reported := by
  constructor
  · rintro ⟨before, found, after, other, heq, hoffends, hnoEnd, hclean, rfl⟩
    cases before with
    | nil =>
      obtain ⟨rfl, -⟩ := List.cons.inj heq
      exact absurd hoffends (h other)
    | cons head tail =>
      obtain ⟨rfl, hrest⟩ := List.cons.inj heq
      refine ⟨tail, found, after, other, hrest, hoffends, ?_, ?_, ?_⟩
      · exact fun earlier hearlier => hnoEnd earlier (List.mem_cons_of_mem _ hearlier)
      · intro b earlier a g htail
        exact hclean (line :: b) earlier a g (by rw [htail, List.cons_append])
      · rw [List.length_cons, Nat.add_assoc, Nat.add_comm 1]
  · rintro ⟨before, found, after, other, rfl, hoffends, hnoEnd, hclean, rfl⟩
    refine ⟨line :: before, found, after, other, rfl, hoffends, ?_, ?_, ?_⟩
    · intro earlier hearlier
      rcases List.mem_cons.mp hearlier with rfl | hearlier
      · exact hend
      · exact hnoEnd earlier hearlier
    · intro b earlier a g hsplit
      cases b with
      | nil =>
        obtain ⟨rfl, -⟩ := List.cons.inj hsplit
        exact h g
      | cons head tail =>
        obtain ⟨rfl, hbefore⟩ := List.cons.inj hsplit
        exact hclean tail earlier a g hbefore
    · rw [List.length_cons, Nat.add_assoc, Nat.add_comm 1]

theorem not_reports_cons_of_finish (hend : opensWith .finish line)
    (h : ∀ other, ¬ offends [] line other) :
    ¬ Reports offends number (line :: rest) reported := by
  rintro ⟨before, found, after, other, heq, hoffends, hnoEnd, -⟩
  cases before with
  | nil =>
    obtain ⟨rfl, -⟩ := List.cons.inj heq
    exact h other hoffends
  | cons head tail =>
    obtain ⟨rfl, -⟩ := List.cons.inj heq
    exact absurd (hnoEnd line List.mem_cons_self) (by simp [hend])

end Reports

theorem significant_cons {token : Token} (h : token.isComment = false) (rest : List Token) :
    Token.significant (token :: rest) = token :: Token.significant rest := by
  simp [Token.significant, h]

theorem significant_append {front : List Token} (h : ∀ token ∈ front, token.isComment = false)
    (rest : List Token) :
    Token.significant (front ++ rest) = front ++ Token.significant rest := by
  have hall : ∀ token ∈ front, (!token.isComment) = true := by
    intro token htoken
    rw [h token htoken, Bool.not_false]
  exact List.takeWhile_append_of_pos hall

theorem head?_of_opensWith {keyword : Keyword} {line : List Char} (h : opensWith keyword line) :
    (Token.lex line).head? = some (.keyword keyword) := by
  simpa [opensWith] using h

/-- A line is blank, or its first token is none of a comment. -/
theorem line_cases (line : List Char) :
    isBlankLine line = true ∧ Token.significant (Token.lex line) = [] ∨
      ∃ token rest, isBlankLine line = false ∧ token.isComment = false ∧
        Token.lex line = token :: rest := by
  cases hlex : Token.lex line with
  | nil => exact Or.inl ⟨by simp [isBlankLine, hlex], rfl⟩
  | cons token rest =>
    cases hcomment : token.isComment with
    | true =>
      refine Or.inl ⟨by simp [isBlankLine, hlex, hcomment], ?_⟩
      simp [Token.significant, hcomment]
    | false =>
      exact Or.inr ⟨token, rest, by simp [isBlankLine, hlex, hcomment], hcomment, rfl⟩

/-- A line that opens with a keyword is the statement of that keyword, or faulty. -/
theorem statementOf_of_opensWith {keyword : Keyword} {line : List Char}
    (h : opensWith keyword line) :
    ∃ operands, Token.significant (Token.lex line) = .keyword keyword :: operands ∧
      statementOf line = (Statement.ofOperands keyword operands).map some := by
  obtain ⟨rest, hlex⟩ := List.head?_eq_some_iff.mp (head?_of_opensWith h)
  have hsignificant : Token.significant (Token.lex line) =
      .keyword keyword :: Token.significant rest := by
    rw [hlex]
    exact significant_cons rfl rest
  refine ⟨Token.significant rest, hsignificant, ?_⟩
  simp only [statementOf, Statement.ofTokens, hsignificant]

theorem isBlankLine_of_opensWith {keyword : Keyword} {line : List Char}
    (h : opensWith keyword line) : isBlankLine line = false := by
  simp [isBlankLine, head?_of_opensWith h, Token.isComment]

/-- A line is blank, or a statement that opens with its keyword, or has a fault that
belongs to loading. -/
theorem statementOf_cases (line : List Char) :
    isBlankLine line = true ∧ statementOf line = .ok none ∨
      (∃ s, opensWith s.keyword line ∧ statementOf line = .ok (some s)) ∨
      isBlankLine line = false ∧
        ∃ fault, statementOf line = .error fault ∧ Statement.Loading fault := by
  rcases line_cases line with ⟨hblank, hnil⟩ | ⟨token, rest, hblank, hcomment, hlex⟩
  · exact Or.inl ⟨hblank, by simp only [statementOf, Statement.ofTokens, hnil]⟩
  · cases token with
    | keyword k =>
      have hopens : opensWith k line := by simp [opensWith, hlex]
      obtain ⟨operands, -, hstatement⟩ := statementOf_of_opensWith hopens
      have hends := Statement.ends_ofOperands k operands
      cases hoperands : Statement.ofOperands k operands with
      | error fault =>
        rw [hoperands] at hstatement
        exact Or.inr (Or.inr ⟨hblank, fault, hstatement, hends.of_error hoperands⟩)
      | ok s =>
        rw [hoperands] at hstatement
        obtain rfl : s.keyword = k := hends.of_ok hoperands
        exact Or.inr (Or.inl ⟨s, hopens, hstatement⟩)
    | unknown | number | text | comment =>
      simp only [statementOf, Statement.ofTokens, hlex, significant_cons hcomment]
      exact Or.inr (Or.inr ⟨hblank, _, rfl, rfl, rfl⟩)

theorem statementOf_of_blank {line : List Char} (h : isBlankLine line) :
    statementOf line = .ok none := by
  rcases statementOf_cases line with ⟨-, hnone⟩ | ⟨s, hopens, -⟩ | ⟨hblank, -⟩
  · exact hnone
  · simp [isBlankLine_of_opensWith hopens] at h
  · simp [hblank] at h

theorem isBlankLine_of_statementOf {line : List Char} (h : statementOf line = .ok none) :
    isBlankLine line := by
  rcases statementOf_cases line with ⟨hblank, -⟩ | ⟨s, -, hsome⟩ | ⟨-, fault, herror, -⟩
  · exact hblank
  · simp [h] at hsome
  · simp [h] at herror

theorem opensWith_of_statementOf {line : List Char} {s : Statement}
    (h : statementOf line = .ok (some s)) : opensWith s.keyword line := by
  rcases statementOf_cases line with ⟨-, hnone⟩ | ⟨found, hopens, hsome⟩ | ⟨-, fault, herror, -⟩
  · simp [h] at hnone
  · obtain rfl : s = found := by simpa [h] using hsome
    exact hopens
  · simp [h] at herror

theorem loading_of_statementOf {line : List Char} {fault : Fault}
    (h : statementOf line = .error fault) : Statement.Loading fault := by
  rcases statementOf_cases line with ⟨-, hnone⟩ | ⟨s, -, hsome⟩ | ⟨-, found, herror, hloading⟩
  · simp [h] at hnone
  · simp [h] at hsome
  · obtain rfl : fault = found := by simpa [h] using herror
    exact hloading

theorem statementOf_of_finish {line : List Char} (h : opensWith .finish line) :
    statementOf line = .ok (some .finish) := by
  obtain ⟨operands, -, hstatement⟩ := statementOf_of_opensWith h
  rw [hstatement]
  rfl

theorem not_opensWith_of_ne {k k' : Keyword} {line : List Char} (h : opensWith k line)
    (hne : k ≠ k') : opensWith k' line = false := by
  simp [opensWith, head?_of_opensWith h, hne]

theorem inLine_of_loading {α : Type} {fault : Fault} (h : Statement.Loading fault) (number : Nat) :
    inLine number (.error fault : Except Fault α) =
      .error { fault with line := some number } := by
  rw [inLine, dif_pos h.line]
  rfl

/-- The five things that a line can be after the origin, and what reading makes of each. -/
theorem instructionsOf_cons (number : Nat) (line : List Char) (rest : List (List Char)) :
    instructionsOf number (line :: rest) =
      match statementOf line with
      | .error fault => .error { fault with line := some number }
      | .ok none => instructionsOf (number + 1) rest
      | .ok (some .finish) => .ok []
      | .ok (some (.origin _)) =>
        .error { cause := .unknownToken, line := some number, note := "org" }
      | .ok (some (.instruction i)) => (instructionsOf (number + 1) rest).map (i :: ·) := by
  rw [instructionsOf, ← statementOf]
  rcases hline : statementOf line with fault | _ | s
  · rw [inLine_of_loading (loading_of_statementOf hline)]
    rfl
  · rfl
  · cases s with
    | finish => rfl
    | origin address => rfl
    | instruction i => cases hrest : instructionsOf (number + 1) rest <;> rfl

theorem isBlankLine_eq_false {line : List Char} (h : statementOf line ≠ .ok none) :
    isBlankLine line = false :=
  Bool.eq_false_iff.mpr fun hblank => h (statementOf_of_blank hblank)

theorem opensWith_finish_eq_false {line : List Char} (h : statementOf line ≠ .ok (some .finish)) :
    opensWith .finish line = false :=
  Bool.eq_false_iff.mpr fun hfinish => h (statementOf_of_finish hfinish)

theorem opensWith_finish_of_blank {line : List Char} (h : isBlankLine line) :
    opensWith .finish line = false :=
  opensWith_finish_eq_false (by simp [statementOf_of_blank h])

theorem bodyLines_of_finish {line : List Char} (h : opensWith .finish line)
    (rest : List (List Char)) : bodyLines (line :: rest) = [] := by
  simp [bodyLines, endIndex, List.findIdx_cons, h]

theorem bodyLines_cons {line : List Char} (h : opensWith .finish line = false)
    (rest : List (List Char)) :
    bodyLines (line :: rest) =
      if isBlankLine line then bodyLines rest else line :: bodyLines rest := by
  cases hblank : isBlankLine line <;>
    simp [bodyLines, endIndex, List.findIdx_cons, h, hblank]

theorem bodyLines_of_statement {line : List Char} (hblank : statementOf line ≠ .ok none)
    (hfinish : statementOf line ≠ .ok (some .finish)) (rest : List (List Char)) :
    bodyLines (line :: rest) = line :: bodyLines rest := by
  rw [bodyLines_cons (opensWith_finish_eq_false hfinish), isBlankLine_eq_false hblank]
  rfl

/-- A line offends after the origin has been set. -/
def BodyOffends (line : List Char) (fault : Fault) : Prop :=
  statementOf line = .error fault ∨
    ∃ address, statementOf line = .ok (some (.origin address)) ∧
      fault = { cause := .unknownToken, note := "org" }

theorem offends_iff_bodyOffends {before : List (List Char)} {line : List Char} {fault : Fault}
    (hbefore : ∃ earlier ∈ before, isBlankLine earlier = false) :
    Offends before line fault ↔ BodyOffends line fault := by
  constructor
  · intro h
    cases h with
    | noOrigin hblank =>
      obtain ⟨earlier, hmem, hearlier⟩ := hbefore
      simp [hblank earlier hmem] at hearlier
    | secondOrigin _ hline => exact Or.inr ⟨_, hline, rfl⟩
    | statement _ hline => exact Or.inl hline
  · rintro (hline | ⟨address, hline, rfl⟩)
    · exact Offends.statement (Or.inl hbefore) hline
    · exact Offends.secondOrigin hbefore hline

theorem instructionsOf_eq_ok_iff (number : Nat) (lines : List (List Char))
    (instructions : List Instruction) :
    instructionsOf number lines = .ok instructions ↔
      (bodyLines lines).map statementOf =
        instructions.map fun i => .ok (some (.instruction i)) := by
  induction lines generalizing number instructions with
  | nil => cases instructions <;> simp [instructionsOf, bodyLines]
  | cons line rest ih =>
    rw [instructionsOf_cons]
    rcases hline : statementOf line with fault | _ | s
    · rw [bodyLines_of_statement (by simp [hline]) (by simp [hline])]
      cases instructions <;> simp [hline]
    · have hblank := isBlankLine_of_statementOf hline
      rw [bodyLines_cons (opensWith_finish_eq_false (by simp [hline])), if_pos hblank]
      exact ih (number + 1) instructions
    · cases s with
      | finish =>
        have hfinish : opensWith .finish line := opensWith_of_statementOf hline
        cases instructions <;> simp [bodyLines_of_finish hfinish]
      | origin address =>
        rw [bodyLines_of_statement (by simp [hline]) (by simp [hline])]
        cases instructions <;> simp [hline]
      | instruction i =>
        rw [bodyLines_of_statement (by simp [hline]) (by simp [hline])]
        cases instructions with
        | nil => cases instructionsOf (number + 1) rest <;> simp [Except.map]
        | cons first others =>
          rw [List.map_cons, List.map_cons, List.cons.injEq, ← ih (number + 1) others, hline]
          cases instructionsOf (number + 1) rest <;> simp [Except.map]

theorem reports_congr {offends offends' : List (List Char) → List Char → Fault → Prop}
    (h : ∀ before line fault, offends before line fault ↔ offends' before line fault)
    (number : Nat) (lines : List (List Char)) (reported : Fault) :
    Reports offends number lines reported ↔ Reports offends' number lines reported := by
  have heq : offends = offends' := by
    funext before line fault
    exact propext (h before line fault)
  rw [heq]

theorem instructionsOf_eq_error_iff (number : Nat) (lines : List (List Char)) (reported : Fault) :
    instructionsOf number lines = .error reported ↔
      Reports (fun _ => BodyOffends) number lines reported := by
  induction lines generalizing number with
  | nil => simp [instructionsOf, not_reports_nil]
  | cons line rest ih =>
    rw [instructionsOf_cons]
    rcases hline : statementOf line with fault | _ | s
    · have hunique : ∀ other, BodyOffends line other → other = fault := by
        intro other hother
        simpa [BodyOffends, hline, eq_comm] using hother
      rw [reports_cons_of_offends (Or.inl hline) hunique, Except.error.injEq, eq_comm]
    · have hfinish : opensWith .finish line = false :=
        opensWith_finish_eq_false (by simp [hline])
      rw [reports_cons_of_not_offends hfinish (by simp [BodyOffends, hline])]
      exact ih (number + 1)
    · cases s with
      | finish =>
        have hfinish : opensWith .finish line := opensWith_of_statementOf hline
        simp [not_reports_cons_of_finish hfinish, BodyOffends, hline]
      | origin address =>
        have hunique : ∀ other, BodyOffends line other →
            other = { cause := .unknownToken, note := "org" } := by
          intro other hother
          simpa [BodyOffends, hline] using hother
        rw [reports_cons_of_offends (Or.inr ⟨address, hline, rfl⟩) hunique,
          Except.error.injEq, eq_comm]
      | instruction i =>
        have hfinish : opensWith .finish line = false :=
          opensWith_finish_eq_false (by simp [hline])
        rw [reports_cons_of_not_offends hfinish (by simp [BodyOffends, hline]),
          ← ih (number + 1)]
        cases hrest : instructionsOf (number + 1) rest <;> simp [Except.map]

/-- What the first line that is not blank makes of the lines after it. -/
theorem ofLines_cons (number : Nat) (line : List Char) (rest : List (List Char)) :
    ofLines number (line :: rest) =
      if isBlankLine line then ofLines (number + 1) rest
      else if opensWith .origin line then
        match statementOf line with
        | .error fault => .error { fault with line := some number }
        | .ok (some (.origin address)) =>
          (instructionsOf (number + 1) rest).map fun instructions => ⟨address, instructions⟩
        | .ok _ => .error { cause := .missingOrigin, line := some number }
      else .error { cause := .missingOrigin, line := some number } := by
  rw [ofLines]
  rcases line_cases line with ⟨hblank, hnil⟩ | ⟨token, others, hblank, hcomment, hlex⟩
  · simp only [hnil, hblank, if_true]
  · by_cases horigin : opensWith .origin line
    · obtain ⟨operands, hsig, hstatement⟩ := statementOf_of_opensWith horigin
      simp only [hsig, hblank, horigin, hstatement, Statement.ofOperands, if_true]
      cases hsize : Statement.size operands[0]? with
      | error fault =>
        rw [inLine_of_loading ((Statement.ends_size _).of_error hsize)]
        rfl
      | ok address =>
        cases instructionsOf (number + 1) rest with
        | error fault => rfl
        | ok instructions => rfl
    · have htoken : token ≠ .keyword .origin := by
        rintro rfl
        simp [opensWith, hlex] at horigin
      simp only [hlex, significant_cons hcomment, hblank, horigin]
      split
      · next heq => cases heq
      · next operands heq => exact absurd (List.cons.inj heq).1 htoken
      · rfl

theorem statementOf_of_origin {line : List Char} (h : opensWith .origin line) :
    (∃ fault, statementOf line = .error fault) ∨
      ∃ address, statementOf line = .ok (some (.origin address)) := by
  obtain ⟨operands, -, hstatement⟩ := statementOf_of_opensWith h
  simp only [hstatement, Statement.ofOperands]
  cases Statement.size operands[0]? with
  | error fault => exact Or.inl ⟨fault, rfl⟩
  | ok address => exact Or.inr ⟨address, rfl⟩

theorem accepts_cons_of_blank {line : List Char} (h : isBlankLine line)
    (rest : List (List Char)) (p : Program) : Accepts (line :: rest) p ↔ Accepts rest p := by
  simp only [Accepts, bodyLines_cons (opensWith_finish_of_blank h), h, if_true]

theorem accepts_cons {line : List Char} (h : isBlankLine line = false)
    (rest : List (List Char)) (p : Program) :
    Accepts (line :: rest) p ↔
      statementOf line = .ok (some (.origin p.origin)) ∧
        instructionsOf 0 rest = .ok p.instructions := by
  rw [instructionsOf_eq_ok_iff]
  cases hfinish : opensWith .finish line with
  | true =>
    simp [Accepts, bodyLines_of_finish hfinish, statementOf_of_finish hfinish]
  | false =>
    simp only [Accepts, bodyLines_cons hfinish, h]
    constructor
    · rintro ⟨first, others, hsplit, hfirst, hothers⟩
      obtain ⟨rfl, rfl⟩ := List.cons.inj hsplit
      exact ⟨hfirst, hothers⟩
    · rintro ⟨hfirst, hothers⟩
      exact ⟨line, bodyLines rest, rfl, hfirst, hothers⟩

theorem instructionsOf_ok_number (number number' : Nat) (lines : List (List Char))
    (instructions : List Instruction) :
    instructionsOf number lines = .ok instructions ↔
      instructionsOf number' lines = .ok instructions := by
  rw [instructionsOf_eq_ok_iff, instructionsOf_eq_ok_iff]

theorem ofLines_eq_ok_iff (number : Nat) (lines : List (List Char)) (p : Program) :
    ofLines number lines = .ok p ↔ Accepts lines p := by
  induction lines generalizing number with
  | nil => simp [ofLines, Accepts, bodyLines]
  | cons line rest ih =>
    rw [ofLines_cons]
    cases hblank : isBlankLine line with
    | true =>
      rw [accepts_cons_of_blank hblank]
      exact ih (number + 1)
    | false =>
      rw [accepts_cons hblank, instructionsOf_ok_number 0 (number + 1)]
      cases horigin : opensWith .origin line with
      | false =>
        have hne : statementOf line ≠ .ok (some (.origin p.origin)) := by
          intro hline
          have := opensWith_of_statementOf hline
          simp [Statement.keyword, horigin] at this
        simp [hne]
      | true =>
        rcases statementOf_of_origin horigin with ⟨fault, hline⟩ | ⟨address, hline⟩
        · simp [hline]
        · cases hrest : instructionsOf (number + 1) rest with
          | error fault => simp [hline, Except.map]
          | ok instructions =>
            cases p
            simp [hline, Except.map]

theorem offends_cons_of_blank {earlier : List Char} (h : isBlankLine earlier)
    (before : List (List Char)) (line : List Char) (fault : Fault) :
    Offends (earlier :: before) line fault ↔ Offends before line fault := by
  have hall : (∀ l ∈ earlier :: before, isBlankLine l) ↔ ∀ l ∈ before, isBlankLine l := by
    simp [h]
  have hsome : (∃ l ∈ earlier :: before, isBlankLine l = false) ↔
      ∃ l ∈ before, isBlankLine l = false := by
    simp [h]
  constructor
  · intro hoffends
    cases hoffends with
    | noOrigin hbefore hline horigin => exact Offends.noOrigin (hall.mp hbefore) hline horigin
    | secondOrigin hbefore hline => exact Offends.secondOrigin (hsome.mp hbefore) hline
    | statement hbefore hline => exact Offends.statement (hbefore.imp_left hsome.mp) hline
  · intro hoffends
    cases hoffends with
    | noOrigin hbefore hline horigin => exact Offends.noOrigin (hall.mpr hbefore) hline horigin
    | secondOrigin hbefore hline => exact Offends.secondOrigin (hsome.mpr hbefore) hline
    | statement hbefore hline => exact Offends.statement (hbefore.imp_left hsome.mpr) hline

/-- At the start only a missing origin and the fault of an origin can offend. -/
theorem offends_nil_cases {line : List Char} {fault : Fault} (h : Offends [] line fault) :
    isBlankLine line = false ∧ opensWith .origin line = false ∧
        fault = { cause := .missingOrigin } ∨
      opensWith .origin line ∧ statementOf line = .error fault := by
  cases h with
  | noOrigin _ hline horigin => exact Or.inl ⟨hline, horigin, rfl⟩
  | secondOrigin hbefore _ => simp at hbefore
  | statement hbefore hline => exact Or.inr ⟨by simpa using hbefore, hline⟩

theorem ofLines_eq_error_iff (number : Nat) (lines : List (List Char)) (reported : Fault) :
    ofLines number lines = .error reported ↔
      (∀ line ∈ lines, isBlankLine line) ∧ reported = { cause := .missingOrigin } ∨
        Reports Offends number lines reported := by
  induction lines generalizing number with
  | nil => simp [ofLines, Fault.bare, not_reports_nil, @eq_comm _ reported]
  | cons line rest ih =>
    rw [ofLines_cons]
    cases hblank : isBlankLine line with
    | true =>
      have hclean : ∀ other, ¬ Offends [] line other := by
        intro other hother
        rcases offends_nil_cases hother with ⟨hline, -⟩ | ⟨-, hline⟩
        · simp [hblank] at hline
        · simp [statementOf_of_blank hblank] at hline
      rw [reports_cons_of_not_offends (opensWith_finish_of_blank hblank) hclean,
        reports_congr (offends_cons_of_blank hblank)]
      simpa [hblank] using ih (number + 1)
    | false =>
      have hsome : ∀ before : List (List Char), ∃ l ∈ line :: before, isBlankLine l = false :=
        fun before => ⟨line, List.mem_cons_self, hblank⟩
      cases horigin : opensWith .origin line with
      | false =>
        have hunique : ∀ other, Offends [] line other → other = { cause := .missingOrigin } := by
          intro other hother
          rcases offends_nil_cases hother with ⟨-, -, hfault⟩ | ⟨hline, -⟩
          · exact hfault
          · simp [horigin] at hline
        rw [reports_cons_of_offends (Offends.noOrigin (by simp) hblank horigin) hunique]
        simp [hblank, @eq_comm _ reported]
      | true =>
        have hfinish : opensWith .finish line = false :=
          not_opensWith_of_ne horigin (by decide)
        rcases statementOf_of_origin horigin with ⟨fault, hline⟩ | ⟨address, hline⟩
        · have hunique : ∀ other, Offends [] line other → other = fault := by
            intro other hother
            rcases offends_nil_cases hother with ⟨-, hnot, -⟩ | ⟨-, hother⟩
            · simp [horigin] at hnot
            · simpa [hline, eq_comm] using hother
          rw [reports_cons_of_offends (Offends.statement (Or.inr horigin) hline) hunique]
          simp [hblank, hline, @eq_comm _ reported]
        · have hclean : ∀ other, ¬ Offends [] line other := by
            intro other hother
            rcases offends_nil_cases hother with ⟨-, hnot, -⟩ | ⟨-, hother⟩
            · simp [horigin] at hnot
            · simp [hline] at hother
          rw [reports_cons_of_not_offends hfinish hclean,
            reports_congr (fun before l fault => offends_iff_bodyOffends (hsome before)),
            ← instructionsOf_eq_error_iff]
          cases hrest : instructionsOf (number + 1) rest <;> simp [hblank, hline, Except.map]

/-- What follows an end is not read. -/
theorem ofLines_append_finish {line : List Char} (h : opensWith .finish line)
    (number : Nat) (before after after' : List (List Char)) :
    ofLines number (before ++ line :: after) = ofLines number (before ++ line :: after') := by
  have hbody : ∀ (lines : List (List Char)) (n : Nat),
      instructionsOf n (lines ++ line :: after) = instructionsOf n (lines ++ line :: after') := by
    intro lines
    induction lines with
    | nil =>
      intro n
      simp only [List.nil_append, instructionsOf_cons, statementOf_of_finish h]
    | cons first rest ih =>
      intro n
      simp only [List.cons_append, instructionsOf_cons, ih (n + 1)]
  induction before generalizing number with
  | nil =>
    have horigin : opensWith .origin line = false := not_opensWith_of_ne h (by decide)
    simp [ofLines_cons, isBlankLine_of_opensWith h, horigin]
  | cons first rest ih => simp only [List.cons_append, ofLines_cons, ih (number + 1), hbody]

theorem getElem?_endIndex {lines : List (List Char)} (h : endIndex lines < lines.length) :
    ∃ line, lines[endIndex lines]? = some line ∧ opensWith .finish line :=
  ⟨lines[endIndex lines], List.getElem?_eq_getElem h, List.findIdx_getElem⟩

/-- Only the lines up to the first end count. -/
theorem ofLines_eq_of_take_eq {lines lines' : List (List Char)} (number : Nat)
    (h : lines'.take (endIndex lines + 1) = lines.take (endIndex lines + 1)) :
    ofLines number lines' = ofLines number lines := by
  by_cases hend : endIndex lines < lines.length
  · obtain ⟨line, hline, hfinish⟩ := getElem?_endIndex hend
    have htake : lines.take (endIndex lines + 1) = lines.take (endIndex lines) ++ [line] := by
      rw [List.take_add_one, hline, Option.toList_some]
    have hsplit : ∀ all : List (List Char),
        all.take (endIndex lines + 1) = lines.take (endIndex lines + 1) →
        all = lines.take (endIndex lines) ++ line :: all.drop (endIndex lines + 1) := by
      intro all hall
      have hparts := List.take_append_drop (endIndex lines + 1) all
      rw [hall, htake, List.append_assoc] at hparts
      exact hparts.symm
    calc
      ofLines number lines' = ofLines number (lines.take (endIndex lines) ++ line ::
          lines'.drop (endIndex lines + 1)) := congrArg (ofLines number) (hsplit lines' h)
      _ = ofLines number (lines.take (endIndex lines) ++ line ::
          lines.drop (endIndex lines + 1)) := ofLines_append_finish hfinish number _ _ _
      _ = ofLines number lines := (congrArg (ofLines number) (hsplit lines rfl)).symm
  · -- without an end the lines that count are all there are
    have hall : lines.take (endIndex lines + 1) = lines := List.take_of_length_le (by omega)
    have hlength := congrArg List.length h
    rw [hall, List.length_take] at hlength
    rw [hall, List.take_of_length_le (by omega)] at h
    rw [h]

theorem loading_of_offends {before : List (List Char)} {line : List Char} {fault : Fault}
    (h : Offends before line fault) : fault.area = .loading := by
  cases h with
  | noOrigin => rfl
  | secondOrigin => rfl
  | statement _ hline => exact (loading_of_statementOf hline).area

theorem isBlankLine_of_offends {before : List (List Char)} {line : List Char} {fault : Fault}
    (h : Offends before line fault) : isBlankLine line = false := by
  cases h with
  | noOrigin _ hline => exact hline
  | secondOrigin _ hline => exact isBlankLine_eq_false (by simp [hline])
  | statement _ hline => exact isBlankLine_eq_false (by simp [hline])

theorem area_and_line_of_reports {number : Nat} {lines : List (List Char)} {reported : Fault}
    (h : Reports Offends number lines reported) :
    reported.area = .loading ∧ reported.line ≠ none ∧
      ∃ line ∈ lines, isBlankLine line = false := by
  obtain ⟨before, line, after, fault, rfl, hoffends, -, -, rfl⟩ := h
  refine ⟨?_, by simp, line, by simp, isBlankLine_of_offends hoffends⟩
  change fault.area = .loading
  exact loading_of_offends hoffends

/-- Reading accepts exactly the texts of the grammar, with the origin and the instructions
that they say. In any other text it reports the first line that offends, or without a
line number that no line says anything. Such a fault belongs to loading, and no line
after the first end has any influence. -/
theorem parse_follows_line_grammar (source : String) :
    (∀ p, parse source = .ok p ↔ Accepts (Text.lines source.toList) p) ∧
    (∀ fault, parse source = .error fault ↔
      (∀ line ∈ Text.lines source.toList, isBlankLine line) ∧
          fault = { cause := .missingOrigin } ∨
        Reports Offends 1 (Text.lines source.toList) fault) ∧
    (∀ fault, parse source = .error fault →
      fault.area = .loading ∧
        (fault.line = none ↔ ∀ line ∈ Text.lines source.toList, isBlankLine line)) ∧
    ∀ other : String,
      (Text.lines other.toList).take (endIndex (Text.lines source.toList) + 1) =
        (Text.lines source.toList).take (endIndex (Text.lines source.toList) + 1) →
      parse other = parse source := by
  refine ⟨?_, ?_, ?_, ?_⟩
  · exact fun p => ofLines_eq_ok_iff 1 (Text.lines source.toList) p
  · exact fun fault => ofLines_eq_error_iff 1 (Text.lines source.toList) fault
  · intro fault hfault
    rcases (ofLines_eq_error_iff 1 _ fault).mp hfault with ⟨hblank, rfl⟩ | hreports
    · exact ⟨rfl, by simpa using hblank⟩
    · obtain ⟨harea, hline, line, hmem, hnonblank⟩ := area_and_line_of_reports hreports
      refine ⟨harea, fun hnone => absurd hnone hline, fun hblank => ?_⟩
      simp [hblank line hmem] at hnonblank
  · exact fun other htake => ofLines_eq_of_take_eq 1 htake

theorem parse_second_origin :
    (parse "\n// a\norg 3\ndata 1\norg 4\nend\nx" =
        .error { cause := .unknownToken, line := some 5, note := "org" } ∧
      (some 5 = none ↔ ∀ line ∈ Text.lines "\n// a\norg 3\ndata 1\norg 4\nend\nx".toList,
        isBlankLine line)) ∧
    parse "\n// a\norg 3\ndata 1\norg 4\nend\ny z" =
      parse "\n// a\norg 3\ndata 1\norg 4\nend\nx" := by
  have hparse : parse "\n// a\norg 3\ndata 1\norg 4\nend\nx" =
      .error { cause := .unknownToken, line := some 5, note := "org" } := by decide +kernel
  exact ⟨⟨hparse, ((parse_follows_line_grammar _).2.2.1 _ hparse).2⟩,
    (parse_follows_line_grammar _).2.2.2 _ (by decide +kernel)⟩

end Program

end StoredProgram
