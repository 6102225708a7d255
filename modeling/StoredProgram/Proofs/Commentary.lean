import StoredProgram.Proofs.Lexing
import StoredProgram.Proofs.Operands

/-!
Commentary after the operands of a statement. It needs no slashes before it: a blank is
enough, and then anything may follow. It can close a quote that was open, move the end of a
quoted text or go on with a comment, but none of this reaches back to the operands, except
that a template would run on to a quote in the commentary.
-/
namespace StoredProgram

namespace Token

/-- A token of a statement that stays the same when the tail comes after its line. Words are
over before the tail begins, but a text runs on to the last quote. -/
def Steady (tail : List Char) : Token → Prop
  | keyword _ => True
  | number _ => True
  | text _ => '"' ∉ tail
  | unknown _ => False
  | comment _ => False

/-- Only tokens after those that are steady can change. -/
theorem lex_append_of_steady {tail : List Char} (hboundary : Boundary tail) {line : List Char}
    {front rest : List Token} (hlex : lex line = front ++ rest)
    (hsteady : ∀ token ∈ front, token.Steady tail) :
    ∃ more, lex (line ++ tail) = front ++ more := by
  fun_induction lex line generalizing front with
  | case1 =>
    obtain ⟨rfl, -⟩ := List.append_eq_nil_iff.mp hlex.symm
    exact ⟨_, rfl⟩
  | case2 c line hblank ih =>
    rw [List.cons_append, lex_blank hblank]
    exact ih hlex hsteady
  | case3 line content after hsplit hblank ih =>
    cases front with
    | nil => exact ⟨_, rfl⟩
    | cons first others =>
      obtain ⟨rfl, hothers⟩ := List.cons.inj hlex
      obtain ⟨htail, hsteady⟩ := List.forall_mem_cons.mp hsteady
      obtain ⟨more, hmore⟩ := ih hothers hsteady
      have hafter : '"' ∉ after ++ tail := by
        simpa using ⟨not_mem_of_splitAtLastQuote? hsplit, htail⟩
      refine ⟨more, ?_⟩
      rw [eq_of_splitAtLastQuote? hsplit, List.cons_append, List.append_assoc, List.cons_append,
        lex_text hafter, hmore, List.cons_append]
  | case4 line hsplit hblank =>
    cases front with
    | nil => exact ⟨_, rfl⟩
    | cons first others =>
      obtain ⟨rfl, -⟩ := List.cons.inj hlex
      exact (hsteady _ List.mem_cons_self).elim
  | case5 c line hblank hquote hcomment =>
    cases front with
    | nil => exact ⟨_, rfl⟩
    | cons first others =>
      obtain ⟨rfl, -⟩ := List.cons.inj hlex
      exact (hsteady _ List.mem_cons_self).elim
  | case6 c line hblank hquote hcomment ih =>
    cases front with
    | nil => exact ⟨_, rfl⟩
    | cons first others =>
      obtain ⟨rfl, hothers⟩ := List.cons.inj hlex
      obtain ⟨more, hmore⟩ := ih hothers (List.forall_mem_cons.mp hsteady).2
      refine ⟨more, ?_⟩
      rw [List.cons_append, lex, if_neg hblank, if_neg hquote, takeWhile_append_boundary hboundary,
        dropWhile_append_boundary hboundary, if_neg hcomment, hmore, List.cons_append]

end Token

namespace Program

theorem steady_of_reads {tail : List Char} {operands : List Operand} {used : List Token}
    (h : List.Forall₂ Operand.Reads operands used)
    (htail : ∀ template, Operand.template template ∈ operands → '"' ∉ tail) :
    ∀ token ∈ used, token.Steady tail := by
  induction h with
  | nil => simp
  | cons hfirst hrest ih =>
    refine List.forall_mem_cons.mpr ⟨?_, ih fun t ht => htail t (List.mem_cons_of_mem _ ht)⟩
    cases hfirst with
    | number | register | address => exact True.intro
    | template text => exact htail _ List.mem_cons_self

/-- Only a print has a template among its operands. -/
theorem eq_print_of_template_mem {s : Statement} {template : Template}
    (h : Operand.template template ∈ s.operands) :
    ∃ register, s = .instruction (.print register template) := by
  rcases s with address | _ | i
  · simp [Statement.operands] at h
  · simp [Statement.operands] at h
  · cases i with
    | print register found =>
      obtain rfl : template = found := by simpa [Statement.operands, Instruction.operands] using h
      exact ⟨register, rfl⟩
    | data | load | put | get | arithmetic | goto | zgoto | nzgoto =>
      simp [Statement.operands, Instruction.operands] at h

theorem statementOf_append {line tail : List Char} {s : Statement}
    (hline : statementOf line = .ok (some s)) (hboundary : Token.Boundary tail)
    (hprint : ∀ register template,
      s = .instruction (.print register template) → '"' ∉ tail) :
    statementOf (line ++ tail) = .ok (some s) := by
  obtain ⟨used, extra, hlex, hreads⟩ := Statement.ofTokens_eq_some_iff.mp hline
  have htemplate : ∀ template, Operand.template template ∈ s.operands → '"' ∉ tail := by
    intro template hmem
    obtain ⟨register, hs⟩ := eq_print_of_template_mem hmem
    exact hprint register template hs
  have hsteady : ∀ token ∈ .keyword s.keyword :: used, token.Steady tail :=
    List.forall_mem_cons.mpr ⟨True.intro, steady_of_reads hreads htemplate⟩
  rw [← List.cons_append] at hlex
  obtain ⟨more, hmore⟩ := Token.lex_append_of_steady hboundary hlex hsteady
  rw [List.cons_append] at hmore
  exact Statement.ofTokens_eq_some_iff.mpr ⟨used, more, hmore, hreads⟩

theorem instructionsOf_replace {line other : List Char}
    (h : statementOf line = statementOf other) (number : Nat) (before after : List (List Char)) :
    instructionsOf number (before ++ line :: after) =
      instructionsOf number (before ++ other :: after) := by
  induction before generalizing number with
  | nil => rw [List.nil_append, List.nil_append, instructionsOf_cons, instructionsOf_cons, h]
  | cons first rest ih =>
    rw [List.cons_append, List.cons_append, instructionsOf_cons, instructionsOf_cons,
      ih (number + 1)]

theorem opensWith_eq_of_statementOf {line : List Char} {s : Statement}
    (h : statementOf line = .ok (some s)) (k : Keyword) :
    opensWith k line = decide (s.keyword = k) := by
  simp [opensWith, head?_of_opensWith (opensWith_of_statementOf h)]

/-- In a program a line can be replaced by one with the same statement. -/
theorem ofLines_replace {line other : List Char} {s : Statement}
    (hline : statementOf line = .ok (some s)) (hother : statementOf other = .ok (some s))
    (number : Nat) (before after : List (List Char)) :
    ofLines number (before ++ line :: after) = ofLines number (before ++ other :: after) := by
  have hblank : ∀ text, statementOf text = .ok (some s) → isBlankLine text = false :=
    fun text htext => isBlankLine_eq_false (by simp [htext])
  induction before generalizing number with
  | nil =>
    rw [List.nil_append, List.nil_append, ofLines_cons, ofLines_cons, hline, hother,
      hblank line hline, hblank other hother, opensWith_eq_of_statementOf hline,
      opensWith_eq_of_statementOf hother]
  | cons first rest ih =>
    rw [List.cons_append, List.cons_append, ofLines_cons, ofLines_cons, ih (number + 1),
      instructionsOf_replace (hline.trans hother.symm)]

/-- A line that is a statement stays this statement when a tail that begins with a blank is
appended to it, whatever else the tail holds. Only after a print it must have no quote. Nor does
the tail change what is read from a program with this line. -/
theorem commentary_is_ignored (line tail : List Char) (s : Statement)
    (hline : statementOf line = .ok (some s)) (hblank : ∃ c ∈ tail.head?, Text.isBlank c)
    (hprint : ∀ register template,
      s = .instruction (.print register template) → '"' ∉ tail) :
    statementOf (line ++ tail) = .ok (some s) ∧
      ∀ (number : Nat) (before after : List (List Char)),
        ofLines number (before ++ (line ++ tail) :: after) =
          ofLines number (before ++ line :: after) := by
  have happend := statementOf_append hline (Token.boundary_of_blank_head hblank) hprint
  exact ⟨happend, ofLines_replace happend hline⟩

/-- A quote is open after the operands. -/
def openEnded : List Char := "put 1 2 \"a".toList

/-- The quote that was open is closed, and what follows looks like an origin and a comment. -/
def closingTail : List Char := " b\" org 9 // \"".toList

def quotingPrint : List Char := "print 3 \"a\"b\"x".toList

theorem commentary_after_openEnded_and_quotingPrint :
    (statementOf openEnded = .ok (some (.instruction (.put 1 2))) ∧
      Token.lex (openEnded ++ closingTail) =
        [.keyword .put, .number "1", .number "2", .text "a b\" org 9 // "] ∧
      statementOf (openEnded ++ closingTail) = .ok (some (.instruction (.put 1 2)))) ∧
    (statementOf quotingPrint = .ok (some (.instruction (.print 3 ⟨"a\"b"⟩))) ∧
      statementOf (quotingPrint ++ "\t//2 load".toList) =
        .ok (some (.instruction (.print 3 ⟨"a\"b"⟩)))) := by
  have hopen : statementOf openEnded = .ok (some (.instruction (.put 1 2))) := by decide +kernel
  have hquoting : statementOf quotingPrint = .ok (some (.instruction (.print 3 ⟨"a\"b"⟩))) := by
    decide +kernel
  refine ⟨⟨hopen, by decide +kernel, ?_⟩, hquoting, ?_⟩
  · exact (commentary_is_ignored openEnded closingTail _ hopen ⟨' ', rfl, by decide⟩
      (fun register template h => by cases h)).1
  · exact (commentary_is_ignored quotingPrint _ _ hquoting ⟨'\t', rfl, by decide⟩
      (fun register template h => by decide)).1

end Program

end StoredProgram
