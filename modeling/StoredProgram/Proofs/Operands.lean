import Mathlib.Data.List.Forall2
import StoredProgram.Proofs.LineGrammar

/-!
The operands of a statement. A keyword says of what sorts its operands are, and they are
read from left to right, one token each. If all of them fit, the statement has just these
operands, whatever tokens follow. Otherwise the first that does not fit, or is not there, is
the fault. A comment ends the tokens wherever it stands.
-/
namespace StoredProgram

namespace Literal

/-- A text that denotes a size: decimal digits, with a plus sign before them or without it,
whose value fits an unsigned 64-bit word. -/
def SizeText (text : List Char) (n : Nat) : Prop :=
  ∃ digits, (text = digits ∨ text = '+' :: digits) ∧ digits ≠ [] ∧ (∀ c ∈ digits, c.isDigit) ∧
    digitsValue digits = n ∧ n < UInt64.size

theorem unsignedSize?_eq_some_iff (digits : List Char) (n : Nat) :
    unsignedSize? digits = some n ↔
      digits ≠ [] ∧ (∀ c ∈ digits, c.isDigit) ∧ digitsValue digits = n ∧ n < UInt64.size := by
  have hlimit : largestSize + 1 = UInt64.size := by decide
  unfold unsignedSize?
  split
  · next h =>
    obtain ⟨hne, hdigits, hfits⟩ := h
    rw [Option.some.injEq]
    constructor
    · rintro rfl
      exact ⟨hne, List.all_eq_true.mp hdigits, rfl, by omega⟩
    · rintro ⟨-, -, hvalue, -⟩
      exact hvalue
  · next h =>
    constructor
    · intro hnone
      cases hnone
    · rintro ⟨hne, hdigits, rfl, hfits⟩
      exact absurd ⟨hne, List.all_eq_true.mpr hdigits, by omega⟩ h

theorem size?_eq_some_iff (text : String) (n : Nat) :
    size? text = some n ↔ SizeText text.toList n := by
  unfold size?
  split
  · next digits htext =>
    rw [unsignedSize?_eq_some_iff, htext]
    constructor
    · intro h
      exact ⟨digits, Or.inr rfl, h⟩
    · rintro ⟨other, rfl | heq, hother⟩
      · exact absurd (hother.2.1 '+' List.mem_cons_self) (by decide)
      · obtain ⟨-, rfl⟩ := List.cons.inj heq
        exact hother
  · next hplus =>
    rw [unsignedSize?_eq_some_iff]
    constructor
    · intro h
      exact ⟨text.toList, Or.inl rfl, h⟩
    · rintro ⟨digits, htext | htext, h⟩
      · rw [htext]
        exact h
      · exact absurd htext (hplus digits)

end Literal

/-- What an operand has to be. -/
inductive OperandSort where
  | number
  | register
  | address
  | template
deriving DecidableEq

/-- The operands of a keyword, in the order in which they are written. -/
def Keyword.operandSorts : Keyword → List OperandSort
  | .origin => [.address]
  | .finish => []
  | .data => [.number]
  | .load => [.number, .register]
  | .put => [.register, .address]
  | .get => [.address, .register]
  | .arithmetic _ => [.register, .register, .register]
  | .goto => [.address]
  | .nzgoto => [.register, .address]
  | .zgoto => [.register, .address]
  | .print => [.register, .template]

inductive Operand where
  | number (value : Number)
  | register (index : Nat)
  | address (index : Nat)
  | template (template : Template)
deriving DecidableEq

namespace Operand

def sort : Operand → OperandSort
  | number _ => .number
  | register _ => .register
  | address _ => .address
  | template _ => .template

/-- The tokens that an operand is read from. -/
inductive Reads : Operand → Token → Prop
  | number {value : Number} {text : String} (hvalue : Literal.number? text = some value) :
      Reads (.number value) (.number text)
  | register {index : Nat} {text : String} (hindex : Literal.SizeText text.toList index) :
      Reads (.register index) (.number text)
  | address {index : Nat} {text : String} (hindex : Literal.SizeText text.toList index) :
      Reads (.address index) (.number text)
  | template (text : String) : Reads (.template ⟨text⟩) (.text text)

end Operand

def Instruction.operands : Instruction → List Operand
  | data value => [.number value]
  | load value dest => [.number value, .register dest]
  | put source address => [.register source, .address address]
  | get address dest => [.address address, .register dest]
  | arithmetic _ left right dest => [.register left, .register right, .register dest]
  | goto address => [.address address]
  | zgoto register address => [.register register, .address address]
  | nzgoto register address => [.register register, .address address]
  | print register template => [.register register, .template template]

def Statement.operands : Statement → List Operand
  | origin address => [.address address]
  | finish => []
  | instruction i => i.operands

namespace OperandSort

/-- The token makes an operand of the sort. -/
def Fits (sort : OperandSort) (token : Token) : Prop :=
  ∃ operand : Operand, operand.sort = sort ∧ operand.Reads token

/-- What is said of an operand that does not fit or is not there. -/
def fault (sort : OperandSort) (next : Option Token) : Fault :=
  match sort, next with
  | template, _ => { cause := .missingFormat }
  | _, none => { cause := .missingOperand }
  | _, some token => { cause := .invalidOperand, note := token.display }

/-- The operand of a sort at the next token. -/
def read : OperandSort → Option Token → Except Fault Operand
  | number, next => (Statement.number next).map .number
  | register, next => (Statement.size next).map .register
  | address, next => (Statement.size next).map .address
  | template, next => (Statement.template next).map .template

/-- Operands of the given sorts, one after another. -/
def readAll : List OperandSort → List Token → Except Fault (List Operand)
  | [], _ => .ok []
  | sort :: sorts, tokens => do
    let first ← sort.read tokens.head?
    (readAll sorts tokens.tail).map (first :: ·)

/-- The fault of the first operand that does not fit or is not there; those before it fit. -/
def FirstMisfit (sorts : List OperandSort) (tokens : List Token) (reported : Fault) : Prop :=
  ∃ before sort after used extra, sorts = before ++ sort :: after ∧ tokens = used ++ extra ∧
    List.Forall₂ Fits before used ∧ (∀ token ∈ extra.head?, ¬ sort.Fits token) ∧
    reported = sort.fault extra.head?

end OperandSort

namespace Statement

theorem ends_numeral_next (next : Option Token) :
    Ends (fun text => next = some (.number text))
      (fun fault => fault = OperandSort.number.fault next) (numeral next) := by
  rcases next with _ | token
  · exact rfl
  · cases token <;> exact rfl

theorem ends_number_next (next : Option Token) :
    Ends (fun value => ∃ text, next = some (.number text) ∧ Literal.number? text = some value)
      (fun fault => fault = OperandSort.number.fault next) (number next) := by
  refine (ends_numeral_next next).bind fun text htext => ?_
  split
  · exact ⟨text, htext, ‹_›⟩
  · rw [htext]
    exact rfl

theorem ends_size_next (next : Option Token) :
    Ends (fun n => ∃ text, next = some (.number text) ∧ Literal.size? text = some n)
      (fun fault => fault = OperandSort.number.fault next) (size next) := by
  refine (ends_numeral_next next).bind fun text htext => ?_
  split
  · exact ⟨text, htext, ‹_›⟩
  · rw [htext]
    exact rfl

theorem ends_template_next (next : Option Token) :
    Ends (fun found : Template => next = some (.text found.text))
      (fun fault => fault = OperandSort.template.fault next) (template next) := by
  rcases next with _ | token
  · exact rfl
  · cases token <;> exact rfl

end Statement

namespace OperandSort

theorem read_of_reads {operand : Operand} {token : Token} (h : operand.Reads token) :
    operand.sort.read (some token) = .ok operand := by
  cases h with
  | number hvalue => exact congrArg (Except.map Operand.number) (Statement.number_of_number? hvalue)
  | register hindex =>
    have hsize := Statement.size_of_size? ((Literal.size?_eq_some_iff _ _).mpr hindex)
    exact congrArg (Except.map Operand.register) hsize
  | address hindex =>
    have hsize := Statement.size_of_size? ((Literal.size?_eq_some_iff _ _).mpr hindex)
    exact congrArg (Except.map Operand.address) hsize
  | template text => rfl

theorem fault_of_ne_template {sort : OperandSort} (h : sort ≠ template) (next : Option Token) :
    sort.fault next = OperandSort.number.fault next := by
  cases sort with
  | template => exact absurd rfl h
  | number | register | address => rcases next with _ | token <;> rfl

/-- The next token makes the operand, or what stands there is the fault. -/
theorem ends_read (sort : OperandSort) (next : Option Token) :
    Ends (fun operand : Operand => operand.sort = sort ∧ ∃ token ∈ next, operand.Reads token)
      (fun fault => fault = sort.fault next) (sort.read next) := by
  cases sort with
  | number =>
    refine (Statement.ends_number_next next).map ?_
    rintro value ⟨text, rfl, hvalue⟩
    exact ⟨rfl, _, rfl, .number hvalue⟩
  | register =>
    rw [fault_of_ne_template (by decide)]
    refine (Statement.ends_size_next next).map ?_
    rintro index ⟨text, rfl, hindex⟩
    exact ⟨rfl, _, rfl, .register ((Literal.size?_eq_some_iff text index).mp hindex)⟩
  | address =>
    rw [fault_of_ne_template (by decide)]
    refine (Statement.ends_size_next next).map ?_
    rintro index ⟨text, rfl, hindex⟩
    exact ⟨rfl, _, rfl, .address ((Literal.size?_eq_some_iff text index).mp hindex)⟩
  | template =>
    refine (Statement.ends_template_next next).map ?_
    rintro found rfl
    exact ⟨rfl, _, rfl, .template found.text⟩

theorem read_eq_ok_iff {sort : OperandSort} {next : Option Token} {operand : Operand} :
    sort.read next = .ok operand ↔
      operand.sort = sort ∧ ∃ token ∈ next, operand.Reads token := by
  constructor
  · exact (sort.ends_read next).of_ok
  · rintro ⟨rfl, token, rfl, hreads⟩
    exact read_of_reads hreads

theorem read_eq_error_iff {sort : OperandSort} {next : Option Token} {fault : Fault} :
    sort.read next = .error fault ↔
      (∀ token ∈ next, ¬ sort.Fits token) ∧ fault = sort.fault next := by
  constructor
  · intro herror
    refine ⟨?_, (sort.ends_read next).of_error herror⟩
    rintro token htoken ⟨operand, hsort, hreads⟩
    rw [read_eq_ok_iff.mpr ⟨hsort, token, htoken, hreads⟩] at herror
    cases herror
  · rintro ⟨hnone, rfl⟩
    cases hread : sort.read next with
    | error fault => rw [(sort.ends_read next).of_error hread]
    | ok operand =>
      obtain ⟨hsort, token, htoken, hreads⟩ := read_eq_ok_iff.mp hread
      exact absurd ⟨operand, hsort, hreads⟩ (hnone token htoken)

theorem readAll_eq_ok_iff {sorts : List OperandSort} {tokens : List Token}
    {operands : List Operand} :
    readAll sorts tokens = .ok operands ↔
      operands.map Operand.sort = sorts ∧
        ∃ used extra, tokens = used ++ extra ∧ List.Forall₂ Operand.Reads operands used := by
  induction sorts generalizing tokens operands with
  | nil =>
    rw [readAll, Except.ok.injEq, List.map_eq_nil_iff]
    constructor
    · rintro rfl
      exact ⟨rfl, [], tokens, rfl, .nil⟩
    · rintro ⟨rfl, -⟩
      rfl
  | cons sort sorts ih =>
    rw [readAll, bind_eq_ok_iff]
    constructor
    · rintro ⟨first, hfirst, hrest⟩
      obtain ⟨others, hothers, rfl⟩ := map_eq_ok_iff.mp hrest
      obtain ⟨rfl, token, htoken, hreads⟩ := read_eq_ok_iff.mp hfirst
      obtain ⟨rest, rfl⟩ := List.head?_eq_some_iff.mp htoken
      obtain ⟨rfl, used, extra, rfl, hused⟩ := ih.mp hothers
      exact ⟨rfl, token :: used, extra, rfl, .cons hreads hused⟩
    · rintro ⟨hsorts, used, extra, rfl, hused⟩
      obtain ⟨first, others, rfl, rfl, rfl⟩ := List.map_eq_cons_iff.mp hsorts
      obtain ⟨token, more, hreads, hmore, rfl⟩ := List.forall₂_cons_left_iff.mp hused
      refine ⟨first, read_eq_ok_iff.mpr ⟨rfl, token, rfl, hreads⟩, ?_⟩
      exact map_eq_ok_iff.mpr ⟨others, ih.mpr ⟨rfl, more, extra, rfl, hmore⟩, rfl⟩

theorem exists_operands_of_fits {sorts : List OperandSort} {used : List Token}
    (h : List.Forall₂ Fits sorts used) :
    ∃ operands, operands.map Operand.sort = sorts ∧ List.Forall₂ Operand.Reads operands used := by
  induction h with
  | nil => exact ⟨[], rfl, .nil⟩
  | cons hfirst hrest ih =>
    obtain ⟨first, rfl, hreads⟩ := hfirst
    obtain ⟨others, rfl, hothers⟩ := ih
    exact ⟨first :: others, rfl, .cons hreads hothers⟩

theorem readAll_eq_error_iff {sorts : List OperandSort} {tokens : List Token} {fault : Fault} :
    readAll sorts tokens = .error fault ↔ FirstMisfit sorts tokens fault := by
  induction sorts generalizing tokens with
  | nil =>
    constructor
    · intro h
      cases h
    · rintro ⟨before, sort, after, used, extra, hsorts, -⟩
      simp at hsorts
  | cons sort sorts ih =>
    rw [readAll, bind_eq_error_iff]
    constructor
    · rintro (hfirst | ⟨first, hfirst, hrest⟩)
      · obtain ⟨hmisfit, hfault⟩ := read_eq_error_iff.mp hfirst
        exact ⟨[], sort, sorts, [], tokens, rfl, rfl, .nil, hmisfit, hfault⟩
      · obtain ⟨hsort, token, htoken, hreads⟩ := read_eq_ok_iff.mp hfirst
        obtain ⟨rest, rfl⟩ := List.head?_eq_some_iff.mp htoken
        obtain ⟨before, misfit, after, used, extra, rfl, hrest, hused, hmisfit⟩ :=
          ih.mp (map_eq_error_iff.mp hrest)
        obtain rfl : rest = used ++ extra := hrest
        exact ⟨sort :: before, misfit, after, token :: used, extra, rfl, rfl,
          .cons ⟨first, hsort, hreads⟩ hused, hmisfit⟩
    · rintro ⟨before, misfit, after, used, extra, hsorts, rfl, hused, hmisfit, hfault⟩
      cases hused with
      | nil =>
        obtain ⟨rfl, rfl⟩ := List.cons.inj hsorts
        exact Or.inl (read_eq_error_iff.mpr ⟨hmisfit, hfault⟩)
      | @cons _ token before used hfits hused =>
        obtain ⟨rfl, rfl⟩ := List.cons.inj hsorts
        obtain ⟨first, hsort, hreads⟩ := hfits
        refine Or.inr ⟨first, read_eq_ok_iff.mpr ⟨hsort, token, rfl, hreads⟩, ?_⟩
        refine map_eq_error_iff.mpr (ih.mpr ?_)
        exact ⟨before, misfit, after, used, extra, rfl, rfl, hused, hmisfit, hfault⟩

end OperandSort

open OperandSort

namespace Statement

/-- The operands of a statement are those that its keyword asks for. -/
theorem ofOperands_eq_readAll (k : Keyword) (tokens : List Token) :
    (ofOperands k tokens).map operands = readAll k.operandSorts tokens := by
  unfold ofOperands
  cases k
  all_goals
    simp only [Keyword.operandSorts, readAll, OperandSort.read, List.head?_eq_getElem?,
      List.getElem?_tail, Nat.zero_add, Nat.reduceAdd]
  case origin | goto => cases size tokens[0]? <;> rfl
  case finish => rfl
  case data => cases number tokens[0]? <;> rfl
  case load => cases number tokens[0]? <;> cases size tokens[1]? <;> rfl
  case put | get | nzgoto | zgoto => cases size tokens[0]? <;> cases size tokens[1]? <;> rfl
  case arithmetic operation =>
    cases size tokens[0]? <;> cases size tokens[1]? <;> cases size tokens[2]? <;> rfl
  case print => cases size tokens[0]? <;> cases template tokens[1]? <;> rfl

theorem sort_operands (s : Statement) : s.operands.map Operand.sort = s.keyword.operandSorts := by
  rcases s with _ | _ | i
  · rfl
  · rfl
  · cases i <;> rfl

end Statement

theorem Instruction.eq_of_operands {i j : Instruction} (hkeyword : i.keyword = j.keyword)
    (h : i.operands = j.operands) : i = j := by
  cases i <;> cases j <;> simp_all [keyword, operands]

namespace Statement

/-- A statement is its keyword with its operands. -/
theorem eq_of_operands {s t : Statement} (hkeyword : s.keyword = t.keyword)
    (h : s.operands = t.operands) : s = t := by
  rcases s with a | _ | i <;> rcases t with b | _ | j
  case origin.origin => simpa [operands] using h
  case finish.finish => rfl
  case instruction.instruction =>
    exact congrArg instruction (Instruction.eq_of_operands hkeyword h)
  case origin.finish | finish.origin => cases hkeyword
  case origin.instruction | finish.instruction => cases j <;> cases hkeyword
  case instruction.origin | instruction.finish => cases i <;> cases hkeyword

theorem ofOperands_eq_ok_iff {k : Keyword} {tokens : List Token} {s : Statement} :
    ofOperands k tokens = .ok s ↔
      s.keyword = k ∧
        ∃ used extra, tokens = used ++ extra ∧ List.Forall₂ Operand.Reads s.operands used := by
  have hequation := ofOperands_eq_readAll k tokens
  constructor
  · intro hok
    rw [hok] at hequation
    exact ⟨(ends_ofOperands k tokens).of_ok hok, (readAll_eq_ok_iff.mp hequation.symm).2⟩
  · rintro ⟨rfl, hused⟩
    rw [readAll_eq_ok_iff.mpr ⟨s.sort_operands, hused⟩] at hequation
    obtain ⟨found, hfound, hoperands⟩ := map_eq_ok_iff.mp hequation
    have hkeyword := (ends_ofOperands s.keyword tokens).of_ok hfound
    rw [hfound, eq_of_operands hkeyword hoperands]

theorem ofOperands_eq_error_iff {k : Keyword} {tokens : List Token} {fault : Fault} :
    ofOperands k tokens = .error fault ↔ FirstMisfit k.operandSorts tokens fault := by
  rw [← readAll_eq_error_iff, ← ofOperands_eq_readAll, map_eq_error_iff]

/-- There is a statement as soon as the tokens fit. -/
theorem exists_ofOperands_iff {k : Keyword} {tokens : List Token} :
    (∃ s, ofOperands k tokens = .ok s) ↔
      ∃ used extra, tokens = used ++ extra ∧ List.Forall₂ Fits k.operandSorts used := by
  constructor
  · rintro ⟨s, hok⟩
    obtain ⟨rfl, used, extra, htokens, hreads⟩ := ofOperands_eq_ok_iff.mp hok
    refine ⟨used, extra, htokens, ?_⟩
    rw [← s.sort_operands, List.forall₂_map_left_iff]
    exact hreads.imp fun operand token h => ⟨operand, rfl, h⟩
  · rintro ⟨used, extra, htokens, hfits⟩
    obtain ⟨operands, hsorts, hreads⟩ := exists_operands_of_fits hfits
    have hequation := ofOperands_eq_readAll k tokens
    rw [readAll_eq_ok_iff.mpr ⟨hsorts, used, extra, htokens, hreads⟩] at hequation
    obtain ⟨s, hok, -⟩ := map_eq_ok_iff.mp hequation
    exact ⟨s, hok⟩

theorem ofTokens_of_keyword {tokens rest : List Token} {k : Keyword}
    (h : Token.significant tokens = .keyword k :: rest) :
    ofTokens tokens = (ofOperands k rest).map some := by
  simp only [ofTokens, h]

theorem ofTokens_eq_some_of_keyword {tokens rest : List Token} {k : Keyword}
    (h : Token.significant tokens = .keyword k :: rest) (s : Statement) :
    ofTokens tokens = .ok (some s) ↔ ofOperands k rest = .ok s := by
  simp [ofTokens_of_keyword h, map_eq_ok_iff]

/-- What comes after a comment is never looked at. -/
theorem ofTokens_append_comment (front : List Token) (content : String) (after : List Token) :
    ofTokens (front ++ .comment content :: after) = ofTokens front := by
  have hsignificant : Token.significant (front ++ .comment content :: after) =
      Token.significant front := by
    induction front with
    | nil => rfl
    | cons token rest ih =>
      simp only [Token.significant, List.cons_append, List.takeWhile_cons] at ih ⊢
      rw [ih]
  rw [ofTokens, hsignificant, ofTokens]

theorem ofTokens_eq_none_iff {tokens : List Token} :
    ofTokens tokens = .ok none ↔ Token.significant tokens = [] := by
  unfold ofTokens
  split
  · next hnil => simp [hnil]
  · next k rest hkeyword =>
    simp only [hkeyword, reduceCtorEq, iff_false, map_eq_ok_iff]
    rintro ⟨s, -, hs⟩
    cases hs
  · next token rest _ htoken => simp [htoken]

/-- The fault of an operand is none of the first token. -/
theorem ofOperands_ne_unknownToken (k : Keyword) (tokens : List Token) (note : String) :
    ofOperands k tokens ≠ .error { cause := .unknownToken, note := note } := by
  intro herror
  obtain ⟨before, sort, after, used, extra, -, -, -, -, hfault⟩ := ofOperands_eq_error_iff.mp herror
  have hcause := congrArg Fault.cause hfault
  unfold OperandSort.fault at hcause
  split at hcause
  all_goals cases hcause

theorem ofTokens_unknownToken_iff {tokens rest : List Token} {token : Token}
    (h : Token.significant tokens = token :: rest) :
    ofTokens tokens = .error { cause := .unknownToken, note := token.display } ↔
      ∀ k, token ≠ .keyword k := by
  constructor
  · rintro herror k rfl
    rw [ofTokens_of_keyword h, map_eq_error_iff] at herror
    exact ofOperands_ne_unknownToken k rest _ herror
  · intro hkeyword
    unfold ofTokens
    rw [h]
    split
    · next hnil => cases hnil
    · next k _ hcons => exact absurd (List.cons.inj hcons).1 (hkeyword k)
    · next other _ _ hcons =>
      rw [(List.cons.inj hcons).1]
      rfl

theorem isComment_of_reads {operands : List Operand} {used : List Token}
    (h : List.Forall₂ Operand.Reads operands used) : ∀ token ∈ used, token.isComment = false := by
  induction h with
  | nil => simp
  | cons hfirst hrest ih =>
    refine List.forall_mem_cons.mpr ⟨?_, ih⟩
    cases hfirst <;> rfl

/-- A statement is read from its keyword and its operands, whatever comes after them. -/
theorem ofTokens_eq_some_iff {tokens : List Token} {s : Statement} :
    ofTokens tokens = .ok (some s) ↔
      ∃ used extra, tokens = .keyword s.keyword :: (used ++ extra) ∧
        List.Forall₂ Operand.Reads s.operands used := by
  constructor
  · intro hok
    rcases hsignificant : Token.significant tokens with _ | ⟨token, rest⟩
    · rw [ofTokens_eq_none_iff.mpr hsignificant] at hok
      cases hok
    · cases token with
      | keyword k =>
        rw [ofTokens_eq_some_of_keyword hsignificant] at hok
        obtain ⟨rfl, used, extra, rfl, hreads⟩ := ofOperands_eq_ok_iff.mp hok
        have hsplit := List.takeWhile_append_dropWhile (l := tokens)
          (p := fun token : Token => !token.isComment)
        rw [← Token.significant, hsignificant, List.cons_append, List.append_assoc] at hsplit
        exact ⟨used, _, hsplit.symm, hreads⟩
      | unknown | number | text | comment =>
        rw [(ofTokens_unknownToken_iff hsignificant).mpr (by simp)] at hok
        cases hok
  · rintro ⟨used, extra, htokens, hreads⟩
    have hsignificant : Token.significant tokens =
        .keyword s.keyword :: (used ++ Token.significant extra) := by
      rw [htokens, Program.significant_cons rfl,
        Program.significant_append (isComment_of_reads hreads)]
    rw [ofTokens_eq_some_of_keyword hsignificant]
    exact ofOperands_eq_ok_iff.mpr ⟨rfl, used, _, rfl, hreads⟩

/-- A line is read as the operands of its keyword say, and only the tokens before the first
comment count. Without any there is no statement. If the first is no keyword, it is the fault.
Otherwise each operand takes one token, from left to right. If all of them fit, the statement has
these operands in this order, and further tokens are ignored; if not, the first misfit is the
fault. -/
theorem ofTokens_follows_operand_grammar (tokens : List Token) :
    (∀ (front after : List Token) (content : String),
      ofTokens (front ++ .comment content :: after) = ofTokens front) ∧
    (ofTokens tokens = .ok none ↔ Token.significant tokens = []) ∧
    (∀ token rest, Token.significant tokens = token :: rest →
      (ofTokens tokens = .error { cause := .unknownToken, note := token.display } ↔
        ∀ k, token ≠ .keyword k)) ∧
    ∀ k rest, Token.significant tokens = .keyword k :: rest →
      (∀ s, ofTokens tokens = .ok (some s) ↔ s.keyword = k ∧
        ∃ used extra, rest = used ++ extra ∧ List.Forall₂ Operand.Reads s.operands used) ∧
      ((∃ s, ofTokens tokens = .ok (some s)) ↔
        ∃ used extra, rest = used ++ extra ∧ List.Forall₂ Fits k.operandSorts used) ∧
      ∀ fault, ofTokens tokens = .error fault ↔ FirstMisfit k.operandSorts rest fault := by
  refine ⟨fun front after content => ofTokens_append_comment front content after,
    ofTokens_eq_none_iff, fun token rest h => ofTokens_unknownToken_iff h, fun k rest h => ?_⟩
  refine ⟨fun s => ?_, ?_, fun fault => ?_⟩
  · rw [ofTokens_eq_some_of_keyword h, ofOperands_eq_ok_iff]
  · simp only [ofTokens_eq_some_of_keyword h]
    exact exists_ofOperands_iff
  · rw [ofTokens_of_keyword h, map_eq_error_iff, ofOperands_eq_error_iff]

/-- A text is no register, a surplus number does no harm, and a number opens no statement. -/
theorem ofTokens_of_misfit_surplus_and_number :
    (Token.significant [.keyword .load, .number "1.5", .text "x", .comment "c"] =
        .keyword .load :: [.number "1.5", .text "x"] ∧
      ofTokens [.keyword .load, .number "1.5", .text "x", .comment "c"] =
        .error { cause := .invalidOperand, note := "\"x\"" }) ∧
    (Token.significant [.keyword .print, .number "+7", .text "%d", .number "9"] =
        .keyword .print :: [.number "+7", .text "%d", .number "9"] ∧
      ofTokens [.keyword .print, .number "+7", .text "%d", .number "9"] =
        .ok (some (.instruction (.print 7 ⟨"%d"⟩)))) ∧
    (Token.significant [.number "5", .comment ""] = .number "5" :: [] ∧
      ofTokens [.number "5", .comment ""] = .error { cause := .unknownToken, note := "5" }) := by
  obtain ⟨-, -, -, hload⟩ := ofTokens_follows_operand_grammar
    [.keyword .load, .number "1.5", .text "x", .comment "c"]
  obtain ⟨-, -, -, hprint⟩ := ofTokens_follows_operand_grammar
    [.keyword .print, .number "+7", .text "%d", .number "9"]
  obtain ⟨-, -, hnumber, -⟩ := ofTokens_follows_operand_grammar [.number "5", .comment ""]
  have hvalue : Literal.number? "1.5" = some ⟨0x3FF8000000000000⟩ := by decide +kernel
  have hmisfit : ∀ token ∈ [Token.text "x"].head?, ¬ Fits .register token := by
    rintro token htoken ⟨operand, hsort, hreads⟩
    obtain rfl : Token.text "x" = token := by simpa using htoken
    cases hreads
    cases hsort
  have hindex : Literal.SizeText "+7".toList 7 :=
    (Literal.size?_eq_some_iff "+7" 7).mp (by decide +kernel)
  refine ⟨⟨rfl, ?_⟩, ⟨rfl, ?_⟩, ⟨rfl, ?_⟩⟩
  · refine ((hload _ _ rfl).2.2 _).mpr ?_
    exact ⟨[.number], .register, [], [.number "1.5"], [.text "x"], rfl, rfl,
      .cons ⟨_, rfl, .number hvalue⟩ .nil, hmisfit, rfl⟩
  · refine ((hprint _ _ rfl).1 _).mpr ⟨rfl, ?_⟩
    exact ⟨[.number "+7", .text "%d"], [.number "9"], rfl,
      .cons (.register hindex) (.cons (.template "%d") .nil)⟩
  · exact (hnumber _ _ rfl).mpr (by simp)

end Statement

end StoredProgram
