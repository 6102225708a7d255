import StoredProgram.CommandLine.Session
import StoredProgram.Proofs.Operands
import StoredProgram.Proofs.SignificantDigits

/-!
What a trace line tells. An instruction is shown as a title and its operands, each of them
after a link that starts with a blank. Neither titles nor operands hold blanks, except for a
template, which comes last, so that a line can be taken apart in one way only. The title tells
the keyword, and every operand but a number can be read off its text. A number is known up to
six significant digits.
-/
namespace StoredProgram

/-- Characters up to a blank or the end. -/
theorem run_of_blank_not_mem {text rest : List Char} (h : ' ' ∉ text)
    (hrest : ∀ c ∈ rest.head?, c = ' ') : Run (fun c => c ≠ ' ') text rest := by
  constructor
  · intro c hc
    have hne : c ≠ ' ' := fun heq => h (heq ▸ hc)
    simpa using hne
  · intro c hc
    simpa using hrest c hc

theorem blank_not_mem_toDigits (n : Nat) : ' ' ∉ Nat.toDigits 10 n := by
  intro h
  exact absurd (isDigit_of_mem_toDigits ' ' h) (by decide)

theorem toDigits_inj {m n : Nat} (h : Nat.toDigits 10 m = Nat.toDigits 10 n) : m = n := by
  rw [← Literal.digitsValue_toDigits m, h, Literal.digitsValue_toDigits]

/-- Texts one after another, each after its link. -/
def linked : List (List Char) → List (List Char) → List Char
  | link :: links, text :: texts => link ++ (text ++ linked links texts)
  | _, _ => []

/-- Links that start with a blank. -/
def Parting (links : List (List Char)) : Prop := ∀ link ∈ links, link.head? = some ' '

theorem head?_linked {links : List (List Char)} (hlinks : Parting links)
    (texts : List (List Char)) :
    ∀ c ∈ (linked links texts).head?, c = ' ' := by
  unfold linked
  split
  · next link links text texts =>
    intro c hc
    rw [List.head?_append, hlinks link List.mem_cons_self] at hc
    exact (Option.some.inj hc).symm
  · simp

/-- The texts can be told apart if only the last of them may hold a blank. -/
theorem linked_inj {links texts others : List (List Char)} (hlinks : Parting links)
    (htexts : texts.length = links.length) (hothers : others.length = links.length)
    (hfree : ∀ text ∈ texts.dropLast, ' ' ∉ text) (hfree' : ∀ text ∈ others.dropLast, ' ' ∉ text)
    (h : linked links texts = linked links others) : texts = others := by
  induction links generalizing texts others with
  | nil =>
    rw [List.length_eq_zero_iff.mp htexts, List.length_eq_zero_iff.mp hothers]
  | cons link links ih =>
    obtain ⟨text, texts, rfl⟩ := List.exists_cons_of_length_eq_add_one htexts
    obtain ⟨other, others, rfl⟩ := List.exists_cons_of_length_eq_add_one hothers
    have hsplit := List.append_cancel_left h
    have htexts' : texts.length = links.length := by simpa using htexts
    have hothers' : others.length = links.length := by simpa using hothers
    rcases links with _ | ⟨next, links⟩
    · -- nothing follows the last text
      rw [List.length_eq_zero_iff.mp htexts', List.length_eq_zero_iff.mp hothers'] at hsplit ⊢
      simpa [linked] using hsplit
    · have hparting : Parting (next :: links) := fun l hl => hlinks l (List.mem_cons_of_mem _ hl)
      have hne : texts ≠ [] := List.ne_nil_of_length_eq_add_one htexts'
      have hne' : others ≠ [] := List.ne_nil_of_length_eq_add_one hothers'
      rw [List.dropLast_cons_of_ne_nil hne] at hfree
      rw [List.dropLast_cons_of_ne_nil hne'] at hfree'
      have hrun := run_of_blank_not_mem (hfree text List.mem_cons_self)
        (head?_linked hparting texts)
      have hrun' := run_of_blank_not_mem (hfree' other List.mem_cons_self)
        (head?_linked hparting others)
      obtain ⟨rfl, hrest⟩ := hrun.unique hrun' hsplit
      rw [ih hparting htexts' hothers' (fun t ht => hfree t (List.mem_cons_of_mem _ ht))
        (fun t ht => hfree' t (List.mem_cons_of_mem _ ht)) hrest]

namespace Keyword

/-- What stands before each operand. -/
def links : Keyword → List (List Char)
  | origin | data | goto => [" ".toList]
  | finish => []
  | load | put | get | zgoto | nzgoto => [" ".toList, " to ".toList]
  | arithmetic _ => [" ".toList, " ".toList, " to ".toList]
  | print => [" ".toList, " like ".toList]

theorem parting_links (k : Keyword) : Parting k.links := by
  cases k <;> simp [Parting, links]

theorem length_links (k : Keyword) : k.links.length = k.operandSorts.length := by
  cases k <;> rfl

theorem spelling_inj {k l : Keyword} (h : k.spelling = l.spelling) : k = l := by
  have hfound := find?_spelling k
  rw [h, find?_spelling] at hfound
  exact (Option.some.inj hfound).symm

end Keyword

namespace Operand

def shown : Operand → List Char
  | number value => value.brief.toList
  | register index => '*' :: Nat.toDigits 10 index
  | address index => '@' :: Nat.toDigits 10 index
  | template ⟨text⟩ => '"' :: (text.toList ++ ['"'])

/-- Operands that are the same, or numbers that look the same. -/
inductive Alike : Operand → Operand → Prop
  | same (x : Operand) : Alike x x
  | number {v w : Number} (h : v.brief = w.brief) : Alike (.number v) (.number w)

theorem alike_of_shown {x y : Operand} (hsort : x.sort = y.sort) (hshown : x.shown = y.shown) :
    x.Alike y := by
  cases x <;> cases y
  case number.number => exact .number (String.toList_inj.mp hshown)
  case register.register =>
    rw [toDigits_inj (List.cons.inj hshown).2]
    exact .same _
  case address.address =>
    rw [toDigits_inj (List.cons.inj hshown).2]
    exact .same _
  case template.template t u =>
    have htext := List.append_cancel_right (List.cons.inj hshown).2
    obtain rfl : t = u := congrArg Template.mk (String.toList_inj.mp htext)
    exact .same _
  all_goals cases hsort

theorem forall₂_alike_of_shown {xs ys : List Operand} (hsort : xs.map sort = ys.map sort)
    (hshown : xs.map shown = ys.map shown) : List.Forall₂ Alike xs ys := by
  induction xs generalizing ys with
  | nil =>
    rw [List.map_eq_nil_iff.mp hsort.symm]
    exact .nil
  | cons x xs ih =>
    obtain ⟨y, ys, rfl, hfirst, hrest⟩ := List.map_eq_cons_iff.mp hsort.symm
    obtain ⟨hshownFirst, hshownRest⟩ := List.cons.inj hshown
    exact .cons (alike_of_shown hfirst.symm hshownFirst) (ih hrest.symm hshownRest)

theorem eq_of_forall₂_alike {xs ys : List Operand} (h : List.Forall₂ Alike xs ys)
    (hnumber : ∀ v, .number v ∉ xs) : xs = ys := by
  induction h with
  | nil => rfl
  | @cons x y xs ys hfirst _ ih =>
    rw [ih fun v hv => hnumber v (List.mem_cons_of_mem _ hv)]
    cases hfirst with
    | same => rfl
    | number => exact absurd List.mem_cons_self (hnumber _)

end Operand

namespace Instruction

/-- Instructions that are the same, or differ only in a number and show it in the same way. -/
inductive Alike : Instruction → Instruction → Prop
  | same (i : Instruction) : Alike i i
  | data {v w : Number} (h : v.brief = w.brief) : Alike (.data v) (.data w)
  | load {v w : Number} (h : v.brief = w.brief) (dest : Nat) : Alike (.load v dest) (.load w dest)

theorem sort_operands (i : Instruction) : i.operands.map Operand.sort = i.keyword.operandSorts :=
  (Statement.instruction i).sort_operands

/-- Only data and loads have a number among their operands. -/
theorem alike_of_operands {i j : Instruction} (hkeyword : i.keyword = j.keyword)
    (h : List.Forall₂ Operand.Alike i.operands j.operands) : i.Alike j := by
  by_cases hnumber : ∃ v, .number v ∈ i.operands
  · cases i <;> simp [operands] at hnumber
    case data v =>
      cases j <;> cases hkeyword
      case data w =>
        obtain ⟨hvalue, -⟩ := List.forall₂_cons.mp h
        cases hvalue with
        | same => exact .same _
        | number hbrief => exact .data hbrief
    case load v dest =>
      cases j <;> cases hkeyword
      case load w dest' =>
        obtain ⟨hvalue, hrest⟩ := List.forall₂_cons.mp h
        obtain ⟨hdest, -⟩ := List.forall₂_cons.mp hrest
        cases hdest
        cases hvalue with
        | same => exact .same _
        | number hbrief => exact .load hbrief _
  · rw [not_exists] at hnumber
    rw [eq_of_operands hkeyword (Operand.eq_of_forall₂_alike h hnumber)]
    exact .same j

def title : Instruction → String
  | data _ => "Data"
  | load _ _ => "Load"
  | put _ _ => "Put"
  | get _ _ => "Get"
  | arithmetic operation _ _ _ => operation.name
  | goto _ => "Goto"
  | zgoto _ _ => "ZGoto"
  | nzgoto _ _ => "NZGoto"
  | print _ _ => "Print"

/-- But for its capitals a title is the spelling of the keyword. -/
theorem map_toLower_title (i : Instruction) :
    i.title.toList.map Char.toLower = i.keyword.spelling.toList := by
  cases i with
  | arithmetic operation => cases operation <;> simp only [title, keyword] <;> decide
  | data | load | put | get | goto | zgoto | nzgoto | print =>
    simp only [title, keyword]
    decide

theorem keyword_eq_of_title {i j : Instruction} (h : i.title.toList = j.title.toList) :
    i.keyword = j.keyword := by
  apply Keyword.spelling_inj
  rw [← String.toList_inj, ← map_toLower_title, h, map_toLower_title]

theorem blank_not_mem_title (i : Instruction) : ' ' ∉ i.title.toList := by
  cases i with
  | arithmetic operation => cases operation <;> simp [title, Operation.name]
  | data | load | put | get | goto | zgoto | nzgoto | print => simp [title]

theorem toList_describe (i : Instruction) :
    i.describe.toList =
      i.title.toList ++ linked i.keyword.links (i.operands.map Operand.shown) := by
  cases i <;>
    simp [describe, title, keyword, Keyword.links, operands, linked, Operand.shown, toString]

theorem length_shown (i : Instruction) :
    (i.operands.map Operand.shown).length = i.keyword.links.length := by
  rw [Keyword.length_links, ← sort_operands, List.length_map, List.length_map]

/-- A template is the last operand. -/
theorem blank_not_mem_shown (i : Instruction) :
    ∀ text ∈ (i.operands.map Operand.shown).dropLast, ' ' ∉ text := by
  cases i <;>
    simp [operands, Operand.shown, Number.blank_not_mem_brief, blank_not_mem_toDigits]

theorem run_title (i : Instruction) :
    Run (fun c => c ≠ ' ') i.title.toList
      (linked i.keyword.links (i.operands.map Operand.shown)) :=
  run_of_blank_not_mem i.blank_not_mem_title (head?_linked i.keyword.parting_links _)

theorem describe_eq_iff (i j : Instruction) : i.describe = j.describe ↔ i.Alike j := by
  constructor
  · intro h
    rw [← String.toList_inj, toList_describe, toList_describe] at h
    obtain ⟨htitle, hlinked⟩ := i.run_title.unique j.run_title h
    have hkeyword := keyword_eq_of_title htitle
    have hshown : i.operands.map Operand.shown = j.operands.map Operand.shown := by
      rw [← hkeyword] at hlinked
      exact linked_inj i.keyword.parting_links i.length_shown (hkeyword ▸ j.length_shown)
        i.blank_not_mem_shown j.blank_not_mem_shown hlinked
    have hsort : i.operands.map Operand.sort = j.operands.map Operand.sort := by
      rw [sort_operands, sort_operands, hkeyword]
    exact alike_of_operands hkeyword (Operand.forall₂_alike_of_shown hsort hshown)
  · intro h
    cases h with
    | same => rfl
    | data hbrief => rw [describe, describe, hbrief]
    | load hbrief dest => rw [describe, describe, hbrief]

theorem toList_outText (address : Nat) (i : Instruction) :
    (CommandLine.outText (.event (.trace address i))).toList =
      Nat.toDigits 10 address ++ ':' :: ' ' :: '\t' :: (i.describe.toList ++ ['\n']) := by
  simp [CommandLine.outText, toString]

theorem run_address (address : Nat) (rest : List Char) :
    Run Char.isDigit (Nat.toDigits 10 address) (':' :: rest) :=
  ⟨isDigit_of_mem_toDigits, by simp⟩

theorem outText_eq_iff (a b : Nat) (i j : Instruction) :
    CommandLine.outText (.event (.trace a i)) = CommandLine.outText (.event (.trace b j)) ↔
      a = b ∧ i.Alike j := by
  rw [← describe_eq_iff]
  constructor
  · intro h
    rw [← String.toList_inj, toList_outText, toList_outText] at h
    obtain ⟨hdigits, hrest⟩ := (run_address a _).unique (run_address b _) h
    refine ⟨toDigits_inj hdigits, String.toList_inj.mp ?_⟩
    simpa using hrest
  · rintro ⟨rfl, hdescribe⟩
    rw [CommandLine.outText, CommandLine.outText, hdescribe]

/-- A trace line tells its address, and its instruction but for the digits of a number beyond
the sixth. Numbers look alike exactly if they have the same sign and are both a NaN, both
infinite, or the same when rounded to six significant digits. -/
theorem traces_are_unambiguous (a b : Nat) (i j : Instruction) (v w : Number) :
    (i.describe = j.describe ↔ i.Alike j) ∧
    (CommandLine.outText (.event (.trace a i)) = CommandLine.outText (.event (.trace b j)) ↔
      a = b ∧ i.Alike j) ∧
    (v.brief = w.brief ↔
      v.isNegative = w.isNegative ∧ v.isNaN = w.isNaN ∧ v.isFinite = w.isFinite ∧
        (v.isFinite → v.scientific 5 = w.scientific 5)) :=
  ⟨describe_eq_iff i j, outText_eq_iff a b i j, Number.brief_eq_iff v w⟩

/-- 1234567 and 1234568 look alike; the templates differ although one imitates how the other
line goes on. -/
theorem traces_of_lookalikes :
    let v : Number := ⟨0x4132d68700000000⟩
    let w : Number := ⟨0x4132d68800000000⟩
    v ≠ w ∧ v.isFinite ∧ v.scientific 5 = w.scientific 5 ∧
      CommandLine.outText (.event (.trace 7 (load v 3))) =
        CommandLine.outText (.event (.trace 7 (load w 3))) ∧
      (print 1 ⟨"%g"⟩).describe ≠ (print 1 ⟨"%g\" like \"%g"⟩).describe := by
  intro v w
  have hbrief : v.brief = w.brief := by decide +kernel
  have hfinite : v.isFinite := by decide +kernel
  obtain ⟨-, htrace, hdigits⟩ := traces_are_unambiguous 7 7 (load v 3) (load w 3) v w
  obtain ⟨-, -, -, hsame⟩ := hdigits.mp hbrief
  obtain ⟨htext, -⟩ := traces_are_unambiguous 7 7 (print 1 ⟨"%g"⟩) (print 1 ⟨"%g\" like \"%g"⟩) v w
  have hprint : ∀ {i j : Instruction}, i.Alike j → i.keyword = .print → i = j := by
    intro i j h hkeyword
    cases h with
    | same => rfl
    | data | load => cases hkeyword
  refine ⟨by decide, hfinite, hsame hfinite, htrace.mpr ⟨rfl, .load hbrief 3⟩, fun h => ?_⟩
  exact absurd (hprint (htext.mp h) rfl) (by decide)

end Instruction

end StoredProgram
