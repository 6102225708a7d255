import StoredProgram.Proofs.Attempts
import StoredProgram.Statement

/-!
What a statement says about the line it was read from: its keyword is the first token.
A line that has no statement has a fault that belongs to loading, and the fault does not say
in which line.
-/
namespace StoredProgram

def Instruction.keyword : Instruction → Keyword
  | data _ => .data
  | load _ _ => .load
  | put _ _ => .put
  | get _ _ => .get
  | arithmetic operation _ _ _ => .arithmetic operation
  | goto _ => .goto
  | zgoto _ _ => .zgoto
  | nzgoto _ _ => .nzgoto
  | print _ _ => .print

namespace Statement

def keyword : Statement → Keyword
  | origin _ => .origin
  | finish => .finish
  | instruction i => i.keyword

/-- A fault of reading a statement. Its line is set later. -/
structure Loading (fault : Fault) : Prop where
  area : fault.area = .loading
  line : fault.line = none

theorem number_of_number? {text : String} {value : Number}
    (h : Literal.number? text = some value) : number (some (.number text)) = .ok value := by
  simp [number, numeral, h, bind, Except.bind, pure, Except.pure]

theorem size_of_size? {text : String} {n : Nat} (h : Literal.size? text = some n) :
    size (some (.number text)) = .ok n := by
  simp [size, numeral, h, bind, Except.bind, pure, Except.pure]

theorem ends_numeral (token : Option Token) : Ends (fun _ => True) Loading (numeral token) := by
  cases token with
  | none => exact ⟨rfl, rfl⟩
  | some token => cases token <;> first | exact True.intro | exact ⟨rfl, rfl⟩

theorem ends_number (token : Option Token) : Ends (fun _ => True) Loading (number token) := by
  refine (ends_numeral token).bind fun text _ => ?_
  split
  · exact True.intro
  · exact ⟨rfl, rfl⟩

theorem ends_size (token : Option Token) : Ends (fun _ => True) Loading (size token) := by
  refine (ends_numeral token).bind fun text _ => ?_
  split
  · exact True.intro
  · exact ⟨rfl, rfl⟩

theorem ends_template (token : Option Token) : Ends (fun _ => True) Loading (template token) := by
  unfold template
  split
  · exact True.intro
  · exact ⟨rfl, rfl⟩

theorem ends_ofOperands (k : Keyword) (operands : List Token) :
    Ends (fun s => s.keyword = k) Loading (ofOperands k operands) := by
  cases k with
  | origin => exact (ends_size _).bind fun _ _ => rfl
  | finish => exact rfl
  | data => exact (ends_number _).bind fun _ _ => rfl
  | load => exact (ends_number _).bind fun _ _ => (ends_size _).bind fun _ _ => rfl
  | put => exact (ends_size _).bind fun _ _ => (ends_size _).bind fun _ _ => rfl
  | get => exact (ends_size _).bind fun _ _ => (ends_size _).bind fun _ _ => rfl
  | arithmetic operation =>
    exact (ends_size _).bind fun _ _ => (ends_size _).bind fun _ _ =>
      (ends_size _).bind fun _ _ => rfl
  | goto => exact (ends_size _).bind fun _ _ => rfl
  | nzgoto => exact (ends_size _).bind fun _ _ => (ends_size _).bind fun _ _ => rfl
  | zgoto => exact (ends_size _).bind fun _ _ => (ends_size _).bind fun _ _ => rfl
  | print => exact (ends_size _).bind fun _ _ => (ends_template _).bind fun _ _ => rfl

end Statement

end StoredProgram
