import StoredProgram.Fault
import StoredProgram.Instruction
import StoredProgram.Number.Literal
import StoredProgram.Token.Lexer

/-!
Statements: what a line of source says. The first token is a keyword, which decides how
many operands follow and of what sort. The first operand that does not fit is the fault
of the line; whatever follows the operands is ignored.
-/
namespace StoredProgram

inductive Statement where
  | origin (address : Nat)
  | finish
  | instruction (instruction : Instruction)
deriving DecidableEq

namespace Statement

/-- The text of an operand that has to be a number. -/
def numeral : Option Token → Except Fault String
  | none => .error (Fault.bare .missingOperand)
  | some (.number text) => .ok text
  | some token => .error ((Fault.bare .invalidOperand).withNote token.display rfl)

def number (token : Option Token) : Except Fault Number := do
  let text ← numeral token
  match Literal.number? text with
  | some value => return value
  | none => throw ((Fault.bare .invalidOperand).withNote text rfl)

/-- A register or an address. -/
def size (token : Option Token) : Except Fault Nat := do
  let text ← numeral token
  match Literal.size? text with
  | some value => return value
  | none => throw ((Fault.bare .invalidOperand).withNote text rfl)

def template : Option Token → Except Fault Template
  | some (.text text) => .ok ⟨text⟩
  | _ => .error (Fault.bare .missingFormat)

/-- The statement of a keyword with the tokens after it. -/
def ofOperands (keyword : Keyword) (operands : List Token) : Except Fault Statement := do
  let first := operands[0]?
  let second := operands[1]?
  let third := operands[2]?
  match keyword with
  | .origin => return .origin (← size first)
  | .finish => return .finish
  | .data => return .instruction (.data (← number first))
  | .load => return .instruction (.load (← number first) (← size second))
  | .put => return .instruction (.put (← size first) (← size second))
  | .get => return .instruction (.get (← size first) (← size second))
  | .arithmetic operation =>
    return .instruction (.arithmetic operation (← size first) (← size second) (← size third))
  | .goto => return .instruction (.goto (← size first))
  | .nzgoto => return .instruction (.nzgoto (← size first) (← size second))
  | .zgoto => return .instruction (.zgoto (← size first) (← size second))
  | .print => return .instruction (.print (← size first) (← template second))

/-- The statement of a line, which is none if the line is blank or a comment. -/
def ofTokens (tokens : List Token) : Except Fault (Option Statement) :=
  match Token.significant tokens with
  | [] => .ok none
  | .keyword keyword :: operands => (ofOperands keyword operands).map some
  | token :: _ => .error ((Fault.bare .unknownToken).withNote token.display rfl)

end Statement

end StoredProgram
