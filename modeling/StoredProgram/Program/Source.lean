import StoredProgram.Program.Basic
import StoredProgram.Statement
import StoredProgram.Text.Lines

/-!
Reading programs from source. The first statement sets the origin, each one after it
gives an instruction, and reading stops at an end or at the end of the text. Lines count
from one, and the first line that breaks a rule is reported.
-/
namespace StoredProgram.Program

/-- A fault of a line belongs to it. -/
def inLine {α : Type} (line : Nat) : Except Fault α → Except Fault α
  | .ok value => .ok value
  | .error fault => .error (if h : fault.line = none then fault.atLine line h else fault)

/-- The instructions of the lines after the origin, where `line` is the number of the
first of them. -/
def instructionsOf (line : Nat) : List (List Char) → Except Fault (List Instruction)
  | [] => .ok []
  | text :: rest => do
    match ← inLine line (Statement.ofTokens (Token.lex text)) with
    | none => instructionsOf (line + 1) rest
    | some .finish => return []
    | some (.origin _) =>
      throw (((Fault.bare .unknownToken).atLine line rfl).withNote Keyword.origin.spelling rfl)
    | some (.instruction instruction) =>
      return instruction :: (← instructionsOf (line + 1) rest)

/-- The program of the given lines, where `line` is the number of the first of them. -/
def ofLines (line : Nat) : List (List Char) → Except Fault Program
  | [] => .error (Fault.bare .missingOrigin)
  | text :: rest =>
    match Token.significant (Token.lex text) with
    | [] => ofLines (line + 1) rest
    | .keyword .origin :: operands => do
      let origin ← inLine line (Statement.size operands[0]?)
      let instructions ← instructionsOf (line + 1) rest
      return ⟨origin, instructions⟩
    | _ => .error ((Fault.bare .missingOrigin).atLine line rfl)

def parse (source : String) : Except Fault Program := ofLines 1 (Text.lines source.toList)

end StoredProgram.Program
