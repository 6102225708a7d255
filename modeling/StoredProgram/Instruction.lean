import StoredProgram.Operation
import StoredProgram.Template.Render

/-!
The instructions of the machine. Registers and addresses are numbered from zero, and
every instruction yields a number when it is executed.
-/
namespace StoredProgram

inductive Instruction where
  /-- Holds a number and does nothing. -/
  | data (value : Number)
  | load (value : Number) (dest : Nat)
  /-- Overwrites a slot with the number in a register. -/
  | put (source address : Nat)
  /-- Executes the instruction in a slot and keeps what it yields in a register. -/
  | get (address dest : Nat)
  | arithmetic (operation : Operation) (left right dest : Nat)
  | goto (address : Nat)
  /-- Goes on at the address if the register is zero. -/
  | zgoto (register address : Nat)
  /-- Goes on at the address if the register is not zero. -/
  | nzgoto (register address : Nat)
  | print (register : Nat) (template : Template)
deriving DecidableEq

/-- The form in which traces show an instruction, with `*` before registers and `@`
before addresses. -/
def Instruction.describe : Instruction → String
  | data value => s!"Data {value.brief}"
  | load value dest => s!"Load {value.brief} to *{dest}"
  | put source address => s!"Put *{source} to @{address}"
  | get address dest => s!"Get @{address} to *{dest}"
  | arithmetic operation left right dest =>
    s!"{operation.name} *{left} *{right} to *{dest}"
  | goto address => s!"Goto @{address}"
  | zgoto register address => s!"ZGoto *{register} to @{address}"
  | nzgoto register address => s!"NZGoto *{register} to @{address}"
  | print register template => s!"Print *{register} like \"{template.text}\""

end StoredProgram
