import StoredProgram.Log
import StoredProgram.Memory
import StoredProgram.Registers

/-!
Executing single instructions on a machine, which is a memory and a register file. An
instruction is carried out step by step. The first step that fails is the last, and nothing
that was done before it is undone.
-/
namespace StoredProgram

structure Machine where
  memory : Memory
  registers : Registers
deriving DecidableEq

/-- A machine while an instruction is carried out, with the lines printed and the records
logged so far. -/
structure Progress where
  machine : Machine
  printed : List String := []
  log : List Record := []

/-- Steps on a machine, which end in a value or in a fault. Either way the machine is then
as the last step left it. -/
abbrev Action := ExceptT Fault (StateM Progress)

namespace Action

variable {α : Type}

def onMemory (step : Memory → Except Fault α × Memory) : Action α := fun progress =>
  let (result, memory) := step progress.machine.memory
  (result, { progress with machine.memory := memory })

def onRegisters (step : Registers → Except Fault α × Registers) : Action α := fun progress =>
  let (result, registers) := step progress.machine.registers
  (result, { progress with machine.registers := registers })

def read (register : Nat) : Action Number := onRegisters fun r => (r.read register, r)

def write (register : Nat) (value : Number) : Action Unit :=
  onRegisters fun r => r.write register value

def printLine (line : String) : Action Unit := fun progress =>
  (.ok (), { progress with printed := progress.printed ++ [line] })

def record (entry : Record) : Action Unit := fun progress =>
  (.ok (), { progress with log := progress.log ++ [entry] })

def load (value : Number) (dest : Nat) : Action Number := do
  write dest value
  return value

def put (source address : Nat) : Action Number := do
  let value ← read source
  onMemory fun m => m.put (.data value) address
  record (.rewritten address value)
  return value

def compute (operation : Operation) (left right dest : Nat) : Action Number := do
  let (a, b) ← onRegisters fun r => (r.readPair left right, r)
  let value := operation.apply a b
  write dest value
  return value

def goto (address : Nat) : Action Number := do
  onMemory fun m => m.seek address
  return Number.one

/-- Goes on at the address if the register is zero or not, as `whenZero` asks. -/
def branch (whenZero : Bool) (register address : Nat) : Action Number := do
  let value ← read register
  if value.isZero = whenZero then goto address else return Number.one

def print (register : Nat) (template : Template) : Action Number := do
  let value ← read register
  printLine (template.render value)
  return value

def emptyAddress (address : Nat) : Fault := (Fault.bare .emptyAddress).withNote s!"@{address}" rfl

def nestingTooDeep (address : Nat) : Fault :=
  (Fault.bare .nestingTooDeep).withNote s!"@{address}" rfl

/-- The instruction that a get at the address executes. -/
def target (address : Nat) : Action Instruction := do
  match ← onMemory fun m => (m.get address, m) with
  | some instruction => return instruction
  | none => throw (emptyAddress address)

end Action

/-- Carries out an instruction with gets nested at most to the given depth. -/
def Instruction.perform (depth : Nat) : Instruction → Action Number
  | data value => return value
  | load value dest => Action.load value dest
  | put source address => Action.put source address
  | get address dest => do
    let instruction ← Action.target address
    match depth with
    | 0 => throw (Action.nestingTooDeep address)
    | depth + 1 =>
      let value ← instruction.perform depth
      Action.write dest value
      return value
  | arithmetic operation left right dest => Action.compute operation left right dest
  | goto address => Action.goto address
  | zgoto register address => Action.branch true register address
  | nzgoto register address => Action.branch false register address
  | print register template => Action.print register template

/-- What executing an instruction has led to: the number it yields or a fault, the machine at
that point, and what was printed and logged. -/
structure Outcome where
  result : Except Fault Number
  machine : Machine
  printed : List String
  log : List Record

namespace Machine

/-- Nesting of gets beyond this depth counts as a cycle. -/
def nestingLimit : Nat := 64

def executeWithin (depth : Nat) (m : Machine) (instruction : Instruction) : Outcome :=
  let (result, progress) := (instruction.perform depth).run.run { machine := m }
  ⟨result, progress.machine, progress.printed, progress.log⟩

def execute (m : Machine) (instruction : Instruction) : Outcome :=
  m.executeWithin nestingLimit instruction

end Machine

end StoredProgram
