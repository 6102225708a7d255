import StoredProgram.Fault
import StoredProgram.Number.Shortest

/-!
The register file: a fixed number of registers, all of them zero at the start.
-/
namespace StoredProgram

structure Registers where
  values : Array Number
deriving DecidableEq

namespace Registers

def zeros (count : Nat) : Registers := ⟨Array.replicate count Number.zero⟩

def count (r : Registers) : Nat := r.values.size

def isEmpty (r : Registers) : Bool := r.count = 0

def outOfBounds (register : Nat) : Fault :=
  (Fault.bare .registerOutOfBounds).withNote s!"*{register}" rfl

def read (r : Registers) (register : Nat) : Except Fault Number :=
  match r.values[register]? with
  | some value => .ok value
  | none => .error (outOfBounds register)

def readPair (r : Registers) (left right : Nat) : Except Fault (Number × Number) := do
  let a ← r.read left
  let b ← r.read right
  return (a, b)

/-- Writes to a register, and gives the registers back, also if there is no such register. -/
def write (r : Registers) (register : Nat) (value : Number) : Except Fault Unit × Registers :=
  if register < r.count then (.ok (), ⟨r.values.setIfInBounds register value⟩)
  else (.error (outOfBounds register), r)

def cleared (r : Registers) : Registers := zeros r.count

/-- All values in order, each in its shortest form. -/
def inspect (r : Registers) : String :=
  "[" ++ String.intercalate ", " (r.values.toList.map Number.shortest) ++ "]"

end Registers

end StoredProgram
