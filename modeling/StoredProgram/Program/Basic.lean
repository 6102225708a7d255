import StoredProgram.Memory

/-!
Programs: instructions in order, and the address where the first of them belongs.
Loading writes them to consecutive slots from there on and leaves the cursor on the first.
-/
namespace StoredProgram

structure Program where
  origin : Nat
  instructions : List Instruction
deriving DecidableEq

/-- Stores instructions one after another from the cursor on. The first that finds no
space is the fault, and those before it stay. -/
def Memory.appendAll (m : Memory) : List Instruction → Except Fault Unit × Memory
  | [] => (.ok (), m)
  | instruction :: rest =>
    match m.append instruction with
    | (.ok (), next) => next.appendAll rest
    | (.error fault, next) => (.error fault, next)

namespace Program

def size (p : Program) : Nat := p.instructions.length

def isEmpty (p : Program) : Bool := p.instructions.isEmpty

/-- The instructions with their addresses. -/
def placements (p : Program) : List (Instruction × Nat) := p.instructions.zipIdx p.origin

/-- Loads a program and gives the address to start at. The memory is the one afterwards,
also if there was a fault. -/
def load (p : Program) (m : Memory) : Except Fault Nat × Memory :=
  match m.seek p.origin with
  | (.error fault, start) => (.error fault, start)
  | (.ok (), start) =>
    match start.appendAll p.instructions with
    | (.error fault, filled) => (.error fault, filled)
    | (.ok (), filled) =>
      match filled.seek p.origin with
      | (.error fault, ready) => (.error fault, ready)
      | (.ok (), ready) => (.ok p.origin, ready)

end Program

end StoredProgram
