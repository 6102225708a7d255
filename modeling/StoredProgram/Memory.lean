import StoredProgram.Fault
import StoredProgram.Instruction

/-!
Memory: a fixed number of slots, each of them empty or with one instruction, and the
cursor from which instructions are fetched. The cursor is an address, or the capacity
when it has run off the end. Whatever changes the memory gives it back as it is then, also
if it fails.
-/
namespace StoredProgram

structure Memory where
  slots : Array (Option Instruction)
  cursor : Nat
deriving DecidableEq

namespace Memory

def blank (capacity : Nat) : Memory := ⟨Array.replicate capacity none, 0⟩

def capacity (m : Memory) : Nat := m.slots.size

def outOfBounds (address : Nat) : Fault :=
  (Fault.bare .addressOutOfBounds).atAddress address rfl

def outOfSpace (cursor : Nat) : Fault := (Fault.bare .outOfSpace).atAddress cursor rfl

/-- The content of a slot. -/
def get (m : Memory) (address : Nat) : Except Fault (Option Instruction) :=
  match m.slots[address]? with
  | some slot => .ok slot
  | none => .error (outOfBounds address)

def put (m : Memory) (instruction : Instruction) (address : Nat) :
    Except Fault Unit × Memory :=
  if address < m.capacity then
    (.ok (), { m with slots := m.slots.setIfInBounds address (some instruction) })
  else (.error (outOfBounds address), m)

/-- Moves the cursor to a slot. -/
def seek (m : Memory) (address : Nat) : Except Fault Unit × Memory :=
  if address < m.capacity then (.ok (), { m with cursor := address })
  else (.error (outOfBounds address), m)

/-- Stores an instruction at the cursor and moves past it. -/
def append (m : Memory) (instruction : Instruction) : Except Fault Unit × Memory :=
  if m.cursor < m.capacity then
    (.ok (), ⟨m.slots.setIfInBounds m.cursor (some instruction), m.cursor + 1⟩)
  else (.error (outOfSpace m.cursor), m)

/-- The instruction at the cursor, if there is one, and the memory with the cursor moved
past the slot. An empty slot is passed too; the end of the memory is not. -/
def fetch (m : Memory) : Option Instruction × Memory :=
  match m.slots[m.cursor]? with
  | some slot => (slot, { m with cursor := m.cursor + 1 })
  | none => (none, m)

/-- The slots that are not empty, with their addresses in increasing order. -/
def occupied (m : Memory) : List (Nat × Instruction) :=
  m.slots.toList.zipIdx.filterMap fun (slot, address) => slot.map fun i => (address, i)

end Memory

end StoredProgram
