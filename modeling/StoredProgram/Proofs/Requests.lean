import StoredProgram.Proofs.Loading
import StoredProgram.Proofs.Turns

/-!
All that a host can ask of a processor and its machine: accesses to the memory, programs to
load, instructions to execute by themselves, turns in a run, and runs to start and to give up.
Whether it succeeds or fails, a request keeps the number of slots and of registers, and the
cursor stays on a slot or at the end. Only a host that puts another memory in place of the one
that is there changes the number of slots.
-/
namespace StoredProgram

/-- What can be asked of a memory. -/
inductive Access where
  | get (address : Nat)
  | put (instruction : Instruction) (address : Nat)
  | append (instruction : Instruction)
  | fetch
  | seek (address : Nat)
deriving DecidableEq

inductive Request where
  | access (access : Access)
  | load (program : Program)
  | perform (instruction : Instruction)
  | turn (turn : Turn)
  | run (entry : Nat)
  | interrupt
  /-- A blank memory takes the place of the one that is there. -/
  | replace (capacity : Nat)
deriving DecidableEq

namespace Memory

/-- What an access that changes the memory answers. -/
def answered (attempt : Except Fault Unit × Memory) : Except Fault (Option Instruction) × Memory :=
  (attempt.1.map fun _ => none, attempt.2)

/-- The answer to an access, and the memory as it is after it. -/
def access (m : Memory) : Access → Except Fault (Option Instruction) × Memory
  | .get address => (m.get address, m)
  | .put instruction address => answered (m.put instruction address)
  | .append instruction => answered (m.append instruction)
  | .fetch => (.ok m.fetch.1, m.fetch.2)
  | .seek address => answered (m.seek address)

variable {capacity : Nat} {m : Memory}

theorem Bounded.put (h : m.Bounded capacity) (instruction : Instruction) (address : Nat) :
    (m.put instruction address).2.Bounded capacity := by
  rcases Nat.lt_or_ge address m.capacity with hlt | hge
  · rw [put_of_lt hlt]
    exact h.of_slots Array.size_setIfInBounds h.wellFormed
  · rw [put_of_le hge]
    exact h

theorem Bounded.fetch (h : m.Bounded capacity) : m.fetch.2.Bounded capacity :=
  h.wellFormed.fetch.bounded ((congrArg Array.size m.slots_fetch).trans h.capacity_eq)

theorem Bounded.access (h : m.Bounded capacity) (access : Access) :
    (m.access access).2.Bounded capacity := by
  cases access with
  | get address => exact h
  | put instruction address => exact h.put instruction address
  | append instruction => exact h.append instruction
  | fetch => exact h.fetch
  | seek address => exact h.seek address

end Memory

/-- That many slots and registers, and a cursor within bounds. -/
structure Machine.Bounded (capacity count : Nat) (m : Machine) : Prop where
  memory : m.memory.Bounded capacity
  count_eq : m.registers.count = count

namespace Machine.Bounded

variable {capacity count : Nat} {m : Machine}

theorem execute (h : m.Bounded capacity count) (instruction : Instruction) :
    (m.execute instruction).machine.Bounded capacity count := by
  have hafter := m.outcomeAfter_execute instruction
  exact ⟨(hafter.memory.wellFormed h.memory.wellFormed).bounded
    (hafter.memory.capacity_eq.trans h.memory.capacity_eq), hafter.count_eq.trans h.count_eq⟩

theorem cycle (h : m.Bounded capacity count) (tracing : Bool) :
    (m.cycle tracing).machine.Bounded capacity count := by
  refine ⟨(wellFormed_cycle h.memory.wellFormed tracing).bounded ?_, ?_⟩
  · rw [m.capacity_cycle, h.memory.capacity_eq]
  · rw [m.count_cycle, h.count_eq]

end Machine.Bounded

namespace Processor

/-- The processor after a request, whether that succeeds or fails. -/
def serve (p : Processor) : Request → Processor
  | .access access => p.setMemory (p.memory.access access).2
  | .load program => p.setMemory (program.load p.memory).2
  | .perform instruction => { p with machine := (p.machine.execute instruction).machine }
  | .turn turn => (p.take turn).2
  | .run entry => p.run entry
  | .interrupt => p.interrupt
  | .replace capacity => p.setMemory (.blank capacity)

def serveAll (p : Processor) (requests : List Request) : Processor := requests.foldl serve p

variable {capacity count : Nat} {p : Processor}

theorem machine_interrupt (p : Processor) : p.interrupt.machine = p.machine := by
  cases hstate : p.state with
  | halted => rw [interrupt_of_halted hstate]
  | running =>
    rw [interrupt_of_running hstate]
    rfl

theorem bounded_run (h : p.machine.Bounded capacity count) (entry : Nat) :
    (p.run entry).machine.Bounded capacity count := by
  refine ⟨?_, (p.count_run entry).trans h.count_eq⟩
  rcases Nat.lt_or_ge entry p.memory.capacity with hlt | hge
  · rw [run_of_lt hlt]
    exact h.memory.of_slots rfl (Nat.le_of_lt hlt)
  · rw [run_of_le hge]
    exact h.memory

theorem bounded_serve (h : p.machine.Bounded capacity count) {request : Request}
    (hkept : ∀ other, request ≠ .replace other) :
    (p.serve request).machine.Bounded capacity count := by
  cases request with
  | access access => exact ⟨h.memory.access access, h.count_eq⟩
  | load program => exact ⟨h.memory.load program, h.count_eq⟩
  | perform instruction => exact h.execute instruction
  | turn turn =>
    exact take_preserves (P := fun _ now => now.1.Bounded capacity count)
      (fun _ _ tracing hnow => hnow.cycle tracing) turn [] h
  | run entry => exact bounded_run h entry
  | interrupt => exact p.machine_interrupt ▸ h
  | replace other => exact absurd rfl (hkept other)

theorem bounded_serveAll (h : p.machine.Bounded capacity count) {requests : List Request}
    (hkept : ∀ other, .replace other ∉ requests) :
    (p.serveAll requests).machine.Bounded capacity count := by
  induction requests generalizing p with
  | nil => exact h
  | cons request rest ih =>
    refine ih (bounded_serve h fun other heq => ?_) fun other hmem => ?_
    · exact hkept other (heq ▸ List.mem_cons_self)
    · exact hkept other (List.mem_cons_of_mem request hmem)

/-- The cursor stays within the memory, also if that is replaced. -/
theorem wellFormed_serve (h : p.memory.WellFormed) (request : Request) :
    (p.serve request).memory.WellFormed := by
  by_cases hreplaced : ∃ capacity, request = .replace capacity
  · obtain ⟨capacity, rfl⟩ := hreplaced
    exact Nat.zero_le _
  · have hbounded : p.machine.Bounded p.memory.capacity p.registers.count :=
      ⟨h.bounded rfl, rfl⟩
    exact (bounded_serve hbounded fun other heq => hreplaced ⟨other, heq⟩).memory.wellFormed

end Processor

end StoredProgram
