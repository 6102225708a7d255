import StoredProgram.Proofs.Provenance
import StoredProgram.Proofs.Turns

/-!
Where a run goes. It starts at its entry, and a cycle that does not fail leaves the cursor
on the slot after the one it fetched from, unless the instruction is a jump that is taken.
The instruction that counts is the one at the end of a chain of gets, in the memory as it
was before the cycle, and so are the registers: what the gets store afterwards has no say.
-/
namespace StoredProgram

/-- The cursor is where the instruction sends it, which is a slot, or where it was. -/
structure Follows (m : Machine) (leaf : Instruction) (outcome : Outcome) : Prop where
  jumps : ∀ address, Jumps m.registers leaf address →
    outcome.machine.memory.cursor = address ∧ address < m.memory.capacity
  stays : (∀ address, ¬ Jumps m.registers leaf address) →
    outcome.machine.memory.cursor = m.memory.cursor

namespace Machine

variable {m : Machine} {leaf : Instruction}

theorem not_jumps (hleaf : leaf.isJump = false) (address : Nat) :
    ¬ Jumps m.registers leaf address := by
  intro hjumps
  rw [hjumps.isJump] at hleaf
  cases hleaf

theorem follows_of_kept {outcome : Outcome} (hleaf : ∀ address, ¬ Jumps m.registers leaf address)
    (h : outcome.machine.memory.cursor = m.memory.cursor) : Follows m leaf outcome :=
  ⟨fun address hjumps => absurd hjumps (hleaf address), fun _ => h⟩

/-- An instruction other than a get that does not fail leaves the cursor where it belongs. -/
theorem follows_of_performs {outcome : Outcome} {value : Number} (h : Performs m leaf outcome)
    (hok : outcome.result = .ok value) : Follows m leaf outcome := by
  cases h with
  | jump hjumps haddress =>
    refine ⟨fun target htarget => ?_, fun hnone => absurd hjumps (hnone _)⟩
    rw [htarget.unique hjumps]
    exact ⟨rfl, haddress⟩
  | pass _ _ hstays => exact follows_of_kept hstays rfl
  | lacks => cases hok
  | _ => exact follows_of_kept (not_jumps rfl) rfl

/-- A cycle that does not halt goes on where the end of the chain of what it fetched sends
it, or else with the next slot. -/
theorem cursor_cycle {tracing : Bool} (h : (m.cycle tracing).state = .running) :
    ∃ fetched dests leaf, m.memory.slots[m.memory.cursor]? = some (some fetched) ∧
      Leads m.memory fetched dests leaf ∧ dests.length ≤ nestingLimit ∧ leaf.isGet = false ∧
      (∀ address, Jumps m.registers leaf address →
        (m.cycle tracing).machine.memory.cursor = address ∧ address < m.memory.capacity) ∧
      ((∀ address, ¬ Jumps m.registers leaf address) →
        (m.cycle tracing).machine.memory.cursor = m.memory.cursor + 1) := by
  rcases m.exhausted_or_slot with hexhausted | ⟨fetched, hslot⟩
  · rw [cycle_of_exhausted hexhausted] at h
    cases h
  · rcases cycle_of_slot hslot with ⟨value, hresult, hcycle⟩ | ⟨fault, -, hcycle⟩
    · have hadvanced : m.advanced.memory.cursor = m.memory.cursor + 1 := by
        rw [advanced, Memory.fetch_of_slot hslot]
      rcases m.advanced.execute_cases fetched with
        ⟨dests, leaf, hleads, hlength, hleaf, hexecute⟩ | ⟨_, _, _, _, _, _, _, hexecute⟩
      · refine ⟨fetched, dests, leaf, hslot, hleads.congr m.slots_advanced.symm, hlength, hleaf, ?_⟩
        rw [hcycle, ← hadvanced, ← m.capacity_advanced]
        cases hleafResult : (m.advanced.execute leaf).result with
        | error fault =>
          rw [hexecute, hleafResult] at hresult
          cases hresult
        | ok number =>
          -- what is delivered to registers does not touch the memory
          have hfollows := follows_of_performs (performs_execute hleaf m.advanced) hleafResult
          rw [hexecute, hleafResult]
          exact ⟨hfollows.jumps, hfollows.stays⟩
      · rw [hexecute] at hresult
        cases hresult
    · rw [hcycle] at h
      cases h

end Machine

namespace Processor

variable {p : Processor}

theorem wellFormed_afterSteps {entry : Nat} (h : entry < p.memory.capacity) (count : Nat) :
    (p.afterSteps entry count).memory.WellFormed := by
  apply iterate_step_preserves (P := fun m => m.memory.WellFormed)
  · intro m tracing hm
    exact Machine.wellFormed_cycle hm tracing
  · rw [run_of_lt h]
    exact Nat.le_of_lt h

theorem afterSteps_succ {entry count : Nat} (h : (p.afterSteps entry count).state = .running) :
    (p.afterSteps entry (count + 1)).machine =
        ((p.afterSteps entry count).machine.cycle (p.afterSteps entry count).tracing).machine ∧
      (p.afterSteps entry (count + 1)).state =
        ((p.afterSteps entry count).machine.cycle (p.afterSteps entry count).tracing).state := by
  unfold afterSteps at *
  rw [Function.iterate_succ_apply', step_of_running h]
  exact ⟨rfl, rfl⟩

/-- A run starts at its entry. After a step that did not fail it goes on where the end of
the chain of what was fetched sends it, by the memory and the registers before that step,
and that is a slot; if it sends it nowhere, with the next slot. The cursor never is beyond
the end of the memory, and a host that lets the run go on in any other way finds it where
some number of steps leads. -/
theorem run_follows_jumps (p : Processor) (entry : Nat) (hentry : entry < p.memory.capacity) :
    ((p.afterSteps entry 0).state = .running ∧ (p.afterSteps entry 0).memory.cursor = entry) ∧
    (∀ count, (p.afterSteps entry count).memory.cursor ≤ p.memory.capacity) ∧
    (∀ count, (p.afterSteps entry count).state = .running →
      (p.afterSteps entry (count + 1)).state = .running →
      ∃ fetched dests leaf,
        (p.afterSteps entry count).memory.slots[(p.afterSteps entry count).memory.cursor]? =
          some (some fetched) ∧
        Leads (p.afterSteps entry count).memory fetched dests leaf ∧ dests.length ≤ 64 ∧
        leaf.isGet = false ∧
        (∀ address, Jumps (p.afterSteps entry count).registers leaf address →
          (p.afterSteps entry (count + 1)).memory.cursor = address ∧
            address < p.memory.capacity) ∧
        ((∀ address, ¬ Jumps (p.afterSteps entry count).registers leaf address) →
          (p.afterSteps entry (count + 1)).memory.cursor =
            (p.afterSteps entry count).memory.cursor + 1)) ∧
    ∀ turns : List Turn, ∃ count,
      ((p.run entry).takeAll turns).2.machine = (p.afterSteps entry count).machine ∧
        ((p.run entry).takeAll turns).2.state = (p.afterSteps entry count).state := by
  refine ⟨?_, ?_, ?_, ?_⟩
  · rw [afterSteps, Function.iterate_zero_apply, run_of_lt hentry]
    exact ⟨rfl, rfl⟩
  · intro count
    rw [← p.capacity_afterSteps entry count]
    exact wellFormed_afterSteps hentry count
  · intro count hbefore hafter
    obtain ⟨hmachine, hstate⟩ := afterSteps_succ hbefore
    rw [hstate] at hafter
    have hcapacity := p.capacity_afterSteps entry count
    simp only [memory] at hcapacity ⊢
    rw [hmachine, ← hcapacity]
    exact Machine.cursor_cycle hafter
  · intro turns
    exact (p.run entry).reaches_takeAll turns

/-- A get leads to a jump that is taken, and the register that decides it is overwritten by
the get, as is the slot that the program started at. -/
def hopping : Processor :=
  .new ⟨#[some (.load .one 0), some (.get 4 0), none, some (.put 0 0), some (.nzgoto 0 3)], 0⟩ 1

theorem hopping_jumps :
    0 < hopping.memory.capacity ∧ (hopping.afterSteps 0 1).state = .running ∧
      (hopping.afterSteps 0 2).state = .running ∧
      (hopping.afterSteps 0 1).memory.cursor = 1 ∧
      Leads (hopping.afterSteps 0 1).memory (.get 4 0) [0] (.nzgoto 0 3) ∧
      Jumps (hopping.afterSteps 0 1).registers (.nzgoto 0 3) 3 ∧
      (hopping.afterSteps 0 2).memory.cursor = 3 := by
  have hrunning : (hopping.afterSteps 0 1).state = .running := by decide
  have hlater : (hopping.afterSteps 0 2).state = .running := by decide
  have hjumps : Jumps (hopping.afterSteps 0 1).registers (.nzgoto 0 3) 3 :=
    Jumps.nzgoto (show _ = some Number.one by decide) (by decide)
  refine ⟨by decide, hrunning, hlater, by decide, Leads.link rfl (Leads.here _), hjumps, ?_⟩
  obtain ⟨fetched, dests, leaf, hslot, hleads, -, hleaf, htaken, -⟩ :=
    (run_follows_jumps hopping 0 (by decide)).2.2.1 1 hrunning hlater
  obtain rfl : Instruction.get 4 0 = fetched := Option.some.inj (Option.some.inj hslot)
  rcases hleads with _ | ⟨hfound, hrest⟩
  · cases hleaf
  · obtain rfl : Instruction.nzgoto 0 3 = _ := Option.some.inj (Option.some.inj hfound)
    rcases hrest with _ | _
    exact (htaken 3 hjumps).1

end Processor

end StoredProgram
