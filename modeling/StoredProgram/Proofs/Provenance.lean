import Mathlib.Data.Nat.Init
import StoredProgram.Proofs.Cycle

/-!
Where the content of memory comes from. A program can change itself, but only by puts:
after any number of steps a slot holds what it held when the run started, or else the
number that the last put to it found in its register. A put counts whether it was fetched
or stood at the end of a chain of gets, and also if a get of that chain failed after it.
-/
namespace StoredProgram

theorem Leads.congr {memory other : Memory} {first last : Instruction} {dests : List Nat}
    (h : Leads memory first dests last) (hslots : other.slots = memory.slots) :
    Leads other first dests last := by
  induction h with
  | here instruction => exact Leads.here instruction
  | link hslot hrest ih => exact Leads.link (by rw [hslots, hslot]) ih

namespace Machine

/-- The next cycle carries out a put to the address: the instruction that is fetched is a
put or leads to one, and the register and the slot that it names exist. The number is
the one in that register. -/
def Stores (m : Machine) (address : Nat) (value : Number) : Prop :=
  ∃ fetched dests source,
    m.memory.slots[m.memory.cursor]? = some (some fetched) ∧
      Leads m.memory fetched dests (.put source address) ∧ dests.length ≤ nestingLimit ∧
      m.registers.values[source]? = some value ∧ address < m.memory.capacity

theorem execute_put {m : Machine} {source address : Nat} {value : Number}
    (hsource : m.registers.values[source]? = some value)
    (haddress : address < m.memory.capacity) :
    m.execute (.put source address) =
      ⟨.ok value,
        { m with
          memory :=
            { m.memory with
              slots := m.memory.slots.setIfInBounds address (some (.data value)) } },
        [], [.rewritten address value]⟩ := by
  exact executeWithin_of_perform (w := ⟨_, [], [.rewritten address value]⟩)
    (Action.bind_of_ok (Action.read_of_some hsource)
      (Action.bind_of_ok (Action.onMemory_of_eq (Memory.put_of_lt haddress _)) rfl))

/-- A put at the end of a chain is done, whatever becomes of the gets before it. -/
theorem memory_execute_of_put {m : Machine} {first : Instruction} {dests : List Nat}
    {source address : Nat} {value : Number}
    (hleads : Leads m.memory first dests (.put source address))
    (hlength : dests.length ≤ nestingLimit)
    (hsource : m.registers.values[source]? = some value)
    (haddress : address < m.memory.capacity) :
    (m.execute first).machine.memory =
      { m.memory with
        slots := m.memory.slots.setIfInBounds address (some (.data value)) } := by
  rw [execute_of_leads_leaf hleads hlength rfl, execute_put hsource haddress]
  rfl

theorem slots_cycle_of_stores {m : Machine} {address : Nat} {value : Number}
    (h : m.Stores address value) (tracing : Bool) :
    (m.cycle tracing).machine.memory.slots =
      m.memory.slots.setIfInBounds address (some (.data value)) := by
  obtain ⟨fetched, dests, source, hslot, hleads, hlength, hsource, haddress⟩ := h
  have hinside : address < m.advanced.memory.capacity := by rwa [capacity_advanced]
  rw [machine_cycle_of_slot hslot,
    memory_execute_of_put (hleads.congr m.slots_advanced) hlength hsource hinside]
  exact congrArg (fun slots => Array.setIfInBounds slots address _) m.slots_advanced

theorem slots_cycle_cases (m : Machine) (tracing : Bool) :
    (m.cycle tracing).machine.memory.slots = m.memory.slots ∨
      ∃ address value, m.Stores address value := by
  rcases m.outcomeAfter_cycle tracing with hsame | ⟨fetched, hslot, hafter, hmachine⟩
  · exact Or.inl (by rw [hsame, slots_advanced])
  · rw [hmachine]
    rcases hafter.memory.slots_cases with
      hkept | ⟨dests, source, address, value, hleads, hlength, hsource, haddress⟩
    · exact Or.inl (hkept.trans m.slots_advanced)
    · rw [capacity_advanced] at haddress
      exact Or.inr ⟨address, value, fetched, dests, source, hslot,
        hleads.congr m.slots_advanced.symm, hlength, hsource, haddress⟩

theorem slot_cycle_of_stores {m : Machine} {address : Nat} {value : Number}
    (h : m.Stores address value) (tracing : Bool) :
    (m.cycle tracing).machine.memory.slots[address]? = some (some (.data value)) := by
  rw [slots_cycle_of_stores h]
  obtain ⟨-, -, -, -, -, -, -, haddress⟩ := h
  exact Array.getElem?_setIfInBounds_self_of_lt haddress

theorem slot_cycle_of_not_stores {m : Machine} {address : Nat}
    (h : ∀ value, ¬ m.Stores address value) (tracing : Bool) :
    (m.cycle tracing).machine.memory.slots[address]? = m.memory.slots[address]? := by
  rcases m.slots_cycle_cases tracing with hsame | ⟨other, value, hstores⟩
  · rw [hsame]
  · have hne : other ≠ address := by
      rintro rfl
      exact h value hstores
    rw [slots_cycle_of_stores hstores]
    exact Array.getElem?_setIfInBounds_ne hne

/-- What is traced is what was under the cursor. -/
theorem slot_of_trace_mem_cycle {m : Machine} {tracing : Bool} {address : Nat}
    {instruction : Instruction} (h : .trace address instruction ∈ (m.cycle tracing).events) :
    m.memory.slots[address]? = some (some instruction) := by
  rcases m.exhausted_or_slot with hexhausted | ⟨fetched, hslot⟩
  · simp [cycle_of_exhausted hexhausted] at h
  · have hmem : .trace address instruction ∈ m.reported tracing fetched := by
      rcases cycle_of_slot hslot with ⟨_, -, hcycle⟩ | ⟨_, -, hcycle⟩
      · simpa [hcycle] using h
      · simpa [hcycle] using h
    cases tracing with
    | false => simp [reported] at hmem
    | true =>
      obtain ⟨rfl, rfl⟩ : address = m.memory.cursor ∧ instruction = fetched := by
        simpa [reported] using hmem
      exact hslot

/-- A get of a slot that holds a number yields the number. -/
theorem executeWithin_get_of_data {m : Machine} {address dest : Nat} {value : Number}
    (hslot : m.memory.slots[address]? = some (some (.data value)))
    (hdest : dest < m.registers.count) (depth : Nat) :
    m.executeWithin (depth + 1) (.get address dest) =
      ⟨.ok value, { m with registers := ⟨m.registers.values.setIfInBounds dest value⟩ },
        [], []⟩ := by
  have hdata : m.executeWithin depth (.data value) = ⟨.ok value, m, [], []⟩ :=
    executeWithin_of_not_get rfl m depth
  rw [executeWithin_get_of_some hslot, hdata]
  exact Outcome.storeIn_of_lt rfl hdest

end Machine

namespace Processor

/-- The step that follows the first `count` carries out a put to the address. -/
def StoresAt (p : Processor) (count address : Nat) (value : Number) : Prop :=
  (step^[count] p).state = .running ∧ (step^[count] p).machine.Stores address value

/-- The last put to the address in the first `count` steps stored the number. -/
def LastStored (p : Processor) (count address : Nat) (value : Number) : Prop :=
  ∃ k < count, p.StoresAt k address value ∧
    ∀ j, k < j → j < count → ∀ later, ¬ p.StoresAt j address later

variable {p : Processor} {address : Nat}

theorem slot_after_storesAt {count : Nat} {value : Number} (h : p.StoresAt count address value) :
    (step^[count + 1] p).memory.slots[address]? = some (some (.data value)) := by
  obtain ⟨hstate, hstores⟩ := h
  rw [Function.iterate_succ_apply', step_of_running hstate]
  exact Machine.slot_cycle_of_stores hstores _

theorem slot_after_not_storesAt {count : Nat} (h : ∀ value, ¬ p.StoresAt count address value) :
    (step^[count + 1] p).memory.slots[address]? = (step^[count] p).memory.slots[address]? := by
  rw [Function.iterate_succ_apply']
  cases hstate : (step^[count] p).state with
  | halted => rw [step_of_halted hstate]
  | running =>
    rw [step_of_running hstate]
    exact Machine.slot_cycle_of_not_stores (fun value hstores => h value ⟨hstate, hstores⟩) _

/-- A slot keeps its content over steps that put nothing there. -/
theorem slot_of_no_put {first count : Nat} (hle : first ≤ count)
    (h : ∀ k, first ≤ k → k < count → ∀ value, ¬ p.StoresAt k address value) :
    (step^[count] p).memory.slots[address]? = (step^[first] p).memory.slots[address]? := by
  induction count, hle using Nat.le_induction with
  | base => rfl
  | succ count hle ih =>
    rw [slot_after_not_storesAt (h count hle (Nat.lt_succ_self count))]
    exact ih fun k hfirst hk => h k hfirst (Nat.lt_succ_of_lt hk)

theorem slot_of_lastStored {count : Nat} {value : Number}
    (h : p.LastStored count address value) :
    (step^[count] p).memory.slots[address]? = some (some (.data value)) := by
  obtain ⟨k, hk, hstores, hlast⟩ := h
  rw [slot_of_no_put hk fun j hj => hlast j hj]
  exact slot_after_storesAt hstores

/-- Either nothing was put to an address or there was a last put. -/
theorem no_put_or_lastStored (p : Processor) (address count : Nat) :
    (∀ k < count, ∀ value, ¬ p.StoresAt k address value) ∨
      ∃ value, p.LastStored count address value := by
  induction count with
  | zero => exact Or.inl fun k hk => absurd hk (Nat.not_lt_zero k)
  | succ count ih =>
    by_cases hnow : ∃ value, p.StoresAt count address value
    · obtain ⟨value, hstores⟩ := hnow
      exact Or.inr ⟨value, count, Nat.lt_succ_self count, hstores,
        fun j hj hj' => absurd hj' (by omega)⟩
    · have hquiet : ∀ value, ¬ p.StoresAt count address value := fun value hstores =>
        hnow ⟨value, hstores⟩
      rcases ih with hnone | ⟨value, k, hk, hstores, hlast⟩
      · refine Or.inl fun k hk => ?_
        rcases Nat.lt_succ_iff_lt_or_eq.mp hk with hlt | rfl
        · exact hnone k hlt
        · exact hquiet
      · refine Or.inr ⟨value, k, Nat.lt_succ_of_lt hk, hstores, fun j hj hj' => ?_⟩
        rcases Nat.lt_succ_iff_lt_or_eq.mp hj' with hlt | rfl
        · exact hlast j hj hlt
        · exact hquiet

/-- A slot changes into a number or not at all. -/
theorem slot_kept_or_data (p : Processor) (address : Nat) {first count : Nat}
    (hle : first ≤ count) :
    (step^[count] p).memory.slots[address]? = (step^[first] p).memory.slots[address]? ∨
      ∃ value, (step^[count] p).memory.slots[address]? = some (some (.data value)) := by
  induction count, hle using Nat.le_induction with
  | base => exact Or.inl rfl
  | succ count hle ih =>
    by_cases hnow : ∃ value, p.StoresAt count address value
    · obtain ⟨value, hstores⟩ := hnow
      exact Or.inr ⟨value, slot_after_storesAt hstores⟩
    · rw [slot_after_not_storesAt fun value hstores => hnow ⟨value, hstores⟩]
      exact ih

theorem trace_not_mem_run (p : Processor) (entry address : Nat) (instruction : Instruction) :
    .trace address instruction ∉ (p.run entry).events := by
  rcases Nat.lt_or_ge entry p.memory.capacity with hlt | hge
  · simp [run_of_lt hlt]
  · simp [run_of_le hge]

/-- What is traced stood in its slot at an earlier step. -/
theorem slot_of_trace_mem {count : Nat} {instruction : Instruction}
    (hstart : .trace address instruction ∉ p.events)
    (h : .trace address instruction ∈ (step^[count] p).events) :
    ∃ k < count, (step^[k] p).memory.slots[address]? = some (some instruction) := by
  induction count with
  | zero => exact absurd h hstart
  | succ count ih =>
    rw [Function.iterate_succ_apply'] at h
    cases hstate : (step^[count] p).state with
    | halted =>
      rw [step_of_halted hstate] at h
      obtain ⟨k, hk, hslot⟩ := ih h
      exact ⟨k, Nat.lt_succ_of_lt hk, hslot⟩
    | running =>
      rw [step_of_running hstate] at h
      rcases List.mem_append.mp h with hold | hnew
      · obtain ⟨k, hk, hslot⟩ := ih hold
        exact ⟨k, Nat.lt_succ_of_lt hk, hslot⟩
      · exact ⟨count, Nat.lt_succ_self count, Machine.slot_of_trace_mem_cycle hnew⟩

/-- After any number of steps of a run, each slot holds what it held at the start, if no
put to it was carried out, or the number that the last one stored. No slot is emptied or
gets anything but a number, nothing else is ever traced, and a get of a slot that was
written yields what was put there. -/
theorem run_changes_slots_by_puts_only (p : Processor) (entry count : Nat) :
    (p.afterSteps entry count).memory.capacity = p.memory.capacity ∧
    (∀ address, (∀ k < count, ∀ value, ¬ (p.run entry).StoresAt k address value) →
      (p.afterSteps entry count).memory.slots[address]? = p.memory.slots[address]?) ∧
    (∀ address value, (p.run entry).LastStored count address value →
      (p.afterSteps entry count).memory.slots[address]? = some (some (.data value)) ∧
      ∀ (m : Machine) (depth dest : Nat),
        m.memory.slots = (p.afterSteps entry count).memory.slots → dest < m.registers.count →
        (m.executeWithin (depth + 1) (.get address dest)).result = .ok value ∧
          (m.executeWithin (depth + 1) (.get address dest)).machine.registers.read dest =
            .ok value) ∧
    (∀ address, (∀ k < count, ∀ value, ¬ (p.run entry).StoresAt k address value) ∨
      ∃ value, (p.run entry).LastStored count address value) ∧
    (∀ address first : Nat, first ≤ count →
      ((p.afterSteps entry first).memory.slots[address]? ≠ some none →
        (p.afterSteps entry count).memory.slots[address]? ≠ some none) ∧
      ((p.afterSteps entry count).memory.slots[address]? =
          (p.afterSteps entry first).memory.slots[address]? ∨
        ∃ value, (p.afterSteps entry count).memory.slots[address]? =
          some (some (.data value)))) ∧
    ∀ (address : Nat) (instruction : Instruction),
      .trace address instruction ∈ (p.afterSteps entry count).events →
      p.memory.slots[address]? = some (some instruction) ∨ ∃ value, instruction = .data value := by
  unfold afterSteps
  refine ⟨p.capacity_afterSteps entry count, ?_, ?_, ?_, ?_, ?_⟩
  · intro address hnone
    rw [slot_of_no_put (Nat.zero_le count) fun k _ hk => hnone k hk]
    exact congrArg (fun slots : Array (Option Instruction) => slots[address]?) (p.slots_run entry)
  · intro address value hlast
    have hslot := slot_of_lastStored hlast
    refine ⟨hslot, fun m depth dest hslots hdest => ?_⟩
    rw [← hslots] at hslot
    rw [Machine.executeWithin_get_of_data hslot hdest]
    refine ⟨rfl, ?_⟩
    simp [Registers.read, Array.getElem?_setIfInBounds_self_of_lt hdest]
  · intro address
    exact no_put_or_lastStored _ address count
  · intro address first hfirst
    have hcases := slot_kept_or_data (p.run entry) address hfirst
    refine ⟨fun hfull => ?_, hcases⟩
    rcases hcases with hsame | ⟨value, hdata⟩
    · rwa [hsame]
    · simp [hdata]
  · intro address instruction htrace
    obtain ⟨k, -, hslot⟩ := slot_of_trace_mem (p.trace_not_mem_run entry address instruction) htrace
    rcases slot_kept_or_data (p.run entry) address (Nat.zero_le k) with hsame | ⟨value, hdata⟩
    · have hstart : (p.run entry).memory.slots[address]? = some (some instruction) :=
        hsame.symm.trans hslot
      rw [slots_run] at hstart
      exact Or.inl hstart
    · rw [hdata] at hslot
      exact Or.inr ⟨value, (Option.some.inj (Option.some.inj hslot)).symm⟩

/-- A get that leads to a put and then fails, as its own register does not exist. -/
def rewriting : Processor :=
  .new ⟨#[some (.load .one 0), some (.get 3 9), none, some (.put 0 4), some (.goto 0)], 0⟩ 2

theorem slots_of_rewriting :
    ((rewriting.run 0).LastStored 3 4 .one ∧
      (rewriting.afterSteps 0 3).memory.slots[4]? = some (some (.data .one)) ∧
      ((rewriting.afterSteps 0 3).machine.execute (.get 4 1)).result = .ok .one) ∧
    ((∀ k < 3, ∀ value, ¬ (rewriting.run 0).StoresAt k 2 value) ∧
      (rewriting.afterSteps 0 3).memory.slots[2]? = some none) ∧
    ((rewriting.afterSteps 0 0).memory.slots[4]? ≠ some none ∧
      (rewriting.afterSteps 0 3).memory.slots[4]? ≠ some none) ∧
    (.trace 1 (.get 3 9) ∈ (rewriting.afterSteps 0 3).events ∧
      (rewriting.memory.slots[1]? = some (some (.get 3 9)) ∨
        ∃ value, Instruction.get 3 9 = .data value)) := by
  obtain ⟨-, hkept, hwritten, -, hfilled, htraced⟩ := run_changes_slots_by_puts_only rewriting 0 3
  have hlast : (rewriting.run 0).LastStored 3 4 .one := by
    refine ⟨1, by decide, ⟨by decide, .get 3 9, [9], 0, rfl, ?_, by decide, rfl, by decide⟩, ?_⟩
    · exact Leads.link rfl (Leads.here _)
    · rintro j hj hj' later ⟨hrunning, -⟩
      obtain rfl : j = 2 := by omega
      exact absurd hrunning (by decide)
  have hempty : ∀ k < 3, (step^[k + 1] (rewriting.run 0)).memory.slots[2]? = some none := by
    decide
  have hnone : ∀ k < 3, ∀ value, ¬ (rewriting.run 0).StoresAt k 2 value := by
    intro k hk value hstores
    have hdata := slot_after_storesAt hstores
    rw [hempty k hk] at hdata
    cases hdata
  have hstart : (rewriting.afterSteps 0 0).memory.slots[4]? ≠ some none := by decide
  have htrace : .trace 1 (.get 3 9) ∈ (rewriting.afterSteps 0 3).events := by decide
  obtain ⟨hslot, hget⟩ := hwritten 4 .one hlast
  exact ⟨⟨hlast, hslot, (hget _ 63 1 rfl (by decide)).1⟩, ⟨hnone, hkept 2 hnone⟩,
    ⟨hstart, (hfilled 4 0 (by decide)).1 hstart⟩, htrace, htraced 1 _ htrace⟩

end Processor

end StoredProgram
