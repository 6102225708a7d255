import Mathlib.Logic.Function.Iterate
import StoredProgram.Proofs.GetChains
import StoredProgram.Proofs.HostCalls

/-!
One cycle. What an instruction can lead to is said here once: it leaves the memory as it
is, moves the cursor to a slot, or stores a number in a slot, and the last only if it is a
put or leads to one through gets. A cycle finds nothing to execute,
executes an instruction that yields a number, or executes one that fails. Tracing adds
an event to a cycle and changes nothing else.
-/
namespace StoredProgram

/-- What the memory can be after an instruction is executed. -/
inductive MemoryAfter (m : Machine) (first : Instruction) : Memory → Prop
  | kept : MemoryAfter m first m.memory
  | moved {address : Nat} (haddress : address < m.memory.capacity) :
      MemoryAfter m first { m.memory with cursor := address }
  | stored {dests : List Nat} {source address : Nat} {value : Number}
      (hleads : Leads m.memory first dests (.put source address))
      (hlength : dests.length ≤ Machine.nestingLimit)
      (hsource : m.registers.values[source]? = some value)
      (haddress : address < m.memory.capacity) :
      MemoryAfter m first
        { m.memory with slots := m.memory.slots.setIfInBounds address (some (.data value)) }

/-- What executing an instruction can lead to. The number of registers stays, at most one line
is printed, and only puts are logged. -/
structure OutcomeAfter (m : Machine) (first : Instruction) (outcome : Outcome) : Prop where
  memory : MemoryAfter m first outcome.machine.memory
  count_eq : outcome.machine.registers.count = m.registers.count
  printed : ∃ line, outcome.printed = Option.toList line
  log : ∀ record ∈ outcome.log, record.level = .tracing

namespace OutcomeAfter

variable {m : Machine} {first leaf : Instruction} {dests : List Nat} {outcome : Outcome}

theorem fail (m : Machine) (first : Instruction) (fault : Fault) :
    OutcomeAfter m first (m.fail fault) :=
  ⟨MemoryAfter.kept, rfl, ⟨none, rfl⟩, by simp [Machine.fail]⟩

theorem of_performs (h : Performs m leaf outcome) (hleads : Leads m.memory first dests leaf)
    (hlength : dests.length ≤ Machine.nestingLimit) : OutcomeAfter m first outcome where
  memory := by
    cases h with
    | put hsource haddress => exact MemoryAfter.stored hleads hlength hsource haddress
    | jump hjumps haddress => exact MemoryAfter.moved haddress
    | _ => exact MemoryAfter.kept
  count_eq := by
    cases h with
    | load | arithmetic => exact Array.size_setIfInBounds
    | _ => rfl
  printed := h.printed
  log := h.log

theorem deliver (h : OutcomeAfter m first outcome) (value : Number) (dests : List Nat) :
    OutcomeAfter m first (outcome.deliver value dests) := by
  have hcount : ∀ (written : List Nat) (values : Array Number),
      (written.foldl (fun values dest => values.setIfInBounds dest value) values).size =
        values.size := by
    intro written
    induction written with
    | nil => exact fun values => rfl
    | cons dest rest ih =>
      intro values
      rw [List.foldl_cons, ih, Array.size_setIfInBounds]
  exact ⟨h.memory, (hcount _ _).trans h.count_eq, h.printed, h.log⟩

end OutcomeAfter

theorem Machine.outcomeAfter_execute (m : Machine) (first : Instruction) :
    OutcomeAfter m first (m.execute first) := by
  rcases m.execute_cases first with
    ⟨dests, leaf, hleads, hlength, hleaf, hexecute⟩ | ⟨_, _, _, fault, -, -, -, hexecute⟩
  · have hafter := OutcomeAfter.of_performs (performs_execute hleaf m) hleads hlength
    rw [hexecute]
    cases (m.execute leaf).result with
    | error fault => exact OutcomeAfter.fail m first fault
    | ok value => exact hafter.deliver value dests.reverse
  · rw [hexecute]
    exact OutcomeAfter.fail m first fault

namespace Memory

/-- The cursor is an address or the capacity. -/
def WellFormed (m : Memory) : Prop := m.cursor ≤ m.capacity

theorem fetch_of_slot {m : Memory} {slot : Option Instruction}
    (h : m.slots[m.cursor]? = some slot) : m.fetch = (slot, { m with cursor := m.cursor + 1 }) := by
  simp only [fetch, h]

theorem fetch_of_le {m : Memory} (h : m.capacity ≤ m.cursor) : m.fetch = (none, m) := by
  simp only [fetch, Array.getElem?_eq_none h]

@[simp] theorem slots_fetch (m : Memory) : m.fetch.2.slots = m.slots := by
  unfold fetch
  split <;> rfl

theorem WellFormed.fetch {m : Memory} (h : m.WellFormed) : m.fetch.2.WellFormed := by
  by_cases hcursor : m.cursor < m.capacity
  · rw [fetch_of_slot (Array.getElem?_eq_getElem hcursor)]
    exact hcursor
  · rw [fetch_of_le (Nat.not_lt.mp hcursor)]
    exact h

end Memory

namespace MemoryAfter

variable {m : Machine} {first : Instruction} {memory : Memory}

theorem capacity_eq (h : MemoryAfter m first memory) :
    memory.capacity = m.memory.capacity := by
  cases h with
  | kept => rfl
  | moved => rfl
  | stored => exact Array.size_setIfInBounds

theorem wellFormed (h : MemoryAfter m first memory) (hm : m.memory.WellFormed) :
    memory.WellFormed := by
  cases h with
  | kept => exact hm
  | moved haddress => exact Nat.le_of_lt haddress
  | stored =>
    unfold Memory.WellFormed Memory.capacity
    rw [Array.size_setIfInBounds]
    exact hm

/-- Slots change by a put alone. -/
theorem slots_cases (h : MemoryAfter m first memory) :
    memory.slots = m.memory.slots ∨
      ∃ dests source address value, Leads m.memory first dests (.put source address) ∧
        dests.length ≤ Machine.nestingLimit ∧ m.registers.values[source]? = some value ∧
        address < m.memory.capacity := by
  cases h with
  | kept => exact Or.inl rfl
  | moved => exact Or.inl rfl
  | stored hleads hlength hsource haddress =>
    exact Or.inr ⟨_, _, _, _, hleads, hlength, hsource, haddress⟩

end MemoryAfter

def Event.isTrace : Event → Bool
  | trace _ _ => true
  | print _ | fault _ | finished => false

/-- The events that do not depend on tracing. -/
def visible (events : List Event) : List Event := events.filter fun event => !event.isTrace

theorem visible_append (first second : List Event) :
    visible (first ++ second) = visible first ++ visible second :=
  List.filter_append ..

namespace Machine

/-- The machine with the cursor moved past the slot that is fetched. -/
def advanced (m : Machine) : Machine := { m with memory := m.memory.fetch.2 }

@[simp] theorem slots_advanced (m : Machine) : m.advanced.memory.slots = m.memory.slots :=
  m.memory.slots_fetch

@[simp] theorem capacity_advanced (m : Machine) :
    m.advanced.memory.capacity = m.memory.capacity :=
  congrArg Array.size m.slots_advanced

/-- No instruction is left to fetch: the cursor is at the end, or the slot under it is
empty. -/
def Exhausted (m : Machine) : Prop :=
  m.memory.capacity ≤ m.memory.cursor ∨ m.memory.slots[m.memory.cursor]? = some none

/-- The events of a cycle that executes an instruction, but for a fault. -/
def reported (m : Machine) (tracing : Bool) (fetched : Instruction) : List Event :=
  (if tracing then [.trace m.memory.cursor fetched] else []) ++
    (m.advanced.execute fetched).printed.map .print

theorem cycle_of_exhausted {m : Machine} (h : m.Exhausted) (tracing : Bool) :
    m.cycle tracing =
      ⟨m.advanced, [.finished], [.exhausted m.advanced.memory.cursor], .halted⟩ := by
  rcases h with hout | hempty
  · simp only [cycle, advanced, Memory.fetch_of_le hout]
  · simp only [cycle, advanced, Memory.fetch_of_slot hempty]

/-- A cycle that finds an instruction goes by what executing it leads to. -/
theorem cycle_of_slot {m : Machine} {fetched : Instruction}
    (hslot : m.memory.slots[m.memory.cursor]? = some (some fetched)) :
    (∃ value, (m.advanced.execute fetched).result = .ok value ∧
      ∀ tracing, m.cycle tracing =
        ⟨(m.advanced.execute fetched).machine, m.reported tracing fetched,
          (m.advanced.execute fetched).log, .running⟩) ∨
    ∃ fault, (m.advanced.execute fetched).result = .error fault ∧
      ∀ tracing, m.cycle tracing =
        ⟨(m.advanced.execute fetched).machine,
          m.reported tracing fetched ++ [.fault (fault.locate m.memory.cursor)],
          (m.advanced.execute fetched).log ++ [.aborted (fault.locate m.memory.cursor)],
          .halted⟩ := by
  have hfetch : m.memory.fetch.1 = some fetched := by rw [Memory.fetch_of_slot hslot]
  cases hresult : (m.advanced.execute fetched).result with
  | ok value =>
    refine Or.inl ⟨value, rfl, fun tracing => ?_⟩
    simp only [cycle, hfetch]
    rw [advanced] at hresult
    simp only [hresult, reported, advanced]
  | error fault =>
    refine Or.inr ⟨fault, rfl, fun tracing => ?_⟩
    simp only [cycle, hfetch]
    rw [advanced] at hresult
    simp only [hresult, reported, advanced]

theorem exhausted_or_slot (m : Machine) :
    m.Exhausted ∨ ∃ fetched, m.memory.slots[m.memory.cursor]? = some (some fetched) := by
  rcases slot_cases m.memory m.memory.cursor with hout | hempty | hslot
  · exact Or.inl (Or.inl hout)
  · exact Or.inl (Or.inr hempty)
  · exact Or.inr hslot

theorem visible_reported (m : Machine) (tracing : Bool) (fetched : Instruction) :
    visible (m.reported tracing fetched) = m.reported false fetched := by
  have hprinted : ∀ lines : List String, visible (lines.map .print) = lines.map .print := by
    intro lines
    rw [visible, List.filter_eq_self]
    simp [Event.isTrace]
  cases tracing with
  | false => exact hprinted _
  | true => exact hprinted _

/-- Without tracing a cycle is the same but for the event that shows the instruction. -/
theorem cycle_untraced (m : Machine) (tracing : Bool) :
    m.cycle false = { m.cycle tracing with events := visible (m.cycle tracing).events } := by
  rcases m.exhausted_or_slot with hexhausted | ⟨fetched, hslot⟩
  · rw [cycle_of_exhausted hexhausted, cycle_of_exhausted hexhausted]
    rfl
  · rcases cycle_of_slot hslot with ⟨_, -, hcycle⟩ | ⟨_, -, hcycle⟩
    · rw [hcycle, hcycle, visible_reported]
    · rw [hcycle, hcycle, visible_append, visible_reported]
      rfl

theorem machine_cycle_of_slot {m : Machine} {fetched : Instruction}
    (hslot : m.memory.slots[m.memory.cursor]? = some (some fetched)) (tracing : Bool) :
    (m.cycle tracing).machine = (m.advanced.execute fetched).machine := by
  rcases cycle_of_slot hslot with ⟨_, -, hcycle⟩ | ⟨_, -, hcycle⟩
  · rw [hcycle]
  · rw [hcycle]

/-- A cycle does to the machine what an instruction can do, or nothing beyond fetching. -/
theorem outcomeAfter_cycle (m : Machine) (tracing : Bool) :
    (m.cycle tracing).machine = m.advanced ∨
      ∃ fetched, m.memory.slots[m.memory.cursor]? = some (some fetched) ∧
        OutcomeAfter m.advanced fetched (m.advanced.execute fetched) ∧
        (m.cycle tracing).machine = (m.advanced.execute fetched).machine := by
  rcases m.exhausted_or_slot with hexhausted | ⟨fetched, hslot⟩
  · exact Or.inl (by rw [cycle_of_exhausted hexhausted])
  · exact Or.inr ⟨fetched, hslot, m.advanced.outcomeAfter_execute fetched,
      machine_cycle_of_slot hslot tracing⟩

theorem capacity_cycle (m : Machine) (tracing : Bool) :
    (m.cycle tracing).machine.memory.capacity = m.memory.capacity := by
  rcases m.outcomeAfter_cycle tracing with hsame | ⟨_, -, hafter, hmachine⟩
  · rw [hsame, capacity_advanced]
  · rw [hmachine, hafter.memory.capacity_eq, capacity_advanced]

theorem wellFormed_cycle {m : Machine} (h : m.memory.WellFormed) (tracing : Bool) :
    (m.cycle tracing).machine.memory.WellFormed := by
  have hfetch : m.advanced.memory.WellFormed := h.fetch
  rcases m.outcomeAfter_cycle tracing with hsame | ⟨_, -, hafter, hmachine⟩
  · rw [hsame]
    exact hfetch
  · rw [hmachine]
    exact hafter.memory.wellFormed hfetch

theorem count_cycle (m : Machine) (tracing : Bool) :
    (m.cycle tracing).machine.registers.count = m.registers.count := by
  rcases m.outcomeAfter_cycle tracing with hsame | ⟨_, -, hafter, hmachine⟩
  · rw [hsame]
    rfl
  · rw [hmachine]
    exact hafter.count_eq

end Machine

namespace Processor

theorem run_of_lt {p : Processor} {entry : Nat} (h : entry < p.memory.capacity) :
    p.run entry =
      { p with
        machine := ⟨{ p.memory with cursor := entry }, p.registers.cleared⟩
        state := .running
        events := []
        log := p.log ++ [Record.started entry] } := by
  simp only [run, Memory.seek_of_lt h]
  rfl

theorem run_of_le {p : Processor} {entry : Nat} (h : p.memory.capacity ≤ entry) :
    p.run entry =
      { p with
        machine := ⟨p.memory, p.registers.cleared⟩
        state := .halted
        events := [.fault (Memory.outOfBounds entry)]
        log := p.log ++ [Record.aborted (Memory.outOfBounds entry)] } := by
  simp only [run, Memory.seek_of_le h]
  rfl

/-- What a cycle keeps of the machine is kept by steps. -/
theorem iterate_step_preserves {P : Machine → Prop}
    (hcycle : ∀ m tracing, P m → P (m.cycle tracing).machine) {p : Processor} (h : P p.machine)
    (count : Nat) : P (step^[count] p).machine := by
  induction count with
  | zero => exact h
  | succ count ih =>
    rw [Function.iterate_succ_apply']
    cases hstate : (step^[count] p).state with
    | halted => rwa [step_of_halted hstate]
    | running =>
      rw [step_of_running hstate]
      exact hcycle _ _ ih

theorem slots_run (p : Processor) (entry : Nat) :
    (p.run entry).memory.slots = p.memory.slots := by
  rcases Nat.lt_or_ge entry p.memory.capacity with hlt | hge
  · rw [run_of_lt hlt]
    rfl
  · rw [run_of_le hge]
    rfl

theorem count_run (p : Processor) (entry : Nat) :
    (p.run entry).registers.count = p.registers.count := by
  have hcleared : p.registers.cleared.count = p.registers.count := Array.size_replicate
  rcases Nat.lt_or_ge entry p.memory.capacity with hlt | hge
  · rw [run_of_lt hlt]
    exact hcleared
  · rw [run_of_le hge]
    exact hcleared

/-- The processor after that many steps of a run. -/
def afterSteps (p : Processor) (entry count : Nat) : Processor := step^[count] (p.run entry)

theorem capacity_afterSteps (p : Processor) (entry count : Nat) :
    (p.afterSteps entry count).memory.capacity = p.memory.capacity :=
  iterate_step_preserves (P := fun m => m.memory.capacity = p.memory.capacity)
    (fun m tracing h => (m.capacity_cycle tracing).trans h)
    (congrArg Array.size (p.slots_run entry)) count

theorem count_afterSteps (p : Processor) (entry count : Nat) :
    (p.afterSteps entry count).registers.count = p.registers.count :=
  iterate_step_preserves (P := fun m => m.registers.count = p.registers.count)
    (fun m tracing h => (m.count_cycle tracing).trans h) (p.count_run entry) count

end Processor

end StoredProgram
