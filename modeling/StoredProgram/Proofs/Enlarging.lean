import StoredProgram.Proofs.Commuting
import StoredProgram.Proofs.Loading

/-!
Enlarging a machine. A larger memory has empty slots after those of the smaller one, and a
larger register file has zeros. What an instruction does on the smaller machine, it does on
the larger one too, with the same fault if it fails, unless the smaller machine goes out of
bounds. So a run without such a fault is the same on both, with one difference at its end:
where the smaller memory ends the larger one may have an empty slot, and the cursor passes
an empty slot but not the end.
-/
namespace StoredProgram

variable {α : Type}

/-- The larger array has the values of the smaller one, and after them only the given
value. -/
structure Padded (value : α) (smaller larger : Array α) : Prop where
  size_le : smaller.size ≤ larger.size
  same : ∀ i : Nat, i < smaller.size → larger[i]? = smaller[i]?
  rest : ∀ i : Nat, smaller.size ≤ i → i < larger.size → larger[i]? = some value

theorem padded_append (value : α) (smaller : Array α) (extra : Nat) :
    Padded value smaller (smaller ++ Array.replicate extra value) where
  size_le := by simp
  same i hi := Array.getElem?_append_left hi
  rest i hi hlarger := by
    rw [Array.getElem?_append_right hi, Array.getElem?_replicate, if_pos]
    simp only [Array.size_append, Array.size_replicate] at hlarger
    omega

theorem Padded.exists_append {value : α} {smaller larger : Array α}
    (h : Padded value smaller larger) :
    ∃ extra, larger = smaller ++ Array.replicate extra value := by
  refine ⟨larger.size - smaller.size, Array.ext_getElem? fun i => ?_⟩
  rw [Array.getElem?_append]
  split
  · exact h.same i ‹_›
  · rw [Array.getElem?_replicate]
    split
    · exact h.rest i (by omega) (by omega)
    · exact Array.getElem?_eq_none (by omega)

/-- The fault is about an address or a register that does not exist. -/
def Fault.isBounds (f : Fault) : Bool :=
  f.cause = .addressOutOfBounds || f.cause = .registerOutOfBounds

theorem Fault.isBounds_locate (f : Fault) (address : Nat) :
    (f.locate address).isBounds = f.isBounds := by
  unfold locate
  split <;> rfl

def Event.isBounds : Event → Bool
  | fault f => f.isBounds
  | trace _ _ | print _ | finished => false

/-- No address and no register was asked for that does not exist. -/
def InBounds (events : List Event) : Prop := ∀ event ∈ events, event.isBounds = false

instance (events : List Event) : Decidable (InBounds events) :=
  inferInstanceAs (Decidable (∀ event ∈ events, event.isBounds = false))

theorem InBounds.append_left {first second : List Event} (h : InBounds (first ++ second)) :
    InBounds first := fun event hevent => h event (List.mem_append_left second hevent)

theorem InBounds.append_right {first second : List Event} (h : InBounds (first ++ second)) :
    InBounds second := fun event hevent => h event (List.mem_append_right first hevent)

namespace Registers

/-- More registers, all of them zero. -/
def enlarge (extra : Nat) (r : Registers) : Registers :=
  ⟨r.values ++ Array.replicate extra Number.zero⟩

theorem value_enlarge (extra : Nat) {r : Registers} {register : Nat} {value : Number}
    (h : r.values[register]? = some value) :
    (r.enlarge extra).values[register]? = some value :=
  (Array.getElem?_append_left (lt_count_of_some h)).trans h

theorem write_enlarge (extra : Nat) {r : Registers} {register : Nat} (h : register < r.count)
    (value : Number) :
    (r.enlarge extra).write register value =
      (.ok (), enlarge extra ⟨r.values.setIfInBounds register value⟩) := by
  have hlarger : register < (r.enlarge extra).count := by
    simp only [enlarge, count, Array.size_append] at h ⊢
    omega
  rw [write_of_lt hlarger]
  exact congrArg (fun values => (Except.ok (), Registers.mk values))
    (Array.setIfInBounds_append_left h)

end Registers

namespace Memory

/-- More slots, all of them empty. -/
def enlarge (extra : Nat) (m : Memory) : Memory :=
  { m with slots := m.slots ++ Array.replicate extra none }

theorem lt_capacity_enlarge (extra : Nat) {m : Memory} {address : Nat}
    (h : address < m.capacity) : address < (m.enlarge extra).capacity := by
  simp only [enlarge, capacity, Array.size_append] at h ⊢
  omega

theorem slot_enlarge (extra : Nat) {m : Memory} {address : Nat} {slot : Option Instruction}
    (h : m.slots[address]? = some slot) : (m.enlarge extra).slots[address]? = some slot := by
  obtain ⟨haddress, -⟩ := Array.getElem?_eq_some_iff.mp h
  exact (Array.getElem?_append_left haddress).trans h

theorem put_enlarge (extra : Nat) {m : Memory} {address : Nat} (h : address < m.capacity)
    (instruction : Instruction) :
    (m.enlarge extra).put instruction address =
      (.ok (),
        enlarge extra { m with slots := m.slots.setIfInBounds address (some instruction) }) := by
  rw [put_of_lt (lt_capacity_enlarge extra h)]
  exact congrArg (fun slots => (Except.ok (), Memory.mk slots m.cursor))
    (Array.setIfInBounds_append_left h)

theorem seek_enlarge (extra : Nat) {m : Memory} {address : Nat} (h : address < m.capacity) :
    (m.enlarge extra).seek address = (.ok (), enlarge extra { m with cursor := address }) :=
  seek_of_lt (lt_capacity_enlarge extra h)

theorem append_enlarge (extra : Nat) {m next : Memory} {instruction : Instruction}
    (h : m.append instruction = (.ok (), next)) :
    (m.enlarge extra).append instruction = (.ok (), next.enlarge extra) := by
  rcases Nat.lt_or_ge m.cursor m.capacity with hlt | hge
  · rw [append_of_lt hlt] at h
    obtain rfl := (Prod.mk.inj h).2
    have hlarger : (m.enlarge extra).cursor < (m.enlarge extra).capacity :=
      lt_capacity_enlarge extra hlt
    rw [append_of_lt hlarger]
    exact congrArg (fun slots => (Except.ok (), Memory.mk slots (m.cursor + 1)))
      (Array.setIfInBounds_append_left hlt)
  · rw [append_of_le hge] at h
    cases h

theorem appendAll_enlarge (extra : Nat) {m : Memory} {instructions : List Instruction}
    (h : (m.appendAll instructions).1 = .ok ()) :
    (m.enlarge extra).appendAll instructions =
      (.ok (), (m.appendAll instructions).2.enlarge extra) := by
  induction instructions generalizing m with
  | nil => rfl
  | cons instruction rest ih =>
    rcases hnext : m.append instruction with ⟨fault | done, next⟩
    · simp only [appendAll, hnext] at h
      cases h
    · simp only [appendAll, hnext, append_enlarge extra hnext] at h ⊢
      exact ih h

end Memory

/-- A program that fits into the smaller memory is loaded into the larger one alike. -/
theorem Program.load_enlarge {program : Program} {m larger : Memory} {extra entry : Nat}
    (hslots : larger.slots = m.slots ++ Array.replicate extra none)
    (h : (program.load m).1 = .ok entry) :
    program.load larger = (.ok entry, (program.load m).2.enlarge extra) := by
  rcases Nat.lt_or_ge program.origin m.capacity with horigin | horigin
  · have hlarger : program.origin < larger.capacity := by
      rw [Memory.capacity, hslots]
      exact Memory.lt_capacity_enlarge extra horigin
    -- the cursor that either memory had before does not matter
    have hstart : { larger with cursor := program.origin } =
        Memory.enlarge extra { m with cursor := program.origin } :=
      congrArg (Memory.mk · program.origin) hslots
    rw [load_of_lt horigin] at h ⊢
    rw [load_of_lt hlarger, hstart]
    rcases hfill : Memory.appendAll { m with cursor := program.origin } program.instructions with
      ⟨fault | done, filled⟩
    · rw [hfill] at h
      cases h
    · have hfilled := Memory.appendAll_enlarge extra (congrArg Prod.fst hfill)
      rw [hfill] at hfilled h
      rw [hfilled, ← Except.ok.inj h]
      rfl
  · rw [load_of_le horigin] at h
    cases h

def Machine.enlarge (slots registers : Nat) (m : Machine) : Machine :=
  ⟨m.memory.enlarge slots, m.registers.enlarge registers⟩

namespace Outcome

def enlarge (slots registers : Nat) (outcome : Outcome) : Outcome :=
  { outcome with machine := outcome.machine.enlarge slots registers }

def OutOfBounds (outcome : Outcome) : Prop :=
  ∃ fault, outcome.result = .error fault ∧ fault.isBounds = true

end Outcome

def Progress.enlarge (slots registers : Nat) (w : Progress) : Progress :=
  { w with machine := w.machine.enlarge slots registers }

section Steps

variable {slots registers : Nat}

theorem commutes_onMemory {step : Memory → Except Fault α × Memory}
    (h : ∀ m, (∃ fault, (step m).1 = .error fault ∧ fault.isBounds = true) ∨
      step (m.enlarge slots) = ((step m).1, (step m).2.enlarge slots)) :
    Action.Commutes (Progress.enlarge slots registers) (fun fault => fault.isBounds = true)
      (Action.onMemory step) := by
  intro w
  rcases h w.machine.memory with hout | hsame
  · exact Or.inl hout
  · exact Or.inr (Action.onMemory_of_eq hsame)

theorem commutes_onRegisters {step : Registers → Except Fault α × Registers}
    (h : ∀ r, (∃ fault, (step r).1 = .error fault ∧ fault.isBounds = true) ∨
      step (r.enlarge registers) = ((step r).1, (step r).2.enlarge registers)) :
    Action.Commutes (Progress.enlarge slots registers) (fun fault => fault.isBounds = true)
      (Action.onRegisters step) := by
  intro w
  rcases h w.machine.registers with hout | hsame
  · exact Or.inl hout
  · exact Or.inr (Action.onRegisters_of_eq hsame)

end Steps

/-- More slots and more registers are noticed only where there were too few. -/
theorem unnoticed_enlarge (slots registers : Nat) :
    Action.Unnoticed (Progress.enlarge slots registers) (fun fault => fault.isBounds = true) where
  get address := commutes_onMemory fun m => by
    rcases Nat.lt_or_ge address m.capacity with hlt | hge
    · have hslot := Array.getElem?_eq_getElem hlt
      rw [Memory.get_of_slot hslot, Memory.get_of_slot (Memory.slot_enlarge slots hslot)]
      exact Or.inr rfl
    · exact Or.inl ⟨_, Memory.get_of_le hge, rfl⟩
  put instruction address := commutes_onMemory fun m => by
    rcases Nat.lt_or_ge address m.capacity with hlt | hge
    · rw [Memory.put_of_lt hlt, Memory.put_enlarge slots hlt]
      exact Or.inr rfl
    · rw [Memory.put_of_le hge]
      exact Or.inl ⟨_, rfl, rfl⟩
  seek address := commutes_onMemory fun m => by
    rcases Nat.lt_or_ge address m.capacity with hlt | hge
    · rw [Memory.seek_of_lt hlt, Memory.seek_enlarge slots hlt]
      exact Or.inr rfl
    · rw [Memory.seek_of_le hge]
      exact Or.inl ⟨_, rfl, rfl⟩
  read register := commutes_onRegisters fun r => by
    rcases r.le_or_some register with hle | ⟨value, hvalue⟩
    · exact Or.inl ⟨_, Registers.read_of_le hle, rfl⟩
    · rw [Registers.read_of_some hvalue,
        Registers.read_of_some (Registers.value_enlarge registers hvalue)]
      exact Or.inr rfl
  readPair left right := commutes_onRegisters fun r => by
    rcases r.le_or_some left with hleft | ⟨a, hleft⟩
    · exact Or.inl ⟨_, Registers.readPair_of_le_left hleft right, rfl⟩
    · rcases r.le_or_some right with hright | ⟨b, hright⟩
      · exact Or.inl ⟨_, Registers.readPair_of_le_right hleft hright, rfl⟩
      · rw [Registers.readPair_of_some hleft hright, Registers.readPair_of_some
          (Registers.value_enlarge registers hleft) (Registers.value_enlarge registers hright)]
        exact Or.inr rfl
  write register value := commutes_onRegisters fun r => by
    rcases Nat.lt_or_ge register r.count with hlt | hge
    · rw [Registers.write_of_lt hlt, Registers.write_enlarge registers hlt]
      exact Or.inr rfl
    · rw [Registers.write_of_le hge]
      exact Or.inl ⟨_, rfl, rfl⟩
  printLine line w := Or.inr rfl
  record entry w := Or.inr rfl

namespace Machine

variable (slots registers : Nat)

/-- An instruction does the same on the larger machine or goes out of bounds. -/
theorem execute_enlarge (m : Machine) (instruction : Instruction) :
    (m.execute instruction).OutOfBounds ∨
      (m.enlarge slots registers).execute instruction =
        (m.execute instruction).enlarge slots registers := by
  have hperform := (unnoticed_enlarge slots registers).perform nestingLimit instruction
    { machine := m }
  rw [execute, execute, executeWithin_of_perform rfl]
  rcases hperform with hout | hsame
  · exact Or.inl hout
  · exact Or.inr (executeWithin_of_perform hsame)

theorem advanced_enlarge {m : Machine} {slot : Option Instruction}
    (h : m.memory.slots[m.memory.cursor]? = some slot) :
    (m.enlarge slots registers).advanced = m.advanced.enlarge slots registers := by
  have hlarger := Memory.slot_enlarge slots h
  unfold advanced
  rw [Memory.fetch_of_slot h, enlarge, Memory.fetch_of_slot hlarger]
  rfl

/-- The machine with the cursor one further. -/
def passed (m : Machine) : Machine :=
  { m with memory := { m.memory with cursor := m.memory.cursor + 1 } }

/-- The larger machine is the smaller one enlarged. Only if the smaller one has halted at
the end of its memory the cursor may be one further. -/
def Tracks (m : Machine) (state : State) (events : List Event) (larger : Machine) : Prop :=
  larger = m.enlarge slots registers ∨
    (state = .halted ∧ events.getLast? = some .finished ∧
      m.memory.cursor = m.memory.capacity ∧ larger = (m.enlarge slots registers).passed)

theorem Tracks.padded_slots {m larger : Machine} {state : State} {events : List Event}
    (h : Tracks slots registers m state events larger) :
    Padded none m.memory.slots larger.memory.slots := by
  rcases h with rfl | ⟨-, -, -, rfl⟩
  · exact padded_append none m.memory.slots slots
  · exact padded_append none m.memory.slots slots

theorem Tracks.padded_registers {m larger : Machine} {state : State} {events : List Event}
    (h : Tracks slots registers m state events larger) :
    Padded Number.zero m.registers.values larger.registers.values := by
  rcases h with rfl | ⟨-, -, -, rfl⟩
  · exact padded_append Number.zero m.registers.values registers
  · exact padded_append Number.zero m.registers.values registers

/-- The larger cycle reports the same and goes on if the smaller one does. -/
def CycleTracks (smaller larger : Cycle) : Prop :=
  larger.events = smaller.events ∧ larger.state = smaller.state ∧
    Tracks slots registers smaller.machine smaller.state smaller.events larger.machine

theorem cycle_enlarge_at_end {m : Machine} (h : m.memory.cursor = m.memory.capacity)
    (tracing : Bool) :
    CycleTracks slots registers (m.cycle tracing)
      ((m.enlarge slots registers).cycle tracing) := by
  have hadvanced : m.advanced = m := by rw [advanced, Memory.fetch_of_le (Nat.le_of_eq h.symm)]
  rw [cycle_of_exhausted (Or.inl (Nat.le_of_eq h.symm)), hadvanced]
  rcases Nat.lt_or_ge m.memory.cursor (m.enlarge slots registers).memory.capacity with hlt | hge
  · have hempty : (m.enlarge slots registers).memory.slots[m.memory.cursor]? = some none :=
      (padded_append none m.memory.slots slots).rest m.memory.cursor (Nat.le_of_eq h.symm) hlt
    rw [cycle_of_exhausted (Or.inr hempty), advanced, Memory.fetch_of_slot hempty]
    exact ⟨rfl, rfl, Or.inr ⟨rfl, rfl, h, rfl⟩⟩
  · rw [cycle_of_exhausted (Or.inl hge), advanced, Memory.fetch_of_le hge]
    exact ⟨rfl, rfl, Or.inl rfl⟩

theorem cycle_enlarge_of_slot {m : Machine} {fetched : Instruction}
    (hslot : m.memory.slots[m.memory.cursor]? = some (some fetched)) {tracing : Bool}
    (hbounds : InBounds (m.cycle tracing).events) :
    CycleTracks slots registers (m.cycle tracing)
      ((m.enlarge slots registers).cycle tracing) := by
  have hlarger : (m.enlarge slots registers).memory.slots[m.memory.cursor]? =
      some (some fetched) := Memory.slot_enlarge slots hslot
  rcases execute_enlarge slots registers m.advanced fetched with hout | hsame
  · -- a cycle that goes out of bounds reports it
    exfalso
    obtain ⟨fault, hresult, hfault⟩ := hout
    rcases cycle_of_slot hslot with ⟨_, hok, -⟩ | ⟨other, herror, hcycle⟩
    · rw [hresult] at hok
      cases hok
    · obtain rfl : fault = other := Except.error.inj (hresult.symm.trans herror)
      have hin := hbounds (.fault (fault.locate m.memory.cursor)) (by simp [hcycle])
      rw [Event.isBounds, Fault.isBounds_locate, hfault] at hin
      cases hin
  · have hexecute : (m.enlarge slots registers).advanced.execute fetched =
        (m.advanced.execute fetched).enlarge slots registers := by
      rw [advanced_enlarge slots registers hslot]
      exact hsame
    have hreported : (m.enlarge slots registers).reported tracing fetched =
        m.reported tracing fetched := by
      rw [reported, hexecute]
      rfl
    have hresult : ((m.enlarge slots registers).advanced.execute fetched).result =
        (m.advanced.execute fetched).result := by
      rw [hexecute]
      rfl
    rcases cycle_of_slot hslot with ⟨_, hok, hcycle⟩ | ⟨fault, herror, hcycle⟩
    · rcases cycle_of_slot hlarger with ⟨_, -, hcycle'⟩ | ⟨_, herror', -⟩
      · rw [hcycle, hcycle', hexecute, hreported]
        exact ⟨rfl, rfl, Or.inl rfl⟩
      · rw [hresult, hok] at herror'
        cases herror'
    · rcases cycle_of_slot hlarger with ⟨_, hok', -⟩ | ⟨fault', herror', hcycle'⟩
      · rw [hresult, herror] at hok'
        cases hok'
      · rw [hresult, herror] at herror'
        obtain rfl : fault = fault' := Except.error.inj herror'
        rw [hcycle, hcycle', hexecute, hreported]
        exact ⟨rfl, rfl, Or.inl rfl⟩

/-- One cycle on the larger machine is that on the smaller one. -/
theorem cycle_enlarge {m : Machine} (hm : m.memory.WellFormed) {tracing : Bool}
    (hbounds : InBounds (m.cycle tracing).events) :
    CycleTracks slots registers (m.cycle tracing)
      ((m.enlarge slots registers).cycle tracing) := by
  rcases m.exhausted_or_slot with (hout | hempty) | ⟨fetched, hslot⟩
  · exact cycle_enlarge_at_end slots registers (Nat.le_antisymm hm hout) tracing
  · rw [cycle_of_exhausted (Or.inr hempty),
      cycle_of_exhausted (Or.inr (Memory.slot_enlarge slots hempty)),
      advanced_enlarge slots registers hempty]
    exact ⟨rfl, rfl, Or.inl rfl⟩
  · exact cycle_enlarge_of_slot slots registers hslot hbounds

end Machine

namespace Processor

/-- The processor `q` is `p` with a larger machine that has made the same run. -/
structure Enlarges (slots registers : Nat) (p q : Processor) : Prop where
  events_eq : q.events = p.events
  state_eq : q.state = p.state
  tracing_eq : q.tracing = p.tracing
  wellFormed : p.memory.WellFormed
  tracks : Machine.Tracks slots registers p.machine p.state p.events q.machine

variable {slots registers : Nat} {p q : Processor}

theorem inBounds_of_step (h : InBounds p.step.events) : InBounds p.events := by
  cases hstate : p.state with
  | halted => rwa [step_of_halted hstate] at h
  | running =>
    rw [step_of_running hstate] at h
    exact h.append_left

theorem inBounds_of_iterate_step {count : Nat} (h : InBounds (step^[count] p).events) :
    InBounds p.events := by
  induction count generalizing p with
  | zero => exact h
  | succ count ih =>
    rw [Function.iterate_succ_apply] at h
    exact inBounds_of_step (ih h)

theorem Enlarges.step (h : Enlarges slots registers p q) (hbounds : InBounds p.step.events) :
    Enlarges slots registers p.step q.step := by
  cases hstate : p.state with
  | halted =>
    rw [step_of_halted hstate, step_of_halted (h.state_eq.trans hstate)]
    exact h
  | running =>
    have hmachine : q.machine = p.machine.enlarge slots registers := by
      rcases h.tracks with hsame | ⟨hhalted, -⟩
      · exact hsame
      · rw [hstate] at hhalted
        cases hhalted
    rw [step_of_running hstate] at hbounds ⊢
    rw [step_of_running (h.state_eq.trans hstate), hmachine, h.tracing_eq, h.events_eq]
    obtain ⟨hevents, hsame, htracks⟩ :=
      Machine.cycle_enlarge slots registers h.wellFormed hbounds.append_right
    refine ⟨by rw [hevents], hsame, rfl, ?_, ?_⟩
    · exact Machine.wellFormed_cycle h.wellFormed p.tracing
    · rcases htracks with heq | ⟨hhalted, hlast, hcursor, hpassed⟩
      · exact Or.inl heq
      · exact Or.inr ⟨hhalted, by simp [List.getLast?_append, hlast], hcursor, hpassed⟩

theorem Enlarges.iterate_step (h : Enlarges slots registers p q) {count : Nat}
    (hbounds : InBounds (Processor.step^[count] p).events) :
    Enlarges slots registers (Processor.step^[count] p) (Processor.step^[count] q) := by
  induction count generalizing p q with
  | zero => exact h
  | succ count ih =>
    rw [Function.iterate_succ_apply] at hbounds ⊢
    exact ih (h.step (inBounds_of_iterate_step hbounds)) hbounds

theorem enlarges_run (hslots : q.memory.slots = p.memory.slots ++ Array.replicate slots none)
    (hcount : q.registers.count = p.registers.count + registers)
    (htracing : q.tracing = p.tracing) {entry : Nat} (hbounds : InBounds (p.run entry).events) :
    Enlarges slots registers (p.run entry) (q.run entry) := by
  rcases Nat.lt_or_ge entry p.memory.capacity with hlt | hge
  · have hlarger : entry < q.memory.capacity := by
      rw [Memory.capacity, hslots]
      exact Memory.lt_capacity_enlarge slots hlt
    have hcleared : q.registers.cleared = p.registers.cleared.enlarge registers := by
      rw [Registers.cleared, Registers.zeros, hcount, ← Array.replicate_append_replicate]
      rfl
    rw [run_of_lt hlt, run_of_lt hlarger]
    refine ⟨rfl, rfl, htracing, Nat.le_of_lt hlt, Or.inl ?_⟩
    exact congrArg₂ Machine.mk (congrArg (Memory.mk · entry) hslots) hcleared
  · rw [run_of_le hge] at hbounds
    have hin := hbounds (.fault (Memory.outOfBounds entry)) List.mem_cons_self
    cases hin

/-- Two processors after the same run on a smaller and on a larger machine. Cursors can
differ only where the smaller memory ends. -/
structure SameRun (smaller larger : Processor) : Prop where
  events_eq : larger.events = smaller.events
  state_eq : larger.state = smaller.state
  slots : Padded none smaller.memory.slots larger.memory.slots
  registers : Padded Number.zero smaller.registers.values larger.registers.values
  cursor : larger.memory.cursor = smaller.memory.cursor ∨
    (smaller.events.getLast? = some .finished ∧
      smaller.memory.cursor = smaller.memory.capacity ∧
      larger.memory.cursor = smaller.memory.cursor + 1)

theorem Enlarges.sameRun (h : Enlarges slots registers p q) : SameRun p q where
  events_eq := h.events_eq
  state_eq := h.state_eq
  slots := h.tracks.padded_slots
  registers := h.tracks.padded_registers
  cursor := by
    rcases h.tracks with hsame | ⟨-, hlast, hcursor, hpassed⟩
    · exact Or.inl (congrArg (·.memory.cursor) hsame)
    · exact Or.inr ⟨hlast, hcursor, congrArg (·.memory.cursor) hpassed⟩

/-- A run that meets no fault of bounds is the same on a larger machine. -/
theorem sameRun_afterSteps (hslots : Padded none p.memory.slots q.memory.slots)
    (hcount : p.registers.count ≤ q.registers.count) (htracing : q.tracing = p.tracing)
    {entry count : Nat} (hbounds : InBounds (p.afterSteps entry count).events) :
    SameRun (p.afterSteps entry count) (q.afterSteps entry count) := by
  obtain ⟨extra, hextra⟩ := hslots.exists_append
  have hstart : InBounds (p.run entry).events := inBounds_of_iterate_step hbounds
  have hmore : q.registers.count = p.registers.count + (q.registers.count - p.registers.count) := by
    omega
  exact ((enlarges_run hextra hmore htracing hstart).iterate_step hbounds).sameRun

/-- Let the memory of `q` have the slots of `p` and then empty ones, and let `q` have no
fewer registers. As long as a run of `p` has met no address and no register that does not
exist, the run of `q` reports the same, is in the same state, and has the same content with
only empty slots and zeros beyond. A program that is loaded by `p` is loaded by `q` at the
same entry, and the same holds of its run. -/
theorem enlarging_keeps_runs {p q : Processor}
    (hslots : Padded none p.memory.slots q.memory.slots)
    (hcount : p.registers.count ≤ q.registers.count) (htracing : q.tracing = p.tracing) :
    (∀ entry count : Nat,
      ((p.afterSteps entry count).memory.capacity = p.memory.capacity ∧
        (q.afterSteps entry count).memory.capacity = q.memory.capacity ∧
        (p.afterSteps entry count).registers.count = p.registers.count ∧
        (q.afterSteps entry count).registers.count = q.registers.count) ∧
      (InBounds (p.afterSteps entry count).events →
        SameRun (p.afterSteps entry count) (q.afterSteps entry count))) ∧
    ∀ (program : Program) (entry : Nat), (program.load p.memory).1 = .ok entry →
      let loaded := p.setMemory (program.load p.memory).2
      let loaded' := q.setMemory (program.load q.memory).2
      (program.load q.memory).1 = .ok entry ∧
        ∀ count, InBounds (loaded.afterSteps entry count).events →
          SameRun (loaded.afterSteps entry count) (loaded'.afterSteps entry count) := by
  refine ⟨fun entry count => ⟨⟨?_, ?_, ?_, ?_⟩, ?_⟩, ?_⟩
  · exact p.capacity_afterSteps entry count
  · exact q.capacity_afterSteps entry count
  · exact p.count_afterSteps entry count
  · exact q.count_afterSteps entry count
  · exact sameRun_afterSteps hslots hcount htracing
  · intro program entry hload loaded loaded'
    obtain ⟨extra, hextra⟩ := hslots.exists_append
    have hlarger := Program.load_enlarge hextra hload
    have hpadded : Padded none loaded.memory.slots loaded'.memory.slots := by
      have hmemory : loaded'.memory = (program.load p.memory).2.enlarge extra :=
        congrArg Prod.snd hlarger
      rw [hmemory]
      exact padded_append none loaded.memory.slots extra
    exact ⟨congrArg Prod.fst hlarger, fun count => sameRun_afterSteps hpadded hcount htracing⟩

/-- A program that fills its memory and puts a number in its first slot, and the same with
room to spare. -/
def fitting : Processor :=
  .new ⟨#[some (.load .one 0), some (.get 0 1), some (.put 1 0)], 0⟩ 2

def roomy : Processor := .new ⟨fitting.memory.slots ++ Array.replicate 2 none, 4⟩ 3

def greeting : Program := ⟨1, [.load .one 0, .print 0 ⟨"x"⟩]⟩

theorem runs_of_fitting :
    let loaded := fitting.setMemory (greeting.load fitting.memory).2
    let loaded' := roomy.setMemory (greeting.load roomy.memory).2
    (Padded none fitting.memory.slots roomy.memory.slots ∧
      fitting.registers.count ≤ roomy.registers.count ∧ roomy.tracing = fitting.tracing) ∧
    (InBounds (fitting.afterSteps 0 4).events ∧
      SameRun (fitting.afterSteps 0 4) (roomy.afterSteps 0 4) ∧
      (fitting.afterSteps 0 4).memory.cursor = 3 ∧ (roomy.afterSteps 0 4).memory.cursor = 4) ∧
    ((greeting.load fitting.memory).1 = .ok 1 ∧ (greeting.load roomy.memory).1 = .ok 1 ∧
      InBounds (loaded.afterSteps 1 2).events ∧ .print "x" ∈ (loaded.afterSteps 1 2).events ∧
      SameRun (loaded.afterSteps 1 2) (loaded'.afterSteps 1 2)) := by
  intro loaded loaded'
  have hslots : Padded none fitting.memory.slots roomy.memory.slots := padded_append none _ 2
  have hcount : fitting.registers.count ≤ roomy.registers.count := by decide
  obtain ⟨hruns, hloads⟩ := enlarging_keeps_runs hslots hcount rfl
  have hbounds : InBounds (fitting.afterSteps 0 4).events := by decide +kernel
  have hload : (greeting.load fitting.memory).1 = .ok 1 := by decide +kernel
  have hbounds' : InBounds (loaded.afterSteps 1 2).events := by decide +kernel
  obtain ⟨hload', hsame⟩ := hloads greeting 1 hload
  exact ⟨⟨hslots, hcount, rfl⟩,
    ⟨hbounds, (hruns 0 4).2 hbounds, by decide +kernel, by decide +kernel⟩,
    hload, hload', hbounds', by decide +kernel, hsame 2 hbounds'⟩

end Processor

end StoredProgram
