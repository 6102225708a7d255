import StoredProgram.Proofs.Failures

/-!
Who a fault of a run is about. A run can only fail for want of a slot or of a register, at
an empty slot, or at a chain of gets that is too long. The fault says which slot or
register that was, an instruction in the chain of what was fetched names it, and unless the
address itself is the matter the fault is located at the slot that was fetched from. What
is known of a fault is said once: no part of it is set over another, for which setting a
part asks for a proof that it was not set.
-/
namespace StoredProgram

/-- An instruction asks for a register or a slot that there is not. -/
inductive Missing (m : Machine) (instruction : Instruction) : Fault → Prop
  | register {register : Nat} (hnames : register ∈ instruction.registers)
      (hout : m.registers.count ≤ register) :
      Missing m instruction (Registers.outOfBounds register)
  | address {address : Nat} (hnames : instruction.address? = some address)
      (hout : m.memory.capacity ≤ address) :
      Missing m instruction (Memory.outOfBounds address)

namespace Machine

/-- An instruction other than a get fails only for a register or a slot that it names. -/
theorem missing_of_execute {m : Machine} {leaf : Instruction} {fault : Fault}
    (hleaf : leaf.isGet = false) (h : (m.execute leaf).result = .error fault) :
    Missing m leaf fault := by
  cases ((performs_execute hleaf m).of_error h).2 with
  | register hnames _ hout => exact Missing.register (by simp [hnames]) hout
  | address _ huses hout => exact Missing.address huses.address? hout

end Machine

/-- The gets of a chain name its registers. -/
theorem Leads.exists_get {memory : Memory} {first last : Instruction} {dests : List Nat}
    (h : Leads memory first dests last) {dest : Nat} (hdest : dest ∈ dests) :
    ∃ (before : List Nat) (address : Nat), Leads memory first before (.get address dest) ∧
      before.length ≤ dests.length := by
  induction h with
  | here => simp at hdest
  | @link address other dests found last hslot hrest ih =>
    rcases List.mem_cons.mp hdest with rfl | hlater
    · exact ⟨[], address, Leads.here _, Nat.zero_le _⟩
    · obtain ⟨before, a, hleads, hlength⟩ := ih hlater
      exact ⟨other :: before, a, Leads.link hslot hleads, Nat.succ_le_succ hlength⟩

/-- What is wrong with an instruction that fails, and where in its chain of gets. -/
inductive Blames (m : Machine) (first : Instruction) : Fault → Prop
  | missing {dests : List Nat} {link : Instruction} {fault : Fault}
      (hleads : Leads m.memory first dests link) (hlength : dests.length ≤ Machine.nestingLimit)
      (hmissing : Missing m link fault) : Blames m first fault
  | empty {dests : List Nat} {address dest : Nat}
      (hleads : Leads m.memory first dests (.get address dest))
      (hlength : dests.length ≤ Machine.nestingLimit)
      (hempty : m.memory.slots[address]? = some none) :
      Blames m first { cause := .emptyAddress, note := s!"@{address}" }
  | tooDeep {dests : List Nat} {address dest : Nat} {found : Instruction}
      (hleads : Leads m.memory first dests (.get address dest))
      (hlength : dests.length = Machine.nestingLimit)
      (hfound : m.memory.slots[address]? = some (some found)) :
      Blames m first { cause := .nestingTooDeep, note := s!"@{address}" }

namespace Machine

theorem count_execute (m : Machine) (instruction : Instruction) :
    (m.execute instruction).machine.registers.count = m.registers.count :=
  (m.outcomeAfter_execute instruction).count_eq

theorem blames_of_execute {m : Machine} {first : Instruction} {fault : Fault}
    (h : (m.execute first).result = .error fault) : Blames m first fault := by
  rcases m.execute_cases first with
    ⟨dests, leaf, hleads, hlength, hleaf, hexecute⟩ |
      ⟨dests, address, dest, other, hleads, hlength, hbroken, hexecute⟩
  · cases hresult : (m.execute leaf).result with
    | error other =>
      rw [hexecute, hresult] at h
      obtain rfl : other = fault := Except.error.inj h
      exact Blames.missing hleads hlength (missing_of_execute hleaf hresult)
    | ok value =>
      rw [hexecute, hresult] at h
      simp only [Outcome.deliver, count_execute] at h
      split at h
      · cases h
      · next missing hfind =>
        obtain rfl : Registers.outOfBounds missing = fault := Except.error.inj h
        have hmem : missing ∈ dests := List.mem_reverse.mp (List.mem_of_find?_eq_some hfind)
        have hout : m.registers.count ≤ missing := by simpa using List.find?_some hfind
        obtain ⟨before, address, hget, hbefore⟩ := hleads.exists_get hmem
        exact Blames.missing hget (Nat.le_trans hbefore hlength)
          (Missing.register List.mem_cons_self hout)
  · rw [hexecute] at h
    obtain rfl : other = fault := Except.error.inj h
    cases hbroken with
    | outOfBounds hout => exact Blames.missing hleads hlength (Missing.address rfl hout)
    | empty hempty => exact Blames.empty hleads hlength hempty
    | tooDeep hdepth hfound => exact Blames.tooDeep hleads hdepth hfound

/-- Fetching changes nothing that a fault could be about. -/
theorem blames_of_advanced {m : Machine} {first : Instruction} {fault : Fault}
    (h : Blames m.advanced first fault) : Blames m first fault := by
  have hslots := m.slots_advanced
  cases h with
  | missing hleads hlength hmissing =>
    refine Blames.missing (hleads.congr hslots.symm) hlength ?_
    cases hmissing with
    | register hnames hout => exact Missing.register hnames hout
    | address hnames hout => exact Missing.address hnames (by rwa [capacity_advanced] at hout)
  | empty hleads hlength hempty =>
    exact Blames.empty (hleads.congr hslots.symm) hlength (by rwa [hslots] at hempty)
  | tooDeep hleads hlength hfound =>
    exact Blames.tooDeep (hleads.congr hslots.symm) hlength (by rwa [hslots] at hfound)

end Machine

namespace Fault

/-- Made from a bare fault by setting its address or its note. -/
def Raised (f : Fault) : Prop :=
  (∃ address, f = (bare f.cause).atAddress address rfl) ∨
    ∃ note, f = (bare f.cause).withNote note rfl

theorem raised_of_missing {m : Machine} {instruction : Instruction} {f : Fault}
    (h : Missing m instruction f) : f.Raised := by
  cases h with
  | register => exact Or.inr ⟨_, rfl⟩
  | address => exact Or.inl ⟨_, rfl⟩

theorem raised_of_blames {m : Machine} {first : Instruction} {f : Fault}
    (h : Blames m first f) : f.Raised := by
  cases h with
  | missing _ _ hmissing => exact raised_of_missing hmissing
  | empty => exact Or.inr ⟨_, rfl⟩
  | tooDeep => exact Or.inr ⟨_, rfl⟩

/-- A fault is located by setting an address that was not set, if at all. -/
theorem locate_cases (f : Fault) (address : Nat) :
    f.locate address = f ∨ ∃ unset, f.locate address = f.atAddress address unset := by
  unfold locate
  split
  · next hnone => exact Or.inr ⟨hnone.2, rfl⟩
  · exact Or.inl rfl

end Fault

/-- What a fault says of the cycle that reports it. The machine is the one before the cycle. -/
structure Attribution (m : Machine) (fetched : Instruction) (fault : Fault) : Prop where
  area : fault.area = .addressing ∨ fault.area = .execution
  line : fault.line = none
  addressing : fault.area = .addressing →
    fault.cause = .addressOutOfBounds ∧
      ∃ address dests link, fault.address = some address ∧ m.memory.capacity ≤ address ∧
        Leads m.memory fetched dests link ∧ dests.length ≤ 64 ∧ link.address? = some address
  execution : fault.area = .execution →
    fault.address = some m.memory.cursor ∧
      ((fault.cause = .registerOutOfBounds ∧
          ∃ register dests link, fault.note = s!"*{register}" ∧ m.registers.count ≤ register ∧
            Leads m.memory fetched dests link ∧ dests.length ≤ 64 ∧ register ∈ link.registers) ∨
        (fault.cause = .emptyAddress ∧
          ∃ address dests dest, fault.note = s!"@{address}" ∧ address < m.memory.capacity ∧
            Leads m.memory fetched dests (.get address dest) ∧ dests.length ≤ 64 ∧
            m.memory.slots[address]? = some none) ∨
        (fault.cause = .nestingTooDeep ∧
          ∃ address dests dest found, fault.note = s!"@{address}" ∧ address < m.memory.capacity ∧
            Leads m.memory fetched dests (.get address dest) ∧ dests.length = 64 ∧
            m.memory.slots[address]? = some (some found)))
  /-- Executing raises the fault with one part set, and another is set at most once. -/
  built : ∃ raised, (m.advanced.execute fetched).result = .error raised ∧ raised.Raised ∧
    (fault = raised ∨ ∃ unset, fault = raised.atAddress m.memory.cursor unset)

theorem Memory.lt_capacity_of_slot {memory : Memory} {address : Nat} {slot : Option Instruction}
    (h : memory.slots[address]? = some slot) : address < memory.capacity := by
  rw [Array.getElem?_eq_some_iff] at h
  exact h.1

namespace Machine

theorem attribution_of_execute {m : Machine} {fetched : Instruction} {raised : Fault}
    (h : (m.advanced.execute fetched).result = .error raised) :
    Attribution m fetched (raised.locate m.memory.cursor) := by
  have hblames := blames_of_advanced (blames_of_execute h)
  have hbuilt : ∃ other, (m.advanced.execute fetched).result = .error other ∧ other.Raised ∧
      (raised.locate m.memory.cursor = other ∨
        ∃ unset, raised.locate m.memory.cursor = other.atAddress m.memory.cursor unset) :=
    ⟨raised, h, Fault.raised_of_blames hblames, raised.locate_cases m.memory.cursor⟩
  cases hblames with
  | missing hleads hlength hmissing =>
    cases hmissing with
    | register hnames hout =>
      exact ⟨Or.inr rfl, rfl, nofun,
        fun _ => ⟨rfl, Or.inl ⟨rfl, _, _, _, rfl, hout, hleads, hlength, hnames⟩⟩, hbuilt⟩
    | address hnames hout =>
      exact ⟨Or.inl rfl, rfl,
        fun _ => ⟨rfl, _, _, _, rfl, hout, hleads, hlength, hnames⟩, nofun, hbuilt⟩
  | empty hleads hlength hempty =>
    have hlt := Memory.lt_capacity_of_slot hempty
    exact ⟨Or.inr rfl, rfl, nofun,
      fun _ => ⟨rfl, Or.inr (Or.inl ⟨rfl, _, _, _, rfl, hlt, hleads, hlength, hempty⟩)⟩, hbuilt⟩
  | tooDeep hleads hlength hfound =>
    have hlt := Memory.lt_capacity_of_slot hfound
    exact ⟨Or.inr rfl, rfl, nofun,
      fun _ => ⟨rfl, Or.inr (Or.inr ⟨rfl, _, _, _, _, rfl, hlt, hleads, hlength, hfound⟩)⟩, hbuilt⟩

theorem fault_not_mem_reported (m : Machine) (tracing : Bool) (fetched : Instruction)
    (fault : Fault) : .fault fault ∉ m.reported tracing fetched := by
  cases tracing <;> simp [reported]

theorem attribution_of_cycle {m : Machine} {tracing : Bool} {fault : Fault}
    (h : .fault fault ∈ (m.cycle tracing).events) :
    ∃ fetched, m.memory.slots[m.memory.cursor]? = some (some fetched) ∧
      Attribution m fetched fault := by
  rcases m.exhausted_or_slot with hexhausted | ⟨fetched, hslot⟩
  · simp [cycle_of_exhausted hexhausted] at h
  · refine ⟨fetched, hslot, ?_⟩
    have hsilent := m.fault_not_mem_reported tracing fetched fault
    rcases cycle_of_slot hslot with ⟨_, -, hcycle⟩ | ⟨raised, hraised, hcycle⟩
    · rw [hcycle] at h
      exact absurd h hsilent
    · rw [hcycle] at h
      rcases List.mem_append.mp h with hmem | hmem
      · exact absurd hmem hsilent
      · obtain rfl : fault = raised.locate m.memory.cursor :=
          Event.fault.inj (List.mem_singleton.mp hmem)
        exact attribution_of_execute hraised

end Machine

namespace Processor

variable {p : Processor} {fault : Fault}

/-- The next step fetches an instruction, which fails with the fault. -/
def Raises (p : Processor) (fault : Fault) : Prop :=
  p.state = .running ∧ ∃ fetched, p.memory.slots[p.memory.cursor]? = some (some fetched) ∧
    Attribution p.machine fetched fault

/-- What the fault of a run that cannot start says. -/
structure EntryFault (p : Processor) (entry : Nat) (fault : Fault) : Prop where
  area : fault.area = .addressing
  cause : fault.cause = .addressOutOfBounds
  line : fault.line = none
  address : fault.address = some entry
  outside : p.memory.capacity ≤ entry
  built : fault = (Fault.bare .addressOutOfBounds).atAddress entry rfl

theorem entryFault_of_run {entry : Nat} (h : .fault fault ∈ (p.run entry).events) :
    p.EntryFault entry fault := by
  rcases Nat.lt_or_ge entry p.memory.capacity with hlt | hge
  · simp [run_of_lt hlt] at h
  · rw [run_of_le hge] at h
    obtain rfl : fault = Memory.outOfBounds entry := Event.fault.inj (List.mem_singleton.mp h)
    exact ⟨rfl, rfl, rfl, rfl, hge, rfl⟩

/-- The faults of cycles in a row are each raised by one of them. -/
theorem raises_of_cycles {count : Nat} {events : List Event} {start last : Machine × State}
    (h : Cycles p.tracing count start events last) (hstart : start = (p.machine, p.state))
    (hfault : .fault fault ∈ events) : ∃ k < count, (step^[k] p).Raises fault := by
  generalize htracing : p.tracing = tracing at h
  induction h generalizing p with
  | nil => simp at hfault
  | @cons count m events last hrest ih =>
    obtain ⟨rfl, hstate⟩ := Prod.mk.inj hstart
    rcases List.mem_append.mp hfault with hnow | hlater
    · exact ⟨0, Nat.succ_pos count, hstate.symm, Machine.attribution_of_cycle hnow⟩
    · have hstep := step_of_running hstate.symm
      obtain ⟨k, hk, hraises⟩ :=
        ih (p := p.step) (by rw [hstep, htracing]) hlater (by rw [hstep, htracing])
      refine ⟨k + 1, Nat.succ_lt_succ hk, ?_⟩
      rwa [Function.iterate_succ_apply]

theorem raises_of_takeAll {entry : Nat} {turns : List Turn}
    (h : .fault fault ∈ (p.run entry).received turns ++ ((p.run entry).takeAll turns).2.events) :
    p.EntryFault entry fault ∨ ∃ k, (p.afterSteps entry k).Raises fault := by
  have hkept := takeAll_preserves (p := p.run entry)
    (P := fun events now => (p.run entry).Reaches now ∧ ∀ fault, .fault fault ∈ events →
      p.EntryFault entry fault ∨ ∃ k, (p.afterSteps entry k).Raises fault)
    ?_ turns [] ⟨⟨0, rfl, rfl⟩, fun fault hfault => Or.inl (entryFault_of_run hfault)⟩
  · exact hkept.2 fault h
  · rintro before m tracing ⟨hreaches, hbefore⟩
    refine ⟨hreaches.cycle tracing, fun fault hfault => ?_⟩
    rcases List.mem_append.mp hfault with hold | hnew
    · exact hbefore fault hold
    · obtain ⟨k, rfl, hstate⟩ := hreaches
      exact Or.inr ⟨k, hstate.symm, Machine.attribution_of_cycle hnew⟩

/-- Every fault that is queued says what it is about. A run that cannot start names its
entry. A step that fails was running and has fetched an instruction; the fault is an
address beyond the memory, which an instruction in the chain of what was fetched names, or
it is located at the slot that was fetched from and names a register that there is not, an
empty slot or one that ends too long a chain. The same holds of each fault that comes about
while a host executes, and in the course of a whole run. No line is ever set, and no other
part of a fault twice. -/
theorem faults_are_attributed (p : Processor) :
    (∀ entry fault, .fault fault ∈ (p.run entry).events → p.EntryFault entry fault) ∧
    (∃ new, p.step.events = p.events ++ new ∧ ∀ fault, .fault fault ∈ new → p.Raises fault) ∧
    (∀ budget, ∃ new,
      (p.execute budget).1.event?.toList ++ (p.execute budget).2.events = p.events ++ new ∧
        ∀ fault, .fault fault ∈ new → ∃ k, (step^[k] p).Raises fault) ∧
    ∀ (entry : Nat) (turns : List Turn) (fault : Fault),
      .fault fault ∈ (p.run entry).received turns ++ ((p.run entry).takeAll turns).2.events →
      p.EntryFault entry fault ∨
        ∃ k, (p.afterSteps entry k).Raises fault ∧
          (p.afterSteps entry k).memory.capacity = p.memory.capacity ∧
          (p.afterSteps entry k).registers.count = p.registers.count := by
  refine ⟨fun entry fault => entryFault_of_run, ?_, ?_, ?_⟩
  · cases hstate : p.state with
    | halted =>
      rw [step_of_halted hstate]
      exact ⟨[], (List.append_nil _).symm, by simp⟩
    | running =>
      rw [step_of_running hstate]
      exact ⟨_, rfl, fun fault hfault => ⟨hstate, Machine.attribution_of_cycle hfault⟩⟩
  · intro budget
    obtain ⟨count, hserves⟩ := p.serves_execute budget
    obtain ⟨events, hcycles, hqueue⟩ := hserves.cycles
    refine ⟨events, hqueue, fun fault hfault => ?_⟩
    obtain ⟨k, -, hraises⟩ := raises_of_cycles hcycles rfl hfault
    exact ⟨k, hraises⟩
  · intro entry turns fault hfault
    rcases raises_of_takeAll hfault with hentry | ⟨k, hraises⟩
    · exact Or.inl hentry
    · exact Or.inr ⟨k, hraises, p.capacity_afterSteps entry k, p.count_afterSteps entry k⟩

/-- Two gets that lead to an empty slot, and a get of a slot that there is not. -/
def straying : Processor := .new ⟨#[some (.get 1 0), some (.get 2 0), none, some (.get 9 0)], 0⟩ 1

theorem straying_attributed :
    let empty : Fault := { cause := .emptyAddress, address := some 0, note := "@2" }
    (.fault (Memory.outOfBounds 4) ∈ (straying.run 4).events ∧
      straying.EntryFault 4 (Memory.outOfBounds 4)) ∧
    (.fault empty ∈ (straying.run 0).step.events ∧ (straying.run 0).Raises empty) ∧
    (((straying.run 0).execute 2).2.events = [.fault empty] ∧
      ∃ k, (step^[k] (straying.run 0)).Raises empty) ∧
    (.fault (Memory.outOfBounds 9) ∈ (straying.run 3).received [.execute 1, .execute 1] ∧
      ∃ k, (straying.afterSteps 3 k).Raises (Memory.outOfBounds 9)) := by
  intro empty
  obtain ⟨hentry, -, -, hrun⟩ := faults_are_attributed straying
  obtain ⟨-, ⟨stepped, hstepped, hstep⟩, hexecute, -⟩ := faults_are_attributed (straying.run 0)
  obtain ⟨executed, hexecuted, hbudget⟩ := hexecute 2
  have hnone : .fault (Memory.outOfBounds 4) ∈ (straying.run 4).events := by decide
  have hqueue : (straying.run 0).step.events = [.trace 0 (.get 1 0), .fault empty] := by
    decide +kernel
  have htaken : ((straying.run 0).execute 2).1.event?.toList ++
      ((straying.run 0).execute 2).2.events = [.trace 0 (.get 1 0), .fault empty] := by
    decide +kernel
  have hreceived : (straying.run 3).received [.execute 1, .execute 1] =
      [.trace 3 (.get 9 0), .fault (Memory.outOfBounds 9)] := by
    decide +kernel
  have hnine : .fault (Memory.outOfBounds 9) ∈
      (straying.run 3).received [.execute 1, .execute 1] := by
    simp [hreceived]
  refine ⟨⟨hnone, hentry 4 _ hnone⟩, ⟨by simp [hqueue], hstep empty ?_⟩,
    ⟨by decide +kernel, hbudget empty ?_⟩, hnine, ?_⟩
  · have hnew : stepped = [.trace 0 (.get 1 0), .fault empty] := hstepped.symm.trans hqueue
    simp [hnew]
  · have hnew : executed = [.trace 0 (.get 1 0), .fault empty] := hexecuted.symm.trans htaken
    simp [hnew]
  · rcases hrun 3 [.execute 1, .execute 1] _ (List.mem_append_left _ hnine) with hout | ⟨k, hk, -⟩
    · exact absurd hout.outside (by decide)
    · exact ⟨k, hk⟩

end Processor

end StoredProgram
