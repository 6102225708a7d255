import StoredProgram.Proofs.Requests

/-!
What holds of a machine whatever was done to it before. Whether requests succeed or fail,
the number of slots and of registers stays, and the cursor is on a slot or at the end. A
memory that was only used as such can be told from its history: a slot holds what was stored
there last, and nothing if nothing was.
-/
namespace StoredProgram

/-- The address and the instruction that an access stores if it is not refused. -/
def Access.store? (cursor : Nat) : Access → Option (Nat × Instruction)
  | put instruction address => some (address, instruction)
  | append instruction => some (cursor, instruction)
  | get _ | fetch | seek _ => none

namespace Memory

theorem get_fails_iff (m : Memory) (address : Nat) :
    (∃ fault, m.get address = .error fault) ↔ m.capacity ≤ address := by
  rcases Nat.lt_or_ge address m.capacity with hlt | hge
  · simp [get_of_slot (Array.getElem?_eq_getElem hlt), Nat.not_le.mpr hlt]
  · simp [get_of_le hge, hge]

theorem put_fails_iff (m : Memory) (instruction : Instruction) (address : Nat) :
    (∃ fault, (m.put instruction address).1 = .error fault) ↔ m.capacity ≤ address := by
  rcases Nat.lt_or_ge address m.capacity with hlt | hge
  · simp [put_of_lt hlt, Nat.not_le.mpr hlt]
  · simp [put_of_le hge, hge]

theorem seek_fails_iff (m : Memory) (address : Nat) :
    (∃ fault, (m.seek address).1 = .error fault) ↔ m.capacity ≤ address := by
  rcases Nat.lt_or_ge address m.capacity with hlt | hge
  · simp [seek_of_lt hlt, Nat.not_le.mpr hlt]
  · simp [seek_of_le hge, hge]

theorem append_fails_iff (m : Memory) (instruction : Instruction) :
    (∃ fault, (m.append instruction).1 = .error fault) ↔ m.capacity ≤ m.cursor := by
  rcases Nat.lt_or_ge m.cursor m.capacity with hlt | hge
  · simp [append_of_lt hlt, Nat.not_le.mpr hlt]
  · simp [append_of_le hge, hge]

/-- An access is refused and changes nothing, or it stores nothing, or it stores what it is
meant to in a slot that there is. -/
theorem access_cases (m : Memory) (access : Access) :
    ((m.access access).1.isOk = false ∧ (m.access access).2 = m) ∨
    ((m.access access).1.isOk = true ∧ access.store? m.cursor = none ∧
      (m.access access).2.slots = m.slots) ∨
    ∃ address instruction, (m.access access).1.isOk = true ∧
      access.store? m.cursor = some (address, instruction) ∧ address < m.capacity ∧
      (m.access access).2.slots = m.slots.setIfInBounds address (some instruction) := by
  cases access with
  | get address =>
    rcases Nat.lt_or_ge address m.capacity with hlt | hge
    · refine Or.inr (Or.inl ⟨?_, rfl, rfl⟩)
      simp only [access, get_of_slot (Array.getElem?_eq_getElem hlt)]
      rfl
    · refine Or.inl ⟨?_, rfl⟩
      simp only [access, get_of_le hge]
      rfl
  | put instruction address =>
    rcases Nat.lt_or_ge address m.capacity with hlt | hge
    · refine Or.inr (Or.inr ⟨address, instruction, ?_⟩)
      simp only [access, put_of_lt hlt]
      exact ⟨rfl, rfl, hlt, rfl⟩
    · refine Or.inl ?_
      simp only [access, put_of_le hge]
      exact ⟨rfl, rfl⟩
  | append instruction =>
    rcases Nat.lt_or_ge m.cursor m.capacity with hlt | hge
    · refine Or.inr (Or.inr ⟨m.cursor, instruction, ?_⟩)
      simp only [access, append_of_lt hlt]
      exact ⟨rfl, rfl, hlt, rfl⟩
    · refine Or.inl ?_
      simp only [access, append_of_le hge]
      exact ⟨rfl, rfl⟩
  | fetch => exact Or.inr (Or.inl ⟨rfl, rfl, m.slots_fetch⟩)
  | seek address =>
    rcases Nat.lt_or_ge address m.capacity with hlt | hge
    · refine Or.inr (Or.inl ?_)
      simp only [access, seek_of_lt hlt]
      exact ⟨rfl, rfl, rfl⟩
    · refine Or.inl ?_
      simp only [access, seek_of_le hge]
      exact ⟨rfl, rfl⟩

end Memory

/-- A memory, and what was stored in it with the addresses, the latest first. -/
structure History where
  memory : Memory
  stores : List (Nat × Instruction)

namespace History

def fresh (capacity : Nat) : History := ⟨.blank capacity, []⟩

/-- An access that is refused stores nothing. -/
def next (h : History) (access : Access) : History where
  memory := (h.memory.access access).2
  stores :=
    if (h.memory.access access).1.isOk then (access.store? h.memory.cursor).toList ++ h.stores
    else h.stores

def after (h : History) (accesses : List Access) : History := accesses.foldl next h

/-- Each slot holds what was stored there last. -/
structure Sound (capacity : Nat) (h : History) : Prop where
  bounded : h.memory.Bounded capacity
  slot : ∀ address < capacity, h.memory.slots[address]? = some (h.stores.lookup address)

theorem sound_fresh (capacity : Nat) : (fresh capacity).Sound capacity where
  bounded := Memory.bounded_blank capacity
  slot address haddress := by
    simp [fresh, Memory.blank, haddress]

theorem Sound.next {capacity : Nat} {h : History} (hsound : h.Sound capacity) (access : Access) :
    (h.next access).Sound capacity := by
  refine ⟨hsound.bounded.access access, fun address haddress => ?_⟩
  have hslot := hsound.slot address haddress
  rcases h.memory.access_cases access with
    ⟨hrefused, hsame⟩ | ⟨hdone, hnothing, hslots⟩ | ⟨stored, _, hdone, hstore, hlt, hslots⟩
  · simpa [History.next, hrefused, hsame] using hslot
  · simpa [History.next, hdone, hnothing, hslots] using hslot
  · -- what is stored now is found before all that was stored there earlier
    simp only [History.next, hdone, hstore, hslots, if_true, Option.toList_some,
      List.singleton_append, List.lookup_cons]
    by_cases heq : address = stored
    · subst heq
      rw [Array.getElem?_setIfInBounds_self_of_lt hlt, beq_self_eq_true]
    · rw [Array.getElem?_setIfInBounds_ne (Ne.symm heq), beq_eq_false_iff_ne.mpr heq]
      exact hslot

theorem Sound.after {capacity : Nat} {h : History} (hsound : h.Sound capacity)
    (accesses : List Access) : (h.after accesses).Sound capacity := by
  induction accesses generalizing h with
  | nil => exact hsound
  | cons access rest ih => exact ih (hsound.next access)

end History

/-- Whatever is done to a machine but for replacing its memory, it keeps its slots and registers
in number, and its cursor within bounds. After any accesses to a memory that was blank, an
access to an address fails exactly beyond the last slot, and an append exactly if the cursor
is at the end; what fails changes nothing; and a slot holds the instruction that was stored
there last, by a put to its address or by an append with the cursor on it, or none. -/
theorem histories_keep_bounds_and_stores :
    (∀ (p : Processor) (requests : List Request), p.memory.cursor ≤ p.memory.capacity →
      (∀ capacity, .replace capacity ∉ requests) →
      (p.serveAll requests).memory.capacity = p.memory.capacity ∧
        (p.serveAll requests).registers.count = p.registers.count ∧
        (p.serveAll requests).memory.cursor ≤ p.memory.capacity) ∧
    ∀ (capacity : Nat) (accesses : List Access),
      let history := (History.fresh capacity).after accesses
      let m := history.memory
      (m.capacity = capacity ∧ m.cursor ≤ capacity) ∧
      (∀ address, (∃ fault, m.get address = .error fault) ↔ capacity ≤ address) ∧
      (∀ instruction address,
        (∃ fault, (m.put instruction address).1 = .error fault) ↔ capacity ≤ address) ∧
      (∀ address, (∃ fault, (m.seek address).1 = .error fault) ↔ capacity ≤ address) ∧
      (∀ instruction, (∃ fault, (m.append instruction).1 = .error fault) ↔ m.cursor = capacity) ∧
      (∀ access fault, (m.access access).1 = .error fault → (m.access access).2 = m) ∧
      ∀ address < capacity, m.get address = .ok (history.stores.lookup address) := by
  constructor
  · intro p requests hcursor hkept
    have hstart : p.machine.Bounded p.memory.capacity p.registers.count :=
      ⟨⟨rfl, hcursor⟩, rfl⟩
    have hend := Processor.bounded_serveAll hstart hkept
    exact ⟨hend.memory.capacity_eq, hend.count_eq, hend.memory.cursor_le⟩
  · intro capacity accesses history m
    obtain ⟨hbounded, hslot⟩ := (History.sound_fresh capacity).after accesses
    have hcapacity : m.capacity = capacity := hbounded.capacity_eq
    refine ⟨⟨hcapacity, hbounded.cursor_le⟩, ?_, ?_, ?_, ?_, ?_, ?_⟩
    · intro address
      rw [m.get_fails_iff, hcapacity]
    · intro instruction address
      rw [m.put_fails_iff, hcapacity]
    · intro address
      rw [m.seek_fails_iff, hcapacity]
    · intro instruction
      rw [m.append_fails_iff, hcapacity]
      exact ⟨fun hge => Nat.le_antisymm hbounded.cursor_le hge, fun heq => Nat.le_of_eq heq.symm⟩
    · intro access fault hfault
      rcases m.access_cases access with ⟨-, hsame⟩ | ⟨hdone, -⟩ | ⟨_, _, hdone, -⟩
      · exact hsame
      · rw [hfault] at hdone
        cases hdone
      · rw [hfault] at hdone
        cases hdone
    · intro address haddress
      exact Memory.get_of_slot (hslot address haddress)

/-- A seek, a load and a jump that fail, the load with the cursor at the end, and a run that
is given up. -/
def mishaps : List Request :=
  [.access (.seek 2), .load ⟨1, [.data .one, .data .one]⟩, .perform (.goto 7), .run 0,
    .turn (.execute 2), .interrupt, .access .fetch]

/-- The second append finds the memory full. -/
def overfilling : List Access := [.append (.goto 3), .put (.goto 4) 0, .append (.goto 5)]

theorem histories_of_mishaps_and_overfilling :
    let p := Processor.new (.blank 2) 1
    let history := (History.fresh 1).after overfilling
    (p.memory.cursor ≤ p.memory.capacity ∧ (∀ capacity, .replace capacity ∉ mishaps) ∧
      (p.serveAll (mishaps.take 3)).memory.cursor = 2 ∧
      (p.serveAll mishaps).memory.capacity = 2 ∧ (p.serveAll mishaps).registers.count = 1 ∧
      (p.serveAll mishaps).memory.cursor ≤ 2) ∧
    history.stores = [(0, .goto 4), (0, .goto 3)] ∧
    (∃ fault, (history.memory.append (.goto 5)).1 = .error fault) ∧
    (history.memory.access (.append (.goto 5))).2 = history.memory ∧
    history.memory.get 0 = .ok (some (.goto 4)) := by
  intro p history
  obtain ⟨hbounds, hhistories⟩ := histories_keep_bounds_and_stores
  obtain ⟨-, -, -, -, hfull, hrefused, hslots⟩ := hhistories 1 overfilling
  have hcursor : p.memory.cursor ≤ p.memory.capacity := by decide
  have hanswer : (history.memory.access (.append (.goto 5))).1 =
      .error { cause := .outOfSpace, address := some 1 } := by rfl
  have hkept : ∀ capacity, .replace capacity ∉ mishaps := by simp [mishaps]
  exact ⟨⟨hcursor, hkept, by decide, hbounds p mishaps hcursor hkept⟩, by decide,
    (hfull (.goto 5)).mpr (by decide), hrefused _ _ hanswer, hslots 0 (by decide)⟩

end StoredProgram
