import StoredProgram.Proofs.Loading

/-!
What loading leaves in the memory. The slots from the origin on hold the instructions, as far
as there are slots, and all others hold what they held. That says what every slot holds, so
storing from the cursor on and storing at the address of each placement come to the same.
-/
namespace StoredProgram

/-- The slots after instructions were stored from `start` on, as far as there are slots. -/
structure Filled (before : Array (Option Instruction)) (start : Nat)
    (instructions : List Instruction) (after : Array (Option Instruction)) : Prop where
  size_eq : after.size = before.size
  placed : ∀ k instruction, instructions[k]? = some instruction → start + k < before.size →
    after[start + k]? = some (some instruction)
  kept : ∀ address, address < start ∨ start + instructions.length ≤ address →
    after[address]? = before[address]?

namespace Filled

variable {before after other : Array (Option Instruction)} {start : Nat}
  {instruction : Instruction} {instructions rest : List Instruction}

theorem nil (before : Array (Option Instruction)) (start : Nat) : Filled before start [] before :=
  ⟨rfl, by simp, fun _ _ => rfl⟩

/-- At the end there is no slot for any of them. -/
theorem full (h : before.size ≤ start) (instructions : List Instruction) :
    Filled before start instructions before := by
  refine ⟨rfl, fun k instruction _ hlt => ?_, fun _ _ => rfl⟩
  omega

/-- One instruction is stored, and the others from the next slot on. -/
theorem cons (hstart : start < before.size)
    (h : Filled (before.setIfInBounds start (some instruction)) (start + 1) rest after) :
    Filled before start (instruction :: rest) after := by
  have hsize : (before.setIfInBounds start (some instruction)).size = before.size :=
    Array.size_setIfInBounds
  refine ⟨h.size_eq.trans hsize, ?_, ?_⟩
  · intro k found hfound hlt
    cases k with
    | zero =>
      obtain rfl : instruction = found := by simpa using hfound
      rw [Nat.add_zero, h.kept start (Or.inl (Nat.lt_succ_self start)),
        Array.getElem?_setIfInBounds_self_of_lt hstart]
    | succ k =>
      have hrest : rest[k]? = some found := by simpa using hfound
      have hplaced := h.placed k found hrest (by rw [hsize]; omega)
      rwa [show start + 1 + k = start + (k + 1) by omega] at hplaced
  · intro address haddress
    rw [List.length_cons] at haddress
    rw [h.kept address (by omega), Array.getElem?_setIfInBounds_ne (by omega)]

/-- There is one way to fill the slots. -/
theorem unique (h : Filled before start instructions after)
    (hother : Filled before start instructions other) : after = other := by
  apply Array.ext_getElem?
  intro address
  by_cases hinside : start ≤ address ∧ address < start + instructions.length
  · obtain ⟨k, rfl⟩ := Nat.exists_eq_add_of_le hinside.1
    by_cases hslot : start + k < before.size
    · have hsome := List.getElem?_eq_getElem (show k < instructions.length by omega)
      rw [h.placed k _ hsome hslot, hother.placed k _ hsome hslot]
    · rw [Array.getElem?_eq_none (by rw [h.size_eq]; omega),
        Array.getElem?_eq_none (by rw [hother.size_eq]; omega)]
  · have houtside : address < start ∨ start + instructions.length ≤ address := by omega
    rw [h.kept address houtside, hother.kept address houtside]

end Filled

namespace Memory

/-- Stores instructions at the addresses that come with them. -/
def putAll (m : Memory) : List (Instruction × Nat) → Except Fault Unit × Memory
  | [] => (.ok (), m)
  | (instruction, address) :: rest =>
    match m.put instruction address with
    | (.ok (), next) => next.putAll rest
    | (.error fault, next) => (.error fault, next)

/-- Appending fills the slots from the cursor on and leaves the cursor behind them, or at the
end if there is no space for all. -/
theorem appendAll_fills {m : Memory} (hcursor : m.cursor ≤ m.capacity)
    (instructions : List Instruction) :
    Filled m.slots m.cursor instructions (m.appendAll instructions).2.slots ∧
      (m.appendAll instructions).2.cursor = min m.capacity (m.cursor + instructions.length) := by
  induction instructions generalizing m with
  | nil =>
    refine ⟨Filled.nil m.slots m.cursor, ?_⟩
    simp only [appendAll, List.length_nil]
    omega
  | cons instruction rest ih =>
    by_cases hspace : m.cursor < m.capacity
    · simp only [appendAll, append_of_lt hspace]
      have hcapacity : capacity ⟨m.slots.setIfInBounds m.cursor (some instruction), m.cursor + 1⟩ =
          m.capacity := Array.size_setIfInBounds
      obtain ⟨hfilled, hend⟩ :=
        ih (m := ⟨m.slots.setIfInBounds m.cursor (some instruction), m.cursor + 1⟩)
          (by rw [hcapacity]; exact hspace)
      refine ⟨hfilled.cons hspace, ?_⟩
      rw [hend, hcapacity, List.length_cons]
      show min m.capacity (m.cursor + 1 + rest.length) = _
      omega
    · have hend : m.capacity ≤ m.cursor := Nat.not_lt.mp hspace
      simp only [appendAll, append_of_le hend]
      refine ⟨Filled.full hend _, ?_⟩
      omega

/-- Putting instructions in consecutive slots fills these and leaves the cursor alone. -/
theorem putAll_fills {m : Memory} {start : Nat} {instructions : List Instruction}
    (h : start + instructions.length ≤ m.capacity) :
    ∃ next, m.putAll (instructions.zipIdx start) = (.ok (), next) ∧
      Filled m.slots start instructions next.slots ∧ next.cursor = m.cursor := by
  induction instructions generalizing m start with
  | nil => exact ⟨m, rfl, Filled.nil m.slots start, rfl⟩
  | cons instruction rest ih =>
    rw [List.length_cons] at h
    have hstart : start < m.capacity := by omega
    have hcapacity : capacity { m with slots := m.slots.setIfInBounds start (some instruction) } =
        m.capacity := Array.size_setIfInBounds
    have hfits : start + 1 + rest.length ≤
        capacity { m with slots := m.slots.setIfInBounds start (some instruction) } := by
      rw [hcapacity]
      omega
    obtain ⟨next, hputs, hfilled, hcursor⟩ := ih hfits
    refine ⟨next, ?_, hfilled.cons hstart, hcursor⟩
    simpa only [List.zipIdx_cons, putAll, put_of_lt hstart] using hputs

end Memory

namespace Program

variable {p : Program} {m : Memory}

/-- Moving the cursor back at the end changes no slot. -/
theorem slots_load (h : p.origin < m.capacity) :
    (p.load m).2.slots =
      (Memory.appendAll { m with cursor := p.origin } p.instructions).2.slots := by
  rw [load_of_lt h]
  generalize Memory.appendAll { m with cursor := p.origin } p.instructions = attempt
  obtain ⟨_ | _, filled⟩ := attempt
  · rfl
  · rfl

theorem load_fills (h : p.origin < m.capacity) :
    Filled m.slots p.origin p.instructions (p.load m).2.slots := by
  rw [slots_load h]
  exact (Memory.appendAll_fills (m := { m with cursor := p.origin }) (Nat.le_of_lt h)
    p.instructions).1

theorem cursor_load_of_fits (horigin : p.origin < m.capacity)
    (hsize : p.origin + p.size ≤ m.capacity) : (p.load m).2.cursor = p.origin := by
  have hfill := Memory.appendAll_of_le (m := { m with cursor := p.origin }) hsize
  rw [load_of_lt horigin]
  generalize Memory.appendAll { m with cursor := p.origin } p.instructions = attempt at hfill ⊢
  obtain ⟨_ | _, filled⟩ := attempt
  · cases hfill
  · rfl

theorem cursor_load_of_overflow (horigin : p.origin < m.capacity)
    (hsize : m.capacity < p.origin + p.size) : (p.load m).2.cursor = m.capacity := by
  have hfill := Memory.appendAll_of_lt (m := { m with cursor := p.origin })
    (Nat.le_of_lt horigin) hsize
  obtain ⟨-, hend⟩ := Memory.appendAll_fills (m := { m with cursor := p.origin })
    (Nat.le_of_lt horigin) p.instructions
  rw [load_of_lt horigin]
  generalize Memory.appendAll { m with cursor := p.origin } p.instructions = attempt at hfill hend ⊢
  obtain ⟨_ | _, filled⟩ := attempt
  · exact hend.trans (Nat.min_eq_left (Nat.le_of_lt hsize))
  · cases hfill

/-- Where a program fits, loading it comes to a put for each placement and a seek. -/
theorem load_eq_puts (horigin : p.origin < m.capacity)
    (hsize : p.origin + p.size ≤ m.capacity) :
    ∃ filled, m.putAll p.placements = (.ok (), filled) ∧
      filled.seek p.origin = (.ok (), (p.load m).2) := by
  obtain ⟨filled, hputs, hfilled, -⟩ := Memory.putAll_fills (m := m) hsize
  have hready : p.origin < filled.capacity := by
    rw [Memory.capacity, hfilled.size_eq]
    exact horigin
  refine ⟨filled, hputs, ?_⟩
  rw [Memory.seek_of_lt hready, hfilled.unique (load_fills horigin),
    ← cursor_load_of_fits horigin hsize]

theorem load_succeeds_iff (p : Program) (m : Memory) :
    (∃ entry, (p.load m).1 = .ok entry) ↔
      p.origin < m.capacity ∧ p.origin + p.size ≤ m.capacity := by
  constructor
  · rintro ⟨entry, hentry⟩
    by_contra hmisfit
    obtain ⟨fault, hfault⟩ := load_of_misfit (p := p) (m := m) (by omega)
    rw [hfault] at hentry
    cases hentry
  · rintro ⟨horigin, hsize⟩
    exact ⟨p.origin, load_of_fits horigin hsize⟩

/-- A program is loaded exactly if its origin is a slot and all its instructions find one.
Then each is in its place, nothing else has changed, and the memory is the one that a put for
each placement and a seek would leave. Otherwise nothing has changed if the origin is no slot,
and if the space runs out, the slots up to the end hold what had its place there. -/
theorem loading_is_exact (p : Program) (m : Memory) :
    ((∃ entry, (p.load m).1 = .ok entry) ↔
      p.origin < m.capacity ∧ p.origin + p.size ≤ m.capacity) ∧
    (p.origin < m.capacity → p.origin + p.size ≤ m.capacity →
      (p.load m).1 = .ok p.origin ∧ (p.load m).2.cursor = p.origin ∧
      (p.load m).2.capacity = m.capacity ∧
      (∀ k instruction, p.instructions[k]? = some instruction →
        (p.load m).2.slots[p.origin + k]? = some (some instruction)) ∧
      (∀ address, address < p.origin ∨ p.origin + p.size ≤ address →
        (p.load m).2.slots[address]? = m.slots[address]?) ∧
      ∃ filled, m.putAll p.placements = (.ok (), filled) ∧
        filled.seek p.origin = (.ok (), (p.load m).2)) ∧
    (m.capacity ≤ p.origin →
      p.load m = (.error { cause := .addressOutOfBounds, address := some p.origin }, m)) ∧
    (p.origin < m.capacity → m.capacity < p.origin + p.size →
      (p.load m).1 = .error { cause := .outOfSpace, address := some m.capacity } ∧
      (p.load m).2.cursor = m.capacity ∧ (p.load m).2.capacity = m.capacity ∧
      (∀ k, p.origin + k < m.capacity → ∃ instruction, p.instructions[k]? = some instruction ∧
        (p.load m).2.slots[p.origin + k]? = some (some instruction)) ∧
      ∀ address, address < p.origin → (p.load m).2.slots[address]? = m.slots[address]?) := by
  refine ⟨load_succeeds_iff p m, ?_, load_of_le, ?_⟩
  · intro horigin hsize
    have hfilled := load_fills horigin
    refine ⟨load_of_fits horigin hsize, cursor_load_of_fits horigin hsize, hfilled.size_eq, ?_,
      hfilled.kept, load_eq_puts horigin hsize⟩
    intro k instruction hsome
    have hk : k < p.size := (List.getElem?_eq_some_iff.mp hsome).1
    have hslot : p.origin + k < m.capacity := by omega
    exact hfilled.placed k instruction hsome hslot
  · intro horigin hsize
    have hfilled := load_fills horigin
    refine ⟨load_of_overflow horigin hsize, cursor_load_of_overflow horigin hsize, hfilled.size_eq,
      ?_, fun address haddress => hfilled.kept address (Or.inl haddress)⟩
    intro k hslot
    have hk : k < p.instructions.length := by
      have hlength : p.size = p.instructions.length := rfl
      omega
    have hsome := List.getElem?_eq_getElem hk
    exact ⟨_, hsome, hfilled.placed k _ hsome hslot⟩

/-- Two slots in use, the last of them beyond the cursor. -/
def halfUsed : Memory := ⟨#[some (.goto 9), none, some (.goto 8)], 1⟩

/-- Two instructions fit from the second slot on and overwrite the last one, three do not, and
from the fourth on there is no slot at all. -/
theorem loading_into_halfUsed :
    (load ⟨1, [.data .one, .get 0 0]⟩ halfUsed =
        (.ok 1, ⟨#[some (.goto 9), some (.data .one), some (.get 0 0)], 1⟩) ∧
      (load ⟨1, [.data .one, .get 0 0]⟩ halfUsed).2.slots[0]? = halfUsed.slots[0]? ∧
      ∃ filled, halfUsed.putAll [(.data .one, 1), (.get 0 0, 2)] = (.ok (), filled) ∧
        filled.seek 1 = (.ok (), (load ⟨1, [.data .one, .get 0 0]⟩ halfUsed).2)) ∧
    load ⟨3, []⟩ halfUsed =
      (.error { cause := .addressOutOfBounds, address := some 3 }, halfUsed) ∧
    ((load ⟨1, [.goto 0, .goto 1, .goto 2]⟩ halfUsed).1 =
        .error { cause := .outOfSpace, address := some 3 } ∧
      (load ⟨1, [.goto 0, .goto 1, .goto 2]⟩ halfUsed).2.cursor = 3 ∧
      (load ⟨1, [.goto 0, .goto 1, .goto 2]⟩ halfUsed).2.slots[0]? = halfUsed.slots[0]?) := by
  obtain ⟨-, hfits, -, -⟩ := loading_is_exact ⟨1, [.data .one, .get 0 0]⟩ halfUsed
  obtain ⟨-, -, houtside, -⟩ := loading_is_exact ⟨3, []⟩ halfUsed
  obtain ⟨-, -, -, hoverflow⟩ := loading_is_exact ⟨1, [.goto 0, .goto 1, .goto 2]⟩ halfUsed
  obtain ⟨-, -, -, -, hkept, hputs⟩ := hfits (by decide) (by decide)
  obtain ⟨hfault, hcursor, -, -, hbelow⟩ := hoverflow (by decide) (by decide)
  refine ⟨⟨by rfl, hkept 0 (Or.inl (by decide)), hputs⟩, houtside (by decide), hfault, hcursor, ?_⟩
  exact hbelow 0 (by decide)

end Program

end StoredProgram
