import StoredProgram.Program.Basic
import StoredProgram.Proofs.Cycle

/-!
Loading a program. It is loaded exactly if its origin is a slot and there is room for all
its instructions from there on. Whether it is or not, the memory keeps its capacity and the
cursor stays on a slot or at the end.
-/
namespace StoredProgram

namespace Memory

/-- The memory has that many slots, and the cursor is on one of them or at the end. -/
structure Bounded (capacity : Nat) (m : Memory) : Prop where
  capacity_eq : m.capacity = capacity
  cursor_le : m.cursor ≤ capacity

theorem Bounded.wellFormed {capacity : Nat} {m : Memory} (h : m.Bounded capacity) :
    m.WellFormed := by
  rw [WellFormed, h.capacity_eq]
  exact h.cursor_le

theorem WellFormed.bounded {capacity : Nat} {m : Memory} (h : m.WellFormed)
    (hcapacity : m.capacity = capacity) : m.Bounded capacity :=
  ⟨hcapacity, hcapacity ▸ h⟩

theorem capacity_blank (capacity : Nat) : (blank capacity).capacity = capacity :=
  Array.size_replicate

theorem bounded_blank (capacity : Nat) : (blank capacity).Bounded capacity :=
  ⟨capacity_blank capacity, Nat.zero_le capacity⟩

/-- Moving the cursor, or storing something, keeps the bounds if the cursor does. -/
theorem Bounded.of_slots {capacity : Nat} {m next : Memory} (h : m.Bounded capacity)
    (hsize : next.slots.size = m.slots.size) (hcursor : next.cursor ≤ m.capacity) :
    next.Bounded capacity :=
  ⟨hsize.trans h.capacity_eq, h.capacity_eq ▸ hcursor⟩

theorem Bounded.seek {capacity : Nat} {m : Memory} (h : m.Bounded capacity) (address : Nat) :
    (m.seek address).2.Bounded capacity := by
  rcases Nat.lt_or_ge address m.capacity with hlt | hge
  · rw [seek_of_lt hlt]
    exact h.of_slots rfl (Nat.le_of_lt hlt)
  · rw [seek_of_le hge]
    exact h

theorem Bounded.append {capacity : Nat} {m : Memory} (h : m.Bounded capacity)
    (instruction : Instruction) : (m.append instruction).2.Bounded capacity := by
  rcases Nat.lt_or_ge m.cursor m.capacity with hlt | hge
  · rw [append_of_lt hlt]
    exact h.of_slots Array.size_setIfInBounds hlt
  · rw [append_of_le hge]
    exact h

/-- What was stored before there was no more space is stored within the bounds too. -/
theorem Bounded.appendAll {capacity : Nat} {m : Memory} (h : m.Bounded capacity)
    (instructions : List Instruction) : (m.appendAll instructions).2.Bounded capacity := by
  induction instructions generalizing m with
  | nil => exact h
  | cons instruction rest ih =>
    have hnext := h.append instruction
    rcases happend : m.append instruction with ⟨fault | done, next⟩
    · rw [happend] at hnext
      simpa only [Memory.appendAll, happend] using hnext
    · rw [happend] at hnext
      simpa only [Memory.appendAll, happend] using ih hnext

theorem appendAll_of_le {m : Memory} {instructions : List Instruction}
    (h : m.cursor + instructions.length ≤ m.capacity) :
    (m.appendAll instructions).1 = .ok () := by
  induction instructions generalizing m with
  | nil => rfl
  | cons instruction rest ih =>
    rw [List.length_cons] at h
    have hcursor : m.cursor < m.capacity := by omega
    simp only [appendAll, append_of_lt hcursor]
    apply ih
    simp only [capacity, Array.size_setIfInBounds] at h ⊢
    omega

/-- The first instruction that finds no space finds the cursor at the end. -/
theorem appendAll_of_lt {m : Memory} {instructions : List Instruction}
    (hcursor : m.cursor ≤ m.capacity) (h : m.capacity < m.cursor + instructions.length) :
    (m.appendAll instructions).1 = .error (outOfSpace m.capacity) := by
  induction instructions generalizing m with
  | nil =>
    rw [List.length_nil] at h
    omega
  | cons instruction rest ih =>
    rw [List.length_cons] at h
    by_cases hspace : m.cursor < m.capacity
    · simp only [appendAll, append_of_lt hspace]
      have hrest := ih (m := ⟨m.slots.setIfInBounds m.cursor (some instruction), m.cursor + 1⟩)
      simp only [capacity, Array.size_setIfInBounds] at hspace h hrest ⊢
      exact hrest (by omega) (by omega)
    · have hend : m.cursor = m.capacity := by omega
      simp only [appendAll, append_of_le (Nat.le_of_eq hend.symm), hend]

end Memory

namespace Program

variable {p : Program} {m : Memory}

theorem load_of_le (h : m.capacity ≤ p.origin) :
    p.load m = (.error (Memory.outOfBounds p.origin), m) := by
  simp only [load, Memory.seek_of_le h]

/-- With an origin that is a slot, loading stands or falls with filling the slots. -/
theorem load_of_lt (h : p.origin < m.capacity) :
    p.load m =
      match Memory.appendAll { m with cursor := p.origin } p.instructions with
      | (.error fault, filled) => (.error fault, filled)
      | (.ok (), filled) => (.ok p.origin, { filled with cursor := p.origin }) := by
  have hstart : Memory.Bounded m.capacity { m with cursor := p.origin } :=
    ⟨rfl, Nat.le_of_lt h⟩
  have hafter := hstart.appendAll p.instructions
  simp only [load, Memory.seek_of_lt h]
  generalize Memory.appendAll { m with cursor := p.origin } p.instructions = attempt at hafter ⊢
  obtain ⟨_ | _, filled⟩ := attempt
  · rfl
  · have hready : p.origin < filled.capacity := by rwa [hafter.capacity_eq]
    simp only [Memory.seek_of_lt hready]

theorem load_of_fits (horigin : p.origin < m.capacity) (hsize : p.origin + p.size ≤ m.capacity) :
    (p.load m).1 = .ok p.origin := by
  have hfill := Memory.appendAll_of_le (m := { m with cursor := p.origin }) hsize
  rw [load_of_lt horigin]
  generalize Memory.appendAll { m with cursor := p.origin } p.instructions = attempt at hfill ⊢
  obtain ⟨_ | _, filled⟩ := attempt
  · cases hfill
  · rfl

theorem load_of_overflow (horigin : p.origin < m.capacity)
    (hsize : m.capacity < p.origin + p.size) :
    (p.load m).1 = .error (Memory.outOfSpace m.capacity) := by
  have hfill := Memory.appendAll_of_lt (m := { m with cursor := p.origin })
    (Nat.le_of_lt horigin) hsize
  rw [load_of_lt horigin]
  generalize Memory.appendAll { m with cursor := p.origin } p.instructions = attempt at hfill ⊢
  obtain ⟨_ | _, filled⟩ := attempt
  · exact congrArg Except.error (Except.error.inj hfill)
  · cases hfill

theorem load_of_misfit (h : m.capacity ≤ p.origin ∨ m.capacity < p.origin + p.size) :
    ∃ fault, (p.load m).1 = .error fault := by
  rcases Nat.lt_or_ge p.origin m.capacity with hlt | hge
  · exact ⟨_, load_of_overflow hlt (h.resolve_left (Nat.not_le.mpr hlt))⟩
  · exact ⟨_, congrArg Prod.fst (load_of_le hge)⟩

end Program

theorem Memory.Bounded.load {capacity : Nat} {m : Memory} (h : m.Bounded capacity)
    (program : Program) : (program.load m).2.Bounded capacity := by
  by_cases horigin : program.origin < m.capacity
  · have hstart : Memory.Bounded capacity { m with cursor := program.origin } :=
      h.of_slots rfl (Nat.le_of_lt horigin)
    have hafter := hstart.appendAll program.instructions
    rw [Program.load_of_lt horigin]
    generalize Memory.appendAll { m with cursor := program.origin } program.instructions =
      attempt at hafter ⊢
    obtain ⟨_ | _, filled⟩ := attempt
    · exact hafter
    · refine hafter.of_slots rfl ?_
      rw [hafter.capacity_eq, ← h.capacity_eq]
      exact Nat.le_of_lt horigin
  · rw [Program.load_of_le (Nat.not_lt.mp horigin)]
    exact h

end StoredProgram
