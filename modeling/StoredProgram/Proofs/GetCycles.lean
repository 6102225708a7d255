import Mathlib.Data.Finset.Card
import StoredProgram.Proofs.Attribution

/-!
Chains of gets without an end. Such a chain always exceeds the limit of nesting, and with that
it is found out. A chain that ends may exceed the limit too, but only where the memory has gets
enough for it: with fewer gets than the limit, one that goes on so long has come back to a
slot where it was before, and from there it repeats itself.
-/
namespace StoredProgram

/-- The slot at the address holds a get. -/
def Memory.HoldsGet (memory : Memory) (address : Nat) : Prop :=
  ∃ target dest, memory.slots[address]? = some (some (.get target dest))

/-- The addresses that a chain of gets comes to, from its first one on. -/
inductive Reached (memory : Memory) (first : Nat) : Nat → Prop
  | start : Reached memory first first
  | next {address target dest : Nat} (hreached : Reached memory first address)
      (hslot : memory.slots[address]? = some (some (.get target dest))) :
      Reached memory first target

/-- Every address that the chain comes to is a slot and holds a get. -/
def Endless (memory : Memory) (first : Nat) : Prop :=
  ∀ address, Reached memory first address → address < memory.capacity ∧ memory.HoldsGet address

namespace Memory

variable {memory : Memory} {address target dest : Nat}

/-- The addresses of the slots that hold a get. -/
def getAddresses (memory : Memory) : Finset Nat :=
  (Finset.range memory.capacity).filter fun address =>
    memory.slots[address]?.join.any Instruction.isGet

theorem mem_getAddresses (h : memory.HoldsGet address) : address ∈ memory.getAddresses := by
  obtain ⟨target, dest, hslot⟩ := h
  have hlt : address < memory.capacity := (Array.getElem?_eq_some_iff.mp hslot).1
  rw [getAddresses, Finset.mem_filter, Finset.mem_range, hslot]
  exact ⟨hlt, rfl⟩

/-- Where the get in a slot leads to. Any other slot leads nowhere else. -/
def following (memory : Memory) (address : Nat) : Nat :=
  match memory.slots[address]? with
  | some (some (.get target _)) => target
  | _ => address

theorem following_of_slot (h : memory.slots[address]? = some (some (.get target dest))) :
    memory.following address = target := by
  rw [following, h]

/-- Once a chain has come back to where it was, it holds nothing but gets. -/
theorem holdsGet_of_repeat {i j : Nat} (hlt : i < j)
    (hrepeat : memory.following^[i] address = memory.following^[j] address)
    (hgets : ∀ k, k < j → memory.HoldsGet (memory.following^[k] address)) (k : Nat) :
    memory.HoldsGet (memory.following^[k] address) := by
  induction k using Nat.strong_induction_on with
  | h k ih =>
    by_cases hk : k < j
    · exact hgets k hk
    · have hback : memory.following^[k] address = memory.following^[k - j + i] address := by
        rw [Function.iterate_add_apply, hrepeat, ← Function.iterate_add_apply,
          Nat.sub_add_cancel (Nat.not_lt.mp hk)]
      rw [hback]
      exact ih (k - j + i) (by omega)

/-- Among more gets in a row than there are in the memory, one occurs again. -/
theorem exists_repeat {length : Nat} (hcard : memory.getAddresses.card < length)
    (hgets : ∀ k, k < length → memory.HoldsGet (memory.following^[k] address)) :
    ∃ i j, i < j ∧ j < length ∧
      memory.following^[i] address = memory.following^[j] address := by
  have hmaps : ∀ k ∈ Finset.range length,
      memory.following^[k] address ∈ memory.getAddresses := by
    intro k hk
    exact mem_getAddresses (hgets k (Finset.mem_range.mp hk))
  have hfewer : memory.getAddresses.card < (Finset.range length).card := by
    rwa [Finset.card_range]
  obtain ⟨i, hi, j, hj, hne, hsame⟩ :=
    Finset.exists_ne_map_eq_of_card_lt_of_maps_to hfewer hmaps
  rw [Finset.mem_range] at hi hj
  rcases Nat.lt_or_gt_of_ne hne with hlt | hgt
  · exact ⟨i, j, hlt, hj, hsame⟩
  · exact ⟨j, i, hgt, hi, hsame.symm⟩

end Memory

section Chains

variable {memory : Memory} {address dest a d : Nat} {dests : List Nat} {last : Instruction}

theorem Reached.exists_iterate {first : Nat} (h : Reached memory first address) :
    ∃ k, address = memory.following^[k] first := by
  induction h with
  | start => exact ⟨0, rfl⟩
  | next hreached hslot ih =>
    obtain ⟨k, rfl⟩ := ih
    refine ⟨k + 1, ?_⟩
    rw [Function.iterate_succ_apply', Memory.following_of_slot hslot]

theorem endless_of_iterate
    (h : ∀ k, memory.HoldsGet (memory.following^[k] address)) : Endless memory address := by
  intro other hreached
  obtain ⟨k, rfl⟩ := hreached.exists_iterate
  obtain ⟨target, dest, hslot⟩ := h k
  exact ⟨(Array.getElem?_eq_some_iff.mp hslot).1, target, dest, hslot⟩

/-- What comes before a get in a chain is a get. -/
theorem Leads.exists_eq_get {first : Instruction} (h : Leads memory first dests (.get a d)) :
    ∃ address dest, first = .get address dest := by
  cases h with
  | here => exact ⟨a, d, rfl⟩
  | @link address dest _ _ _ _ _ => exact ⟨address, dest, rfl⟩

/-- All slots that are passed on the way from one get to another hold gets. -/
theorem Leads.holdsGet (h : Leads memory (.get address dest) dests (.get a d)) :
    ∀ k, k < dests.length → memory.HoldsGet (memory.following^[k] address) := by
  induction dests generalizing address dest with
  | nil =>
    intro k hk
    simp at hk
  | cons first rest ih =>
    cases h with
    | link hslot hrest =>
      obtain ⟨target, other, rfl⟩ := hrest.exists_eq_get
      intro k hk
      cases k with
      | zero => exact ⟨target, other, hslot⟩
      | succ k =>
        rw [Function.iterate_succ_apply, Memory.following_of_slot hslot]
        exact ih hrest k (Nat.lt_of_succ_lt_succ hk)

theorem Endless.next {target : Nat} (h : Endless memory address)
    (hslot : memory.slots[address]? = some (some (.get target dest))) :
    Endless memory target := by
  have hall : ∀ other, Reached memory target other → Reached memory address other := by
    intro other hreached
    induction hreached with
    | start => exact Reached.start.next hslot
    | next _ hnext ih => exact ih.next hnext
  intro other hreached
  exact h other (hall other hreached)

/-- However far it is followed, an endless chain leads to gets with endless chains. -/
theorem Endless.of_leads (h : Endless memory address)
    (hleads : Leads memory (.get address dest) dests last) :
    ∃ a d, last = .get a d ∧ Endless memory a := by
  induction dests generalizing address dest with
  | nil =>
    cases hleads with
    | here => exact ⟨address, dest, rfl, h⟩
  | cons first rest ih =>
    cases hleads with
    | link hslot hrest =>
      obtain ⟨-, target, other, hget⟩ := h address Reached.start
      rw [hget] at hslot
      obtain rfl : Instruction.get target other = _ := Option.some.inj (Option.some.inj hslot)
      exact ih (h.next hget) hrest

end Chains

namespace Machine

/-- Nesting that is too deep has passed as many gets as the limit allows. -/
theorem exists_leads_of_tooDeep {m : Machine} {first : Instruction} {fault : Fault}
    (h : (m.execute first).result = .error fault) (hcause : fault.cause = .nestingTooDeep) :
    ∃ dests a d, Leads m.memory first dests (.get a d) ∧ dests.length = nestingLimit := by
  cases blames_of_execute h with
  | missing _ _ hmissing =>
    cases hmissing with
    | register => cases hcause
    | address => cases hcause
  | empty => cases hcause
  | tooDeep hleads hlength _ => exact ⟨_, _, _, hleads, hlength⟩

theorem execute_of_endless {m : Machine} {address : Nat} (h : Endless m.memory address)
    (dest : Nat) :
    ∃ a : Nat, m.execute (.get address dest) =
      m.fail { cause := .nestingTooDeep, note := s!"@{a}" } := by
  rcases m.execute_cases (.get address dest) with
    ⟨dests, leaf, hleads, -, hleaf, -⟩ | ⟨dests, a, d, fault, hleads, -, hbroken, hexecute⟩
  · obtain ⟨a, d, rfl, -⟩ := h.of_leads hleads
    cases hleaf
  · obtain ⟨_, _, hget, hend⟩ := h.of_leads hleads
    obtain ⟨rfl, rfl⟩ := Instruction.get.inj hget
    obtain ⟨hlt, target, other, hslot⟩ := hend a Reached.start
    cases hbroken with
    | outOfBounds hout => exact absurd hlt (Nat.not_lt.mpr hout)
    | empty hempty =>
      rw [hslot] at hempty
      cases hempty
    | tooDeep => exact ⟨a, hexecute⟩

/-- A get whose chain has no end fails for its nesting and does nothing else. In a memory with
no more than 63 gets, of whatever capacity, no other get fails so. -/
theorem get_cycles_are_detected (m : Machine) (address dest : Nat) :
    (Endless m.memory address →
      ∃ a : Nat, m.execute (.get address dest) =
        ⟨.error { cause := .nestingTooDeep, note := s!"@{a}" }, m, [], []⟩) ∧
    (m.memory.getAddresses.card ≤ 63 →
      ∀ fault, (m.execute (.get address dest)).result = .error fault →
        fault.cause = .nestingTooDeep → Endless m.memory address) := by
  refine ⟨fun hendless => execute_of_endless hendless dest, ?_⟩
  intro hcard fault hfault hcause
  obtain ⟨dests, a, d, hleads, hlength⟩ := exists_leads_of_tooDeep hfault hcause
  have hgets := hleads.holdsGet
  have hfewer : m.memory.getAddresses.card < dests.length := by
    rw [hlength]
    exact Nat.lt_succ_of_le hcard
  obtain ⟨i, j, hlt, hj, hrepeat⟩ := Memory.exists_repeat hfewer hgets
  apply endless_of_iterate
  apply Memory.holdsGet_of_repeat hlt hrepeat
  intro k hk
  exact hgets k (by omega)

/-- A get that leads into a circle of two, and a number that none of them comes to. -/
def circling : Machine where
  memory := ⟨#[some (.get 1 0), some (.get 2 0), some (.get 1 0), some (.data .one)], 0⟩
  registers := ⟨#[.zero]⟩

theorem circling_detected :
    (circling.memory.getAddresses.card ≤ 63 ∧
      (circling.execute (.get 0 7)).result =
        .error { cause := .nestingTooDeep, note := "@2" } ∧
      Endless circling.memory 0) ∧
    ∃ a : Nat, circling.execute (.get 0 7) =
      ⟨.error { cause := .nestingTooDeep, note := s!"@{a}" }, circling, [], []⟩ := by
  obtain ⟨hdetected, hcycle⟩ := get_cycles_are_detected circling 0 7
  have hcard : circling.memory.getAddresses.card ≤ 63 := by decide
  have hresult : (circling.execute (.get 0 7)).result =
      .error { cause := .nestingTooDeep, note := "@2" } := by decide +kernel
  have hendless := hcycle hcard _ hresult rfl
  exact ⟨⟨hcard, hresult, hendless⟩, hdetected hendless⟩

/-- Gets in a row, each of the next slot, and a number after the last. -/
def descending (count : Nat) : Machine where
  memory := ⟨((List.range count).map fun k => some (.get (k + 1) 0)).toArray.push
    (some (.data .one)), 0⟩
  registers := ⟨#[.zero]⟩

-- with one get more than 63 in the memory, a chain that ends can be too long
example :
    ((descending 63).execute (.get 0 0)).result = .ok .one ∧
      ((descending 64).execute (.get 0 0)).result =
        .error { cause := .nestingTooDeep, note := "@64" } :=
  ⟨by decide +kernel, by decide +kernel⟩

end Machine

end StoredProgram
