import Mathlib.Data.List.Basic
import StoredProgram.Proofs.Execution

/-!
Chains of gets. A get executes what it finds in a slot, which may be a get again. What
such a chain leads to is decided by the memory as it is before anything is executed:
the instruction at its end runs as if it stood alone, and its number then goes to the
registers of the gets from the last one back to the first. A chain that is broken, or
longer than the limit, does nothing but report where.
-/
namespace StoredProgram

/-- Gets in a row lead from one instruction to another: each of them names a slot and
what is in the slot comes next. Their registers are listed from the first get on. -/
inductive Leads (memory : Memory) : Instruction → List Nat → Instruction → Prop
  | here (instruction : Instruction) : Leads memory instruction [] instruction
  | link {address dest : Nat} {dests : List Nat} {found last : Instruction}
      (hslot : memory.slots[address]? = some (some found)) (hrest : Leads memory found dests last) :
      Leads memory (.get address dest) (dest :: dests) last

theorem leads_replicate {memory : Memory} {address dest : Nat}
    (hslot : memory.slots[address]? = some (some (.get address dest))) (count : Nat) :
    Leads memory (.get address dest) (List.replicate count dest) (.get address dest) := by
  induction count with
  | zero => exact Leads.here _
  | succ count ih => exact Leads.link hslot ih

/-- What an instruction has done, with its number written to registers in order. The
first register that there is not ends this with a fault; what came before it stays. -/
def Outcome.deliver (outcome : Outcome) (value : Number) (dests : List Nat) : Outcome where
  result :=
    match dests.find? fun dest => outcome.machine.registers.count ≤ dest with
    | none => .ok value
    | some missing => .error (Registers.outOfBounds missing)
  machine :=
    { outcome.machine with
      registers :=
        ⟨(dests.takeWhile fun dest => dest < outcome.machine.registers.count).foldl
          (fun values dest => values.setIfInBounds dest value) outcome.machine.registers.values⟩ }
  printed := outcome.printed
  log := outcome.log

namespace Outcome

/-- What an instruction has done, with its number, if it yields one, written to a register. -/
def storeIn (outcome : Outcome) (dest : Nat) : Outcome :=
  match outcome.result with
  | .error _ => outcome
  | .ok value =>
    let (written, registers) := outcome.machine.registers.write dest value
    { outcome with
      result := written.map fun _ => value
      machine := { outcome.machine with registers := registers } }

theorem storeIn_fail (m : Machine) (fault : Fault) (dest : Nat) :
    (m.fail fault).storeIn dest = m.fail fault := rfl

theorem foldr_storeIn_fail (m : Machine) (fault : Fault) (dests : List Nat) :
    dests.foldr (fun dest outcome => outcome.storeIn dest) (m.fail fault) = m.fail fault := by
  induction dests with
  | nil => rfl
  | cons dest rest ih => rw [List.foldr_cons, ih, storeIn_fail]

theorem storeIn_of_lt {outcome : Outcome} {value : Number} {dest : Nat}
    (hresult : outcome.result = .ok value) (hdest : dest < outcome.machine.registers.count) :
    outcome.storeIn dest =
      { outcome with
        machine :=
          { outcome.machine with
            registers := ⟨outcome.machine.registers.values.setIfInBounds dest value⟩ } } := by
  simp [storeIn, hresult, Registers.write_of_lt hdest, Except.map]

theorem storeIn_of_le {outcome : Outcome} {value : Number} {dest : Nat}
    (hresult : outcome.result = .ok value) (hdest : outcome.machine.registers.count ≤ dest) :
    outcome.storeIn dest = { outcome with result := .error (Registers.outOfBounds dest) } := by
  simp [storeIn, hresult, Registers.write_of_le hdest, Except.map]

theorem storeIn_of_error {outcome : Outcome} {fault : Fault}
    (hresult : outcome.result = .error fault) (dest : Nat) : outcome.storeIn dest = outcome := by
  simp only [storeIn, hresult]

theorem foldl_storeIn_of_error {outcome : Outcome} {fault : Fault}
    (hresult : outcome.result = .error fault) (dests : List Nat) :
    dests.foldl storeIn outcome = outcome := by
  induction dests with
  | nil => rfl
  | cons dest rest ih => rw [List.foldl_cons, storeIn_of_error hresult, ih]

/-- Storing in one register after another is what delivering says in one go. -/
theorem foldl_storeIn_eq_deliver {outcome : Outcome} {value : Number}
    (hresult : outcome.result = .ok value) (dests : List Nat) :
    dests.foldl storeIn outcome = outcome.deliver value dests := by
  induction dests generalizing outcome with
  | nil => simp [deliver, ← hresult]
  | cons dest rest ih =>
    rw [List.foldl_cons]
    by_cases hdest : dest < outcome.machine.registers.count
    · have hcount : (outcome.storeIn dest).machine.registers.count =
          outcome.machine.registers.count := by
        simp [storeIn_of_lt hresult hdest, Registers.count]
      have hnext : (outcome.storeIn dest).result = .ok value := by
        rw [storeIn_of_lt hresult hdest, hresult]
      rw [ih hnext]
      simp only [deliver, hcount]
      simp [storeIn_of_lt hresult hdest, hdest, Nat.not_le.mpr hdest]
    · have hle : outcome.machine.registers.count ≤ dest := Nat.not_lt.mp hdest
      rw [storeIn_of_le hresult hle, foldl_storeIn_of_error rfl]
      simp [deliver, hle, hdest]

end Outcome

namespace Machine

variable {m : Machine} {address : Nat}

theorem execute_of_error {leaf : Instruction} {fault : Fault} (hleaf : leaf.isGet = false)
    (h : (m.execute leaf).result = .error fault) : m.execute leaf = m.fail fault :=
  ((performs_execute hleaf m).of_error h).1

theorem executeWithin_get_of_error {fault : Fault}
    (h : Action.target address { machine := m } = (.error fault, { machine := m }))
    (depth dest : Nat) : m.executeWithin depth (.get address dest) = m.fail fault := by
  apply executeWithin_of_perform (w := { machine := m })
  rw [Instruction.perform]
  exact Action.bind_of_error h

theorem executeWithin_get_of_le (h : m.memory.capacity ≤ address) (depth dest : Nat) :
    m.executeWithin depth (.get address dest) = m.fail (Memory.outOfBounds address) := by
  apply executeWithin_get_of_error
  exact Action.bind_of_error (Action.onMemory_of_eq (by rw [Memory.get_of_le h]))

theorem executeWithin_get_of_empty (h : m.memory.slots[address]? = some none) (depth dest : Nat) :
    m.executeWithin depth (.get address dest) = m.fail (Action.emptyAddress address) := by
  apply executeWithin_get_of_error
  exact Action.bind_of_ok (Action.onMemory_of_eq (by rw [Memory.get_of_slot h])) rfl

theorem target_of_some {found : Instruction} (h : m.memory.slots[address]? = some (some found)) :
    Action.target address { machine := m } = (.ok found, { machine := m }) :=
  Action.bind_of_ok (Action.onMemory_of_eq (by rw [Memory.get_of_slot h])) rfl

/-- A get is looked up before its depth counts. -/
theorem executeWithin_get_of_zero {found : Instruction}
    (h : m.memory.slots[address]? = some (some found)) (dest : Nat) :
    m.executeWithin 0 (.get address dest) = m.fail (Action.nestingTooDeep address) := by
  apply executeWithin_of_perform (w := { machine := m })
  exact Action.bind_of_ok (target_of_some h) rfl

theorem executeWithin_get_of_some {found : Instruction}
    (h : m.memory.slots[address]? = some (some found)) (depth dest : Nat) :
    m.executeWithin (depth + 1) (.get address dest) =
      (m.executeWithin depth found).storeIn dest := by
  have htarget := target_of_some h
  rcases hfound : found.perform depth { machine := m } with ⟨result, w⟩
  rw [executeWithin_of_perform hfound]
  cases result with
  | error fault =>
    apply executeWithin_of_perform (w := w)
    exact Action.bind_of_ok htarget (Action.bind_of_error hfound)
  | ok value =>
    -- the number is loaded into the register once it is there
    rcases Nat.lt_or_ge dest w.machine.registers.count with hdest | hdest
    · have hload := Action.load_of_lt hdest value
      rw [Outcome.storeIn_of_lt rfl hdest]
      exact executeWithin_of_perform (w := { w with machine := { w.machine with registers := _ } })
        (Action.bind_of_ok htarget (Action.bind_of_ok hfound hload))
    · have hload := Action.load_of_le hdest value
      rw [Outcome.storeIn_of_le rfl hdest]
      exact executeWithin_of_perform (w := w)
        (Action.bind_of_ok htarget (Action.bind_of_ok hfound hload))

/-- The gets of a chain only store what is executed at its end. -/
theorem executeWithin_of_leads {first last : Instruction} {dests : List Nat}
    (h : Leads m.memory first dests last) (depth : Nat) :
    m.executeWithin (depth + dests.length) first =
      dests.foldr (fun dest outcome => outcome.storeIn dest) (m.executeWithin depth last) := by
  induction h with
  | here instruction => rfl
  | @link address dest dests found last hslot hrest ih =>
    rw [List.length_cons, ← Nat.add_assoc, List.foldr_cons, ← ih]
    exact executeWithin_get_of_some hslot _ dest

theorem execute_of_leads {first last : Instruction} {dests : List Nat}
    (h : Leads m.memory first dests last) (hlength : dests.length ≤ nestingLimit) :
    m.execute first =
      dests.foldr (fun dest outcome => outcome.storeIn dest)
        (m.executeWithin (nestingLimit - dests.length) last) := by
  rw [← executeWithin_of_leads h, Nat.sub_add_cancel hlength, execute]

theorem execute_of_leads_fail {first last : Instruction} {dests : List Nat}
    {fault : Fault} (h : Leads m.memory first dests last) (hlength : dests.length ≤ nestingLimit)
    (hlast : m.executeWithin (nestingLimit - dests.length) last = m.fail fault) :
    m.execute first = m.fail fault := by
  rw [execute_of_leads h hlength, hlast, Outcome.foldr_storeIn_fail]

theorem execute_of_leads_leaf {first leaf : Instruction} {dests : List Nat}
    (h : Leads m.memory first dests leaf) (hlength : dests.length ≤ nestingLimit)
    (hleaf : leaf.isGet = false) :
    m.execute first =
      match (m.execute leaf).result with
      | .error fault => m.fail fault
      | .ok value => (m.execute leaf).deliver value dests.reverse := by
  cases hresult : (m.execute leaf).result with
  | error fault =>
    apply execute_of_leads_fail h hlength
    rw [executeWithin_of_not_get hleaf, execute_of_error hleaf hresult]
  | ok value =>
    rw [execute_of_leads h hlength, executeWithin_of_not_get hleaf, List.foldr_eq_foldl_reverse]
    exact Outcome.foldl_storeIn_eq_deliver hresult dests.reverse

theorem slot_cases (memory : Memory) (address : Nat) :
    memory.capacity ≤ address ∨ memory.slots[address]? = some none ∨
      ∃ found, memory.slots[address]? = some (some found) := by
  rcases hslot : memory.slots[address]? with _ | _ | found
  · exact Or.inl (Array.getElem?_eq_none_iff.mp hslot)
  · exact Or.inr (Or.inl rfl)
  · exact Or.inr (Or.inr ⟨found, rfl⟩)

/-- Where the gets from an instruction on lead, of which at most `limit` are followed:
to an instruction that is no get, to a get that finds nothing, or on past the limit. -/
theorem leads_cases (memory : Memory) (first : Instruction) (limit : Nat) :
    ∃ dests last, Leads memory first dests last ∧
      (dests.length ≤ limit ∧ last.isGet = false ∨
        ∃ address dest, last = .get address dest ∧
          (dests.length ≤ limit ∧ memory.capacity ≤ address ∨
            dests.length ≤ limit ∧ memory.slots[address]? = some none ∨
            dests.length = limit ∧ ∃ found, memory.slots[address]? = some (some found))) := by
  induction limit generalizing first with
  | zero =>
    refine ⟨[], first, Leads.here first, ?_⟩
    cases first with
    | get address dest =>
      refine Or.inr ⟨address, dest, rfl, ?_⟩
      rcases slot_cases memory address with hout | hempty | hfound
      · exact Or.inl ⟨Nat.le_refl 0, hout⟩
      · exact Or.inr (Or.inl ⟨Nat.le_refl 0, hempty⟩)
      · exact Or.inr (Or.inr ⟨rfl, hfound⟩)
    | _ => exact Or.inl ⟨Nat.le_refl 0, rfl⟩
  | succ limit ih =>
    cases first with
    | get address dest =>
      rcases slot_cases memory address with hout | hempty | ⟨found, hslot⟩
      · exact ⟨[], _, Leads.here _, Or.inr ⟨address, dest, rfl,
          Or.inl ⟨Nat.zero_le _, hout⟩⟩⟩
      · exact ⟨[], _, Leads.here _, Or.inr ⟨address, dest, rfl,
          Or.inr (Or.inl ⟨Nat.zero_le _, hempty⟩)⟩⟩
      · obtain ⟨dests, last, hleads, hcases⟩ := ih found
        refine ⟨dest :: dests, last, Leads.link hslot hleads, ?_⟩
        simpa only [List.length_cons, Nat.add_le_add_iff_right, Nat.add_right_cancel_iff]
          using hcases
    | _ => exact ⟨[], _, Leads.here _, Or.inl ⟨Nat.zero_le _, rfl⟩⟩

/-- Why a get that is looked at cannot go on to what its slot holds. The depth is the
number of gets before it. -/
inductive Broken (memory : Memory) (depth address : Nat) : Fault → Prop
  | outOfBounds (hout : memory.capacity ≤ address) :
      Broken memory depth address (Memory.outOfBounds address)
  | empty (hempty : memory.slots[address]? = some none) :
      Broken memory depth address { cause := .emptyAddress, note := s!"@{address}" }
  | tooDeep {found : Instruction} (hdepth : depth = nestingLimit)
      (hfound : memory.slots[address]? = some (some found)) :
      Broken memory depth address { cause := .nestingTooDeep, note := s!"@{address}" }

/-- Every instruction comes down to one that is no get, or to a get that is broken. -/
theorem execute_cases (m : Machine) (first : Instruction) :
    (∃ dests leaf, Leads m.memory first dests leaf ∧ dests.length ≤ nestingLimit ∧
      leaf.isGet = false ∧
      m.execute first =
        match (m.execute leaf).result with
        | .error fault => m.fail fault
        | .ok value => (m.execute leaf).deliver value dests.reverse) ∨
    ∃ dests address dest fault, Leads m.memory first dests (.get address dest) ∧
      dests.length ≤ nestingLimit ∧ Broken m.memory dests.length address fault ∧
      m.execute first = m.fail fault := by
  obtain ⟨dests, last, hleads, ⟨hlength, hleaf⟩ | ⟨address, dest, rfl, hbroken⟩⟩ :=
    leads_cases m.memory first nestingLimit
  · exact Or.inl ⟨dests, last, hleads, hlength, hleaf, execute_of_leads_leaf hleads hlength hleaf⟩
  · rcases hbroken with ⟨hlength, hout⟩ | ⟨hlength, hempty⟩ | ⟨hlength, found, hfound⟩
    · refine Or.inr ⟨dests, address, dest, _, hleads, hlength, Broken.outOfBounds hout, ?_⟩
      exact execute_of_leads_fail hleads hlength (executeWithin_get_of_le hout _ dest)
    · refine Or.inr ⟨dests, address, dest, _, hleads, hlength, Broken.empty hempty, ?_⟩
      exact execute_of_leads_fail hleads hlength (executeWithin_get_of_empty hempty _ dest)
    · refine Or.inr ⟨dests, address, dest, _, hleads, Nat.le_of_eq hlength,
        Broken.tooDeep hlength hfound, ?_⟩
      apply execute_of_leads_fail hleads (Nat.le_of_eq hlength)
      rw [hlength, Nat.sub_self]
      exact executeWithin_get_of_zero hfound dest

/-- A get does what the end of its chain does, as far as the chain has one. Up to 64 gets
lead to an instruction that then runs alone, and its number goes to the registers from the
last get back to the first. Up to 65 gets are looked at: the first of them that finds no
slot or nothing in it is the fault, and so is the last one if it does find something.
There are no other chains. -/
theorem execute_get_resolves_then_runs (m : Machine) (address dest : Nat) :
    (∀ dests leaf, Leads m.memory (.get address dest) dests leaf → leaf.isGet = false →
      dests.length ≤ 64 →
      (∀ fault, (m.execute leaf).result = .error fault →
        m.execute leaf = m.fail fault ∧ m.execute (.get address dest) = m.fail fault) ∧
      ∀ value, (m.execute leaf).result = .ok value →
        m.execute (.get address dest) = (m.execute leaf).deliver value dests.reverse) ∧
    (∀ dests a d, Leads m.memory (.get address dest) dests (.get a d) → dests.length + 1 ≤ 65 →
      (m.memory.capacity ≤ a →
        m.execute (.get address dest) = m.fail (Memory.outOfBounds a)) ∧
      (m.memory.slots[a]? = some none →
        m.execute (.get address dest) =
          m.fail { cause := .emptyAddress, note := s!"@{a}" })) ∧
    (∀ dests a d found, Leads m.memory (.get address dest) dests (.get a d) →
      dests.length + 1 = 65 → m.memory.slots[a]? = some (some found) →
      m.execute (.get address dest) = m.fail { cause := .nestingTooDeep, note := s!"@{a}" }) ∧
    ∃ dests last, Leads m.memory (.get address dest) dests last ∧
      (dests.length ≤ 64 ∧ last.isGet = false ∨
        ∃ a d, last = .get a d ∧
          (dests.length + 1 ≤ 65 ∧ m.memory.capacity ≤ a ∨
            dests.length + 1 ≤ 65 ∧ m.memory.slots[a]? = some none ∨
            dests.length + 1 = 65 ∧ ∃ found, m.memory.slots[a]? = some (some found))) := by
  refine ⟨?_, ?_, ?_, ?_⟩
  · intro dests leaf hleads hleaf hlength
    have hexecute := execute_of_leads_leaf hleads hlength hleaf
    refine ⟨fun fault hfault => ⟨execute_of_error hleaf hfault, ?_⟩, fun value hvalue => ?_⟩
    · rw [hexecute, hfault]
    · rw [hexecute, hvalue]
  · intro dests a d hleads hlength
    have hlimit : dests.length ≤ nestingLimit := Nat.le_of_succ_le_succ hlength
    refine ⟨fun hout => ?_, fun hempty => ?_⟩
    · exact execute_of_leads_fail hleads hlimit (executeWithin_get_of_le hout _ d)
    · exact execute_of_leads_fail hleads hlimit (executeWithin_get_of_empty hempty _ d)
  · intro dests a d found hleads hlength hfound
    have hlimit : dests.length = nestingLimit := Nat.succ.inj hlength
    apply execute_of_leads_fail hleads (Nat.le_of_eq hlimit)
    rw [hlimit, Nat.sub_self]
    exact executeWithin_get_of_zero hfound d
  · simpa only [Nat.reduceLeDiff, Nat.add_le_add_iff_right, Nat.reduceEqDiff]
      using leads_cases m.memory (.get address dest) 64

/-- Two gets before a put that overwrites the first of them, an empty slot, and a get
that finds itself. -/
def mixedChains : Machine where
  memory := ⟨#[some (.get 1 0), some (.put 1 0), none, some (.get 3 1)], 0⟩
  registers := ⟨#[.zero, .one]⟩

theorem execute_get_on_mixedChains :
    (Leads mixedChains.memory (.get 0 7) [7, 0] (.put 1 0) ∧
      mixedChains.execute (.get 0 7) =
        ⟨.error (Registers.outOfBounds 7),
          ⟨⟨#[some (.data .one), some (.put 1 0), none, some (.get 3 1)], 0⟩, ⟨#[.one, .one]⟩⟩,
          [], [.rewritten 0 .one]⟩) ∧
    (Leads mixedChains.memory (.get 2 0) [] (.get 2 0) ∧
      mixedChains.execute (.get 2 0) =
        mixedChains.fail { cause := .emptyAddress, note := "@2" }) ∧
    (Leads mixedChains.memory (.get 4 0) [] (.get 4 0) ∧
      mixedChains.execute (.get 4 0) = mixedChains.fail (Memory.outOfBounds 4)) ∧
    (Leads mixedChains.memory (.get 3 1) (List.replicate 64 1) (.get 3 1) ∧
      mixedChains.execute (.get 3 1) =
        mixedChains.fail { cause := .nestingTooDeep, note := "@3" }) := by
  have hput : Leads mixedChains.memory (.get 0 7) [7, 0] (.put 1 0) :=
    Leads.link rfl (Leads.link rfl (Leads.here _))
  have hloop : Leads mixedChains.memory (.get 3 1) (List.replicate 64 1) (.get 3 1) :=
    leads_replicate rfl 64
  refine ⟨⟨hput, ?_⟩, ⟨Leads.here _, ?_⟩, ⟨Leads.here _, ?_⟩, hloop, ?_⟩
  · exact ((execute_get_resolves_then_runs mixedChains 0 7).1 _ _ hput rfl (by decide)).2 .one rfl
  · exact ((execute_get_resolves_then_runs mixedChains 2 0).2.1 _ _ _ (Leads.here _)
      (by decide)).2 rfl
  · exact ((execute_get_resolves_then_runs mixedChains 4 0).2.1 _ _ _ (Leads.here _)
      (by decide)).1 (by decide)
  · exact (execute_get_resolves_then_runs mixedChains 3 1).2.2.1 _ _ _ _ hloop rfl rfl

end Machine

end StoredProgram
