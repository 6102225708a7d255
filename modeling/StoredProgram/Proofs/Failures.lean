import StoredProgram.Proofs.Commuting
import StoredProgram.Proofs.ControlFlow

/-!
When an instruction fails, and what it leaves behind. An instruction other than a get needs
the registers that it names and, if it comes to use its address, the slot there. It fails
exactly for want of one of these, the first that is wanting is the fault, and nothing has
been done then. A get that fails has done something only if a register of a get is wanting:
this is found out after the instruction at the end of the chain was executed, and every
other fault of a chain before that.
-/
namespace StoredProgram

/-- All registers that the instruction names and the slot that it uses are there. -/
structure Provided (m : Machine) (leaf : Instruction) : Prop where
  registers : ∀ register ∈ leaf.registers, register < m.registers.count
  address : ∀ address, Uses m.registers leaf address → address < m.memory.capacity

variable {m : Machine} {leaf : Instruction}

theorem Lacks.not_provided {fault : Fault} (h : Lacks m leaf fault) : ¬ Provided m leaf := by
  intro hprovided
  cases h with
  | @register before after register hnames _ hout =>
    have hmem : register ∈ leaf.registers := by simp [hnames]
    exact absurd (hprovided.registers register hmem) (Nat.not_lt.mpr hout)
  | address _ huses hout => exact absurd (hprovided.address _ huses) (Nat.not_lt.mpr hout)

namespace Uses

variable {registers : Registers} {address : Nat}

theorem address? (h : Uses registers leaf address) : leaf.address? = some address := by
  cases h with
  | put => rfl
  | jump hjumps => exact hjumps.address?

theorem iff_jumps (hput : ∀ source other, leaf ≠ .put source other) :
    Uses registers leaf address ↔ Jumps registers leaf address := by
  refine ⟨?_, Uses.jump⟩
  rintro (⟨source, _⟩ | hjumps)
  · exact absurd rfl (hput source address)
  · exact hjumps

end Uses

theorem not_uses (hjump : leaf.isJump = false) (hput : ∀ source address, leaf ≠ .put source address)
    (address : Nat) : ¬ Uses m.registers leaf address := by
  rw [Uses.iff_jumps hput]
  exact Machine.not_jumps hjump address

namespace Machine

/-- An instruction that yields a number has found all that it asks for. -/
theorem provided_of_performs {outcome : Outcome} {value : Number} (h : Performs m leaf outcome)
    (hok : outcome.result = .ok value) : Provided m leaf where
  registers := by
    cases h with
    | data => simp [Instruction.registers]
    | load _ hdest => simpa [Instruction.registers] using hdest
    | put hsource _ => simpa [Instruction.registers] using Registers.lt_count_of_some hsource
    | arithmetic _ hleft hright hdest =>
      simpa [Instruction.registers] using And.intro (Registers.lt_count_of_some hleft)
        (And.intro (Registers.lt_count_of_some hright) hdest)
    | jump hjumps _ => exact hjumps.registers_lt
    | pass _ hregisters _ => exact hregisters
    | print _ hregister => simpa [Instruction.registers] using Registers.lt_count_of_some hregister
    | lacks => cases hok
  address := by
    intro address huses
    cases h with
    | put _ haddress =>
      rcases huses with ⟨_, _⟩ | hjumps
      · exact haddress
      · exact absurd hjumps (not_jumps rfl address)
    | jump hjumps haddress =>
      rcases huses with ⟨_, _⟩ | hother
      · cases hjumps
      · rwa [hother.unique hjumps]
    | pass hjump _ hstays =>
      rcases huses with ⟨_, _⟩ | hother
      · cases hjump
      · exact absurd hother (hstays address)
    | lacks => cases hok
    | _ => exact absurd huses (not_uses rfl (by simp) address)

theorem execute_ok_iff (hleaf : leaf.isGet = false) :
    (∃ value, (m.execute leaf).result = .ok value) ↔ Provided m leaf := by
  have hperforms := performs_execute hleaf m
  constructor
  · rintro ⟨value, hvalue⟩
    exact provided_of_performs hperforms hvalue
  · intro hprovided
    cases hresult : (m.execute leaf).result with
    | ok value => exact ⟨value, rfl⟩
    | error fault => exact absurd hprovided (hperforms.of_error hresult).2.not_provided

/-- Whatever a chain of gets comes to, it has done nothing if it fails, unless a register is
wanting. -/
theorem execute_of_error_ne_register {first : Instruction} {fault : Fault}
    (h : (m.execute first).result = .error fault) (hcause : fault.cause ≠ .registerOutOfBounds) :
    m.execute first = m.fail fault := by
  rcases m.execute_cases first with
    ⟨dests, last, -, -, -, hexecute⟩ | ⟨_, _, _, other, -, -, -, hexecute⟩
  · cases hresult : (m.execute last).result with
    | error other =>
      rw [hexecute, hresult] at h ⊢
      rw [Except.error.inj h]
    | ok value =>
      -- the end of the chain is done, so that only storing its number can fail
      rw [hexecute, hresult] at h
      simp only [Outcome.deliver] at h
      split at h
      · cases h
      · obtain rfl := Except.error.inj h
        exact absurd rfl hcause
  · rw [hexecute] at h ⊢
    rw [Except.error.inj h]

/-- An instruction other than a get yields a number exactly if all registers that it names
are there and the slot that it uses, if it uses one. If it fails, the fault is the first of
them that is not there, registers before the address, and nothing has been changed, printed
or logged. Nor has a get that fails left anything behind, whatever its chain has executed,
unless the fault is a register that is not there. What was printed or logged before an
instruction stays as it is in any case, and makes no difference to it. -/
theorem failures_are_exact_and_atomic (m : Machine) (instruction : Instruction) :
    (instruction.isGet = false →
      ((∃ value, (m.execute instruction).result = .ok value) ↔
        (∀ register ∈ instruction.registers, register < m.registers.count) ∧
          ∀ address, Uses m.registers instruction address → address < m.memory.capacity) ∧
      ∀ fault, (m.execute instruction).result = .error fault →
        m.execute instruction = m.fail fault ∧ Lacks m instruction fault) ∧
    (instruction.isGet = true →
      ∀ fault, (m.execute instruction).result = .error fault →
        fault.cause ≠ .registerOutOfBounds → m.execute instruction = m.fail fault) ∧
    ∀ printed log, instruction.perform nestingLimit ⟨m, printed, log⟩ =
      ((m.execute instruction).result,
        ⟨(m.execute instruction).machine, printed ++ (m.execute instruction).printed,
          log ++ (m.execute instruction).log⟩) := by
  refine ⟨?_, ?_, m.perform_eq_execute instruction⟩
  · intro hleaf
    refine ⟨?_, fun fault hfault => (performs_execute hleaf m).of_error hfault⟩
    rw [execute_ok_iff hleaf]
    exact ⟨fun h => ⟨h.registers, h.address⟩, fun h => ⟨h.1, h.2⟩⟩
  · intro _ fault hfault hcause
    exact execute_of_error_ne_register hfault hcause

/-- Gets that lead to a put beyond the memory, and a single register. -/
def cramped : Machine where
  memory := ⟨#[some (.get 1 0), some (.put 0 9)], 1⟩
  registers := ⟨#[.one]⟩

theorem failures_of_cramped :
    (Lacks cramped (.arithmetic .add 0 5 7) (Registers.outOfBounds 5) ∧
      cramped.execute (.arithmetic .add 0 5 7) = cramped.fail (Registers.outOfBounds 5)) ∧
    (∃ value, (cramped.execute (.zgoto 0 9)).result = .ok value) ∧
    (Lacks cramped (.nzgoto 0 9) (Memory.outOfBounds 9) ∧
      cramped.execute (.nzgoto 0 9) = cramped.fail (Memory.outOfBounds 9)) ∧
    ((Memory.outOfBounds 9).cause ≠ .registerOutOfBounds ∧
      cramped.execute (.get 0 0) = cramped.fail (Memory.outOfBounds 9)) ∧
    (Instruction.get 0 0).perform nestingLimit ⟨cramped, ["x"], []⟩ =
      (.error (Memory.outOfBounds 9), ⟨cramped, ["x"], []⟩) := by
  have hadd := (failures_are_exact_and_atomic cramped (.arithmetic .add 0 5 7)).1 rfl
  have hzero := (failures_are_exact_and_atomic cramped (.zgoto 0 9)).1 rfl
  have hother := (failures_are_exact_and_atomic cramped (.nzgoto 0 9)).1 rfl
  obtain ⟨-, hget, hbefore⟩ := failures_are_exact_and_atomic cramped (.get 0 0)
  have hnothing := hget rfl (Memory.outOfBounds 9) rfl (by decide)
  have hone : cramped.registers.values[0]? = some .one := rfl
  have hunused : ∀ address, ¬ Uses cramped.registers (.zgoto 0 9) address := by
    intro address huses
    rw [Uses.iff_jumps (by simp), Jumps.zgoto_iff hone] at huses
    exact absurd huses.1 (by decide)
  refine ⟨(hadd.2 _ rfl).symm, ?_, (hother.2 _ rfl).symm, ⟨by decide, hnothing⟩, ?_⟩
  · exact hzero.1.mpr ⟨by decide, fun address huses => absurd huses (hunused address)⟩
  · rw [hbefore, hnothing]
    rfl

end Machine

end StoredProgram
