import StoredProgram.Machine
import StoredProgram.Proofs.Attempts
import StoredProgram.Proofs.Magnitudes

/-!
What an instruction does, other than a get. It asks for the registers that it names, in
order, and then for the slot that it uses, if it comes to use one. Steps are not undone when a
later one fails, but the first step that changes anything is the last that can fail. So an
instruction that lacks something has left all as it was, and else it has written a register,
stored a number in a slot, moved the cursor or printed a line, or done nothing.
-/
namespace StoredProgram

namespace Registers

variable {r : Registers} {register : Nat}

theorem read_of_some {value : Number} (h : r.values[register]? = some value) :
    r.read register = .ok value := by
  simp only [read, h]

theorem read_of_le (h : r.count ≤ register) : r.read register = .error (outOfBounds register) := by
  simp only [read, Array.getElem?_eq_none h]

theorem write_of_lt (h : register < r.count) (value : Number) :
    r.write register value = (.ok (), ⟨r.values.setIfInBounds register value⟩) := if_pos h

theorem write_of_le (h : r.count ≤ register) (value : Number) :
    r.write register value = (.error (outOfBounds register), r) := if_neg (Nat.not_lt.mpr h)

theorem lt_count_of_some {value : Number} (h : r.values[register]? = some value) :
    register < r.count :=
  (Array.getElem?_eq_some_iff.mp h).1

theorem readPair_of_some {left right : Nat} {a b : Number} (hleft : r.values[left]? = some a)
    (hright : r.values[right]? = some b) : r.readPair left right = .ok (a, b) :=
  bind_of_ok (read_of_some hleft) (bind_of_ok (read_of_some hright) rfl)

theorem readPair_of_le_left {left : Nat} (h : r.count ≤ left) (right : Nat) :
    r.readPair left right = .error (outOfBounds left) :=
  bind_of_error (read_of_le h)

theorem readPair_of_le_right {left right : Nat} {a : Number} (hleft : r.values[left]? = some a)
    (h : r.count ≤ right) : r.readPair left right = .error (outOfBounds right) :=
  bind_of_ok (read_of_some hleft) (bind_of_error (read_of_le h))

theorem le_or_some (r : Registers) (register : Nat) :
    r.count ≤ register ∨ ∃ value, r.values[register]? = some value := by
  cases hvalue : r.values[register]? with
  | none => exact Or.inl (Array.getElem?_eq_none_iff.mp hvalue)
  | some value => exact Or.inr ⟨value, rfl⟩

end Registers

namespace Memory

variable {m : Memory} {address : Nat}

theorem get_of_slot {slot : Option Instruction} (h : m.slots[address]? = some slot) :
    m.get address = .ok slot := by
  simp only [get, h]

theorem get_of_le (h : m.capacity ≤ address) : m.get address = .error (outOfBounds address) := by
  simp only [get, Array.getElem?_eq_none h]

theorem put_of_lt (h : address < m.capacity) (instruction : Instruction) :
    m.put instruction address =
      (.ok (), { m with slots := m.slots.setIfInBounds address (some instruction) }) := if_pos h

theorem put_of_le (h : m.capacity ≤ address) (instruction : Instruction) :
    m.put instruction address = (.error (outOfBounds address), m) := if_neg (Nat.not_lt.mpr h)

theorem seek_of_lt (h : address < m.capacity) :
    m.seek address = (.ok (), { m with cursor := address }) := if_pos h

theorem seek_of_le (h : m.capacity ≤ address) :
    m.seek address = (.error (outOfBounds address), m) := if_neg (Nat.not_lt.mpr h)

theorem append_of_lt (h : m.cursor < m.capacity) (instruction : Instruction) :
    m.append instruction =
      (.ok (), ⟨m.slots.setIfInBounds m.cursor (some instruction), m.cursor + 1⟩) := if_pos h

theorem append_of_le (h : m.capacity ≤ m.cursor) (instruction : Instruction) :
    m.append instruction = (.error (outOfSpace m.cursor), m) := if_neg (Nat.not_lt.mpr h)

end Memory

namespace Action

variable {α β : Type} {w next : Progress} {register address : Nat}

/-- What comes after a step goes on from where the step has led. -/
theorem bind_of_ok {step : Action α} {rest : α → Action β} {value : α}
    {result : Except Fault β × Progress} (h : step w = (.ok value, next))
    (hrest : rest value next = result) : (step >>= rest) w = result := by
  simp only [bind, ExceptT.bind, ExceptT.mk, StateT.bind, h, ExceptT.bindCont]
  exact hrest

/-- A step that fails is the last. -/
theorem bind_of_error {step : Action α} {rest : α → Action β} {fault : Fault}
    (h : step w = (.error fault, next)) : (step >>= rest) w = (.error fault, next) := by
  simp only [bind, ExceptT.bind, ExceptT.mk, StateT.bind, h, ExceptT.bindCont]
  rfl

theorem onMemory_of_eq {step : Memory → Except Fault α × Memory} {result : Except Fault α}
    {memory : Memory} (h : step w.machine.memory = (result, memory)) :
    onMemory step w = (result, { w with machine.memory := memory }) := by
  simp only [onMemory, h]

theorem onRegisters_of_eq {step : Registers → Except Fault α × Registers} {result : Except Fault α}
    {registers : Registers} (h : step w.machine.registers = (result, registers)) :
    onRegisters step w = (result, { w with machine.registers := registers }) := by
  simp only [onRegisters, h]

theorem read_of_some {value : Number} (h : w.machine.registers.values[register]? = some value) :
    read register w = (.ok value, w) :=
  onRegisters_of_eq (by rw [Registers.read_of_some h])

theorem read_of_le (h : w.machine.registers.count ≤ register) :
    read register w = (.error (Registers.outOfBounds register), w) :=
  onRegisters_of_eq (by rw [Registers.read_of_le h])

theorem load_of_lt (h : register < w.machine.registers.count) (value : Number) :
    load value register w =
      (.ok value,
        { w with
          machine.registers := ⟨w.machine.registers.values.setIfInBounds register value⟩ }) :=
  bind_of_ok (onRegisters_of_eq (Registers.write_of_lt h value)) rfl

theorem load_of_le (h : w.machine.registers.count ≤ register) (value : Number) :
    load value register w = (.error (Registers.outOfBounds register), w) :=
  bind_of_error (onRegisters_of_eq (Registers.write_of_le h value))

theorem goto_of_lt (h : address < w.machine.memory.capacity) :
    goto address w = (.ok .one, { w with machine.memory.cursor := address }) :=
  bind_of_ok (onMemory_of_eq (Memory.seek_of_lt h)) rfl

theorem goto_of_le (h : w.machine.memory.capacity ≤ address) :
    goto address w = (.error (Memory.outOfBounds address), w) :=
  bind_of_error (onMemory_of_eq (Memory.seek_of_le h))

end Action

namespace Instruction

def isGet : Instruction → Bool
  | get _ _ => true
  | _ => false

def isJump : Instruction → Bool
  | goto _ | zgoto _ _ | nzgoto _ _ => true
  | _ => false

/-- The address among the operands. -/
def address? : Instruction → Option Nat
  | put _ address | get address _ | goto address | zgoto _ address | nzgoto _ address =>
    some address
  | data _ | load _ _ | arithmetic _ _ _ _ | print _ _ => none

/-- The registers among the operands, in the order in which they are used. -/
def registers : Instruction → List Nat
  | data _ | goto _ => []
  | load _ dest | get _ dest => [dest]
  | put source _ => [source]
  | arithmetic _ left right dest => [left, right, dest]
  | zgoto register _ | nzgoto register _ | print register _ => [register]

end Instruction

/-- The instruction sends the cursor to the address. Both zeros are zero, and a NaN is not. -/
inductive Jumps (registers : Registers) : Instruction → Nat → Prop
  | goto (address : Nat) : Jumps registers (.goto address) address
  | zgoto {register address : Nat} {value : Number}
      (hvalue : registers.values[register]? = some value)
      (hzero : value = .zero ∨ value = .negativeZero) :
      Jumps registers (.zgoto register address) address
  | nzgoto {register address : Nat} {value : Number}
      (hvalue : registers.values[register]? = some value)
      (hzero : ¬ (value = .zero ∨ value = .negativeZero)) :
      Jumps registers (.nzgoto register address) address

namespace Jumps

variable {registers : Registers} {leaf : Instruction} {register address target : Nat}
  {value : Number}

theorem isJump (h : Jumps registers leaf address) : leaf.isJump = true := by
  cases h <;> rfl

theorem address? (h : Jumps registers leaf address) : leaf.address? = some address := by
  cases h <;> rfl

theorem unique (h : Jumps registers leaf target) (h' : Jumps registers leaf address) :
    target = address :=
  Option.some.inj (h.address?.symm.trans h'.address?)

/-- What decides a jump was looked up. -/
theorem registers_lt (h : Jumps registers leaf address) :
    ∀ register ∈ leaf.registers, register < registers.count := by
  cases h with
  | goto => simp [Instruction.registers]
  | zgoto hvalue _ => simpa [Instruction.registers] using Registers.lt_count_of_some hvalue
  | nzgoto hvalue _ => simpa [Instruction.registers] using Registers.lt_count_of_some hvalue

theorem zgoto_iff (h : registers.values[register]? = some value) :
    Jumps registers (.zgoto register address) target ↔
      value.isZero = true ∧ target = address := by
  constructor
  · rintro ⟨⟩
    next other hzero hother =>
      obtain rfl : other = value := Option.some.inj (hother.symm.trans h)
      exact ⟨other.isZero_iff.mpr hzero, rfl⟩
  · rintro ⟨hzero, rfl⟩
    exact Jumps.zgoto h (value.isZero_iff.mp hzero)

theorem nzgoto_iff (h : registers.values[register]? = some value) :
    Jumps registers (.nzgoto register address) target ↔
      value.isZero = false ∧ target = address := by
  rw [Bool.eq_false_iff, ne_eq, value.isZero_iff]
  constructor
  · rintro ⟨⟩
    next other hzero hother =>
      obtain rfl : other = value := Option.some.inj (hother.symm.trans h)
      exact ⟨hzero, rfl⟩
  · rintro ⟨hzero, rfl⟩
    exact Jumps.nzgoto h hzero

end Jumps

/-- The instruction uses the slot at the address: a put always does, a jump if it is taken. -/
inductive Uses (registers : Registers) : Instruction → Nat → Prop
  | put (source address : Nat) : Uses registers (.put source address) address
  | jump {leaf : Instruction} {address : Nat} (hjumps : Jumps registers leaf address) :
      Uses registers leaf address

/-- The first thing that the instruction asks for and that there is not. Registers come in
their order, and the address only after all of them. -/
inductive Lacks (m : Machine) (leaf : Instruction) : Fault → Prop
  | register {before after : List Nat} {register : Nat}
      (hnames : leaf.registers = before ++ register :: after)
      (hbefore : ∀ earlier ∈ before, earlier < m.registers.count)
      (hout : m.registers.count ≤ register) : Lacks m leaf (Registers.outOfBounds register)
  | address {address : Nat}
      (hregisters : ∀ register ∈ leaf.registers, register < m.registers.count)
      (huses : Uses m.registers leaf address) (hout : m.memory.capacity ≤ address) :
      Lacks m leaf (Memory.outOfBounds address)

/-- Nothing has been done but for the fault. -/
def Machine.fail (m : Machine) (fault : Fault) : Outcome := ⟨.error fault, m, [], []⟩

/-- What executing an instruction other than a get leads to, rule by rule. -/
inductive Performs (m : Machine) : Instruction → Outcome → Prop
  | data (value : Number) : Performs m (.data value) ⟨.ok value, m, [], []⟩
  | load {dest : Nat} (value : Number) (hdest : dest < m.registers.count) :
      Performs m (.load value dest)
        ⟨.ok value, { m with registers := ⟨m.registers.values.setIfInBounds dest value⟩ }, [], []⟩
  | put {source address : Nat} {value : Number}
      (hsource : m.registers.values[source]? = some value)
      (haddress : address < m.memory.capacity) :
      Performs m (.put source address)
        ⟨.ok value,
          { m with
            memory.slots := m.memory.slots.setIfInBounds address (some (.data value)) },
          [], [.rewritten address value]⟩
  | arithmetic {left right dest : Nat} {a b : Number} (operation : Operation)
      (hleft : m.registers.values[left]? = some a) (hright : m.registers.values[right]? = some b)
      (hdest : dest < m.registers.count) :
      Performs m (.arithmetic operation left right dest)
        ⟨.ok (operation.apply a b),
          { m with
            registers := ⟨m.registers.values.setIfInBounds dest (operation.apply a b)⟩ }, [], []⟩
  | jump {leaf : Instruction} {address : Nat} (hjumps : Jumps m.registers leaf address)
      (haddress : address < m.memory.capacity) :
      Performs m leaf ⟨.ok .one, { m with memory.cursor := address }, [], []⟩
  /-- A jump that is not taken. -/
  | pass {leaf : Instruction} (hleaf : leaf.isJump = true)
      (hregisters : ∀ register ∈ leaf.registers, register < m.registers.count)
      (hstays : ∀ address, ¬ Jumps m.registers leaf address) :
      Performs m leaf ⟨.ok .one, m, [], []⟩
  | print {register : Nat} {value : Number} (template : Template)
      (hregister : m.registers.values[register]? = some value) :
      Performs m (.print register template) ⟨.ok value, m, [template.render value], []⟩
  | lacks {leaf : Instruction} {fault : Fault} (hlacks : Lacks m leaf fault) :
      Performs m leaf (m.fail fault)

namespace Machine

variable {m : Machine} {leaf : Instruction}

theorem executeWithin_of_perform {depth : Nat} {instruction : Instruction}
    {result : Except Fault Number} {w : Progress}
    (h : instruction.perform depth { machine := m } = (result, w)) :
    m.executeWithin depth instruction = ⟨result, w.machine, w.printed, w.log⟩ := by
  unfold executeWithin
  simp only [ExceptT.run, StateT.run, h]

/-- The depth only matters to gets. -/
theorem executeWithin_of_not_get (hleaf : leaf.isGet = false) (m : Machine) (depth : Nat) :
    m.executeWithin depth leaf = m.execute leaf := by
  cases leaf with
  | get address dest => simp [Instruction.isGet] at hleaf
  | _ => simp only [execute, executeWithin, Instruction.perform]

theorem performs_of_perform {outcome : Outcome} (hperforms : Performs m leaf outcome)
    (h : leaf.perform nestingLimit { machine := m } =
      (outcome.result, ⟨outcome.machine, outcome.printed, outcome.log⟩)) :
    Performs m leaf (m.execute leaf) := by
  rw [execute, executeWithin_of_perform h]
  exact hperforms

/-- The instruction has come to a register that is not there, after others that are. -/
theorem performs_of_no_register (before after : List Nat) {register : Nat}
    (hnames : leaf.registers = before ++ register :: after)
    (hbefore : ∀ earlier ∈ before, earlier < m.registers.count)
    (hout : m.registers.count ≤ register)
    (h : leaf.perform nestingLimit { machine := m } =
      (.error (Registers.outOfBounds register), { machine := m })) :
    Performs m leaf (m.execute leaf) :=
  performs_of_perform (.lacks (.register hnames hbefore hout)) h

theorem performs_load (m : Machine) (value : Number) (dest : Nat) :
    Performs m (.load value dest) (m.execute (.load value dest)) := by
  rcases Nat.lt_or_ge dest m.registers.count with hdest | hdest
  · exact performs_of_perform (.load value hdest) (Action.load_of_lt hdest value)
  · exact performs_of_no_register [] [] rfl (by simp) hdest (Action.load_of_le hdest value)

theorem performs_put (m : Machine) (source address : Nat) :
    Performs m (.put source address) (m.execute (.put source address)) := by
  rcases m.registers.le_or_some source with hsource | ⟨value, hsource⟩
  · exact performs_of_no_register [] [] rfl (by simp) hsource
      (Action.bind_of_error (Action.read_of_le hsource))
  · rcases Nat.lt_or_ge address m.memory.capacity with haddress | haddress
    · exact performs_of_perform (.put hsource haddress)
        (Action.bind_of_ok (Action.read_of_some hsource)
          (Action.bind_of_ok (Action.onMemory_of_eq (Memory.put_of_lt haddress _)) rfl))
    · have hregisters : ∀ register ∈ (Instruction.put source address).registers,
          register < m.registers.count := by
        simpa [Instruction.registers] using Registers.lt_count_of_some hsource
      exact performs_of_perform (.lacks (.address hregisters (Uses.put source address) haddress))
        (Action.bind_of_ok (Action.read_of_some hsource)
          (Action.bind_of_error (Action.onMemory_of_eq (Memory.put_of_le haddress _))))

theorem performs_compute (m : Machine) (operation : Operation) (left right dest : Nat) :
    Performs m (.arithmetic operation left right dest)
      (m.execute (.arithmetic operation left right dest)) := by
  rcases m.registers.le_or_some left with hleft | ⟨a, hleft⟩
  · exact performs_of_no_register [] [right, dest] rfl (by simp) hleft
      (Action.bind_of_error
        (Action.onRegisters_of_eq (by rw [Registers.readPair_of_le_left hleft])))
  · have hleft' := Registers.lt_count_of_some hleft
    rcases m.registers.le_or_some right with hright | ⟨b, hright⟩
    · exact performs_of_no_register [left] [dest] rfl (by simpa using hleft') hright
        (Action.bind_of_error
          (Action.onRegisters_of_eq (by rw [Registers.readPair_of_le_right hleft hright])))
    · have hright' := Registers.lt_count_of_some hright
      have hread : Action.onRegisters (fun r => (r.readPair left right, r)) { machine := m } =
          (.ok (a, b), { machine := m }) :=
        Action.onRegisters_of_eq (by rw [Registers.readPair_of_some hleft hright])
      -- what is left to do is to load the result
      rcases Nat.lt_or_ge dest m.registers.count with hdest | hdest
      · exact performs_of_perform (.arithmetic operation hleft hright hdest)
          (Action.bind_of_ok hread (Action.load_of_lt hdest _))
      · exact performs_of_no_register [left, right] [] rfl
          (by simpa using And.intro hleft' hright') hdest
          (Action.bind_of_ok hread (Action.load_of_le hdest _))

/-- A jump that is taken, once the registers that decide it were read. -/
theorem performs_of_goto {address : Nat} (hjumps : Jumps m.registers leaf address)
    (h : leaf.perform nestingLimit { machine := m } = Action.goto address { machine := m }) :
    Performs m leaf (m.execute leaf) := by
  rcases Nat.lt_or_ge address m.memory.capacity with haddress | haddress
  · exact performs_of_perform (.jump hjumps haddress) (h.trans (Action.goto_of_lt haddress))
  · exact performs_of_perform (.lacks (.address hjumps.registers_lt (.jump hjumps) haddress))
      (h.trans (Action.goto_of_le haddress))

theorem performs_branch {whenZero : Bool} {register address : Nat}
    (hnames : leaf.registers = [register]) (hjump : leaf.isJump = true)
    (hleaf : ∀ value, m.registers.values[register]? = some value → ∀ target,
      Jumps m.registers leaf target ↔ value.isZero = whenZero ∧ target = address)
    (h : leaf.perform nestingLimit = Action.branch whenZero register address) :
    Performs m leaf (m.execute leaf) := by
  rcases m.registers.le_or_some register with hregister | ⟨value, hvalue⟩
  · exact performs_of_no_register [] [] hnames (by simp) hregister
      (by rw [h]; exact Action.bind_of_error (Action.read_of_le hregister))
  · have hread : Action.branch whenZero register address { machine := m } =
        (if value.isZero = whenZero then Action.goto address else return Number.one)
          { machine := m } := Action.bind_of_ok (Action.read_of_some hvalue) rfl
    by_cases htaken : value.isZero = whenZero
    · refine performs_of_goto ((hleaf value hvalue address).mpr ⟨htaken, rfl⟩) ?_
      rw [h, hread, if_pos htaken]
    · refine performs_of_perform (.pass hjump ?_ ?_) ?_
      · simpa [hnames] using Registers.lt_count_of_some hvalue
      · intro target hjumps
        exact htaken ((hleaf value hvalue target).mp hjumps).1
      · rw [h, hread, if_neg htaken]
        rfl

theorem performs_print (m : Machine) (register : Nat) (template : Template) :
    Performs m (.print register template) (m.execute (.print register template)) := by
  rcases m.registers.le_or_some register with hregister | ⟨value, hvalue⟩
  · exact performs_of_no_register [] [] rfl (by simp) hregister
      (Action.bind_of_error (Action.read_of_le hregister))
  · exact performs_of_perform (.print template hvalue)
      (Action.bind_of_ok (Action.read_of_some hvalue) rfl)

/-- Executing an instruction other than a get is one of the rules. -/
theorem performs_execute (hleaf : leaf.isGet = false) (m : Machine) :
    Performs m leaf (m.execute leaf) := by
  cases leaf with
  | data value => exact Performs.data value
  | load value dest => exact m.performs_load value dest
  | put source address => exact m.performs_put source address
  | get address dest => simp [Instruction.isGet] at hleaf
  | arithmetic operation left right dest => exact m.performs_compute operation left right dest
  | goto address => exact performs_of_goto (Jumps.goto address) rfl
  | zgoto register address =>
    exact performs_branch rfl rfl (fun value hvalue target => Jumps.zgoto_iff hvalue) rfl
  | nzgoto register address =>
    exact performs_branch rfl rfl (fun value hvalue target => Jumps.nzgoto_iff hvalue) rfl
  | print register template => exact m.performs_print register template

end Machine

namespace Performs

variable {m : Machine} {leaf : Instruction} {outcome : Outcome}

/-- An instruction fails only for want of something, and nothing was done then. -/
theorem of_error {fault : Fault} (h : Performs m leaf outcome)
    (herror : outcome.result = .error fault) : outcome = m.fail fault ∧ Lacks m leaf fault := by
  cases h with
  | lacks hlacks =>
    obtain rfl := Except.error.inj herror
    exact ⟨rfl, hlacks⟩
  | _ => cases herror

/-- At most one line is printed. -/
theorem printed (h : Performs m leaf outcome) : ∃ line, outcome.printed = Option.toList line := by
  cases h with
  | print template hregister => exact ⟨some _, rfl⟩
  | _ => exact ⟨none, rfl⟩

/-- Only puts are logged. -/
theorem log (h : Performs m leaf outcome) : ∀ record ∈ outcome.log, record.level = .tracing := by
  cases h with
  | put hsource haddress => simp [Record.level]
  | lacks hlacks => simp [Machine.fail]
  | _ => simp

end Performs

end StoredProgram
