import StoredProgram.Proofs.Execution

/-!
Changes that instructions do not notice. Whether a change is made before an instruction is
carried out or after it comes to the same, if this holds of every single step that there is.
Faults may be exempted: where they come up, the change would have made a difference.
-/
namespace StoredProgram

namespace Action

variable {α β : Type} {change : Progress → Progress} {exempt : Fault → Prop}

/-- The change can be made before the steps or after them, unless their fault is exempted. -/
def Commutes (change : Progress → Progress) (exempt : Fault → Prop) (steps : Action α) : Prop :=
  ∀ w, (∃ fault, (steps w).1 = .error fault ∧ exempt fault) ∨
    steps (change w) = ((steps w).1, change (steps w).2)

theorem commutes_pure (value : α) : Commutes change exempt (pure value : Action α) :=
  fun _ => Or.inr rfl

theorem commutes_throw (fault : Fault) : Commutes change exempt (throw fault : Action α) :=
  fun _ => Or.inr rfl

theorem Commutes.bind {steps : Action α} {rest : α → Action β} (h : Commutes change exempt steps)
    (hrest : ∀ value, Commutes change exempt (rest value)) :
    Commutes change exempt (steps >>= rest) := by
  intro w
  have hsteps := h w
  rcases heq : steps w with ⟨fault | value, next⟩
  · rw [bind_of_error heq]
    rw [heq] at hsteps
    rcases hsteps with hexempt | hchanged
    · exact Or.inl (hexempt.imp fun other ⟨hother, hfault⟩ =>
        ⟨congrArg Except.error (Except.error.inj hother), hfault⟩)
    · exact Or.inr (bind_of_error hchanged)
  · rw [bind_of_ok heq rfl]
    rw [heq] at hsteps
    rcases hsteps with ⟨fault, hok, -⟩ | hchanged
    · cases hok
    · rcases hrest value next with hexempt | hlater
      · exact Or.inl hexempt
      · exact Or.inr (bind_of_ok hchanged hlater)

/-- No step notices the change, but for exempted faults. -/
structure Unnoticed (change : Progress → Progress) (exempt : Fault → Prop) : Prop where
  get : ∀ address, Commutes change exempt (onMemory fun m => (m.get address, m))
  put : ∀ instruction address, Commutes change exempt (onMemory fun m => m.put instruction address)
  seek : ∀ address, Commutes change exempt (onMemory fun m => m.seek address)
  read : ∀ register, Commutes change exempt (read register)
  readPair : ∀ left right, Commutes change exempt (onRegisters fun r => (r.readPair left right, r))
  write : ∀ register value, Commutes change exempt (write register value)
  printLine : ∀ line, Commutes change exempt (printLine line)
  record : ∀ entry, Commutes change exempt (record entry)

namespace Unnoticed

variable (h : Unnoticed change exempt)

include h

theorem load (value : Number) (dest : Nat) : Commutes change exempt (Action.load value dest) :=
  (h.write dest value).bind fun _ => commutes_pure value

theorem goto (address : Nat) : Commutes change exempt (Action.goto address) :=
  (h.seek address).bind fun _ => commutes_pure _

theorem branch (whenZero : Bool) (register address : Nat) :
    Commutes change exempt (Action.branch whenZero register address) := by
  refine (h.read register).bind fun value => ?_
  split
  · exact h.goto address
  · exact commutes_pure _

theorem target (address : Nat) : Commutes change exempt (Action.target address) := by
  refine (h.get address).bind fun slot => ?_
  cases slot with
  | some instruction => exact commutes_pure instruction
  | none => exact commutes_throw _

theorem perform_of_not_get {leaf : Instruction} (hleaf : leaf.isGet = false) (depth : Nat) :
    Commutes change exempt (leaf.perform depth) := by
  cases leaf with
  | data value =>
    rw [Instruction.perform]
    exact commutes_pure value
  | load value dest =>
    rw [Instruction.perform]
    exact h.load value dest
  | put source address =>
    rw [Instruction.perform]
    exact (h.read source).bind fun value => (h.put (.data value) address).bind fun _ =>
      (h.record (.rewritten address value)).bind fun _ => commutes_pure value
  | get address dest => simp [Instruction.isGet] at hleaf
  | arithmetic operation left right dest =>
    rw [Instruction.perform]
    exact (h.readPair left right).bind fun pair => h.load (operation.apply pair.1 pair.2) dest
  | goto address =>
    rw [Instruction.perform]
    exact h.goto address
  | zgoto register address =>
    rw [Instruction.perform]
    exact h.branch true register address
  | nzgoto register address =>
    rw [Instruction.perform]
    exact h.branch false register address
  | print register template =>
    rw [Instruction.perform]
    exact (h.read register).bind fun value =>
      (h.printLine (template.render value)).bind fun _ => commutes_pure value

/-- No instruction notices the change, whatever gets it is reached through. -/
theorem perform (depth : Nat) (instruction : Instruction) :
    Commutes change exempt (instruction.perform depth) := by
  induction depth generalizing instruction with
  | zero =>
    cases instruction with
    | get address dest =>
      rw [Instruction.perform]
      exact (h.target address).bind fun _ => commutes_throw _
    | _ => exact h.perform_of_not_get rfl 0
  | succ depth ih =>
    cases instruction with
    | get address dest =>
      rw [Instruction.perform]
      exact (h.target address).bind fun found => (ih found).bind fun value => h.load value dest
    | _ => exact h.perform_of_not_get rfl (depth + 1)

end Unnoticed

end Action

/-- The same with lines and records that came before. -/
def Progress.behind (printed : List String) (log : List Record) (w : Progress) : Progress :=
  { w with printed := printed ++ w.printed, log := log ++ w.log }

theorem unnoticed_behind (printed : List String) (log : List Record) :
    Action.Unnoticed (Progress.behind printed log) (fun _ => False) where
  get _ _ := Or.inr rfl
  put _ _ _ := Or.inr rfl
  seek _ _ := Or.inr rfl
  read _ _ := Or.inr rfl
  readPair _ _ _ := Or.inr rfl
  write _ _ _ := Or.inr rfl
  printLine line w := by
    simp only [Action.printLine, Progress.behind, List.append_assoc, or_true]
  record entry w := by
    simp only [Action.record, Progress.behind, List.append_assoc, or_true]

/-- What is printed and logged is added to what was there. -/
theorem Machine.perform_eq_execute (m : Machine) (instruction : Instruction)
    (printed : List String) (log : List Record) :
    instruction.perform nestingLimit ⟨m, printed, log⟩ =
      ((m.execute instruction).result,
        ⟨(m.execute instruction).machine, printed ++ (m.execute instruction).printed,
          log ++ (m.execute instruction).log⟩) := by
  rcases (unnoticed_behind printed log).perform nestingLimit instruction { machine := m } with
    ⟨_, _, hnever⟩ | hbehind
  · exact hnever.elim
  · rw [execute, executeWithin_of_perform rfl]
    simpa only [Progress.behind, List.append_nil] using hbehind

end StoredProgram
