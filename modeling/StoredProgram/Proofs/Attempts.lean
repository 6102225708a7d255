import StoredProgram.Fault

/-!
Attempts: what ends in a value or in a fault. What an attempt ends in is shown along
its steps, of which the first that fails is the last.
-/
namespace StoredProgram

variable {α β : Type} {P : α → Prop} {R : β → Prop} {Q : Fault → Prop}

/-- A value that an attempt ends in satisfies `P`, and a fault satisfies `Q`. -/
def Ends (P : α → Prop) (Q : Fault → Prop) : Except Fault α → Prop
  | .ok value => P value
  | .error fault => Q fault

namespace Ends

theorem of_ok {attempt : Except Fault α} {value : α} (h : Ends P Q attempt)
    (heq : attempt = .ok value) : P value := by
  subst heq
  exact h

theorem of_error {attempt : Except Fault α} {fault : Fault} (h : Ends P Q attempt)
    (heq : attempt = .error fault) : Q fault := by
  subst heq
  exact h

theorem bind {attempt : Except Fault α} {next : α → Except Fault β} (h : Ends P Q attempt)
    (hnext : ∀ value, P value → Ends R Q (next value)) : Ends R Q (attempt >>= next) := by
  cases attempt with
  | ok value => exact hnext value h
  | error fault => exact h

theorem map {attempt : Except Fault α} {f : α → β} (h : Ends P Q attempt)
    (hf : ∀ value, P value → R (f value)) : Ends R Q (attempt.map f) := by
  cases attempt with
  | ok value => exact hf value h
  | error fault => exact h

end Ends

theorem bind_of_ok {attempt : Except Fault α} {value : α}
    {next : α → Except Fault β} {result : Except Fault β} (h : attempt = .ok value)
    (hnext : next value = result) : attempt >>= next = result := by
  rw [h]
  exact hnext

theorem bind_of_error {attempt : Except Fault α} {next : α → Except Fault β} {fault : Fault}
    (h : attempt = .error fault) : attempt >>= next = .error fault := by
  rw [h]
  rfl

theorem map_eq_ok_iff {attempt : Except Fault α} {f : α → β} {value : β} :
    attempt.map f = .ok value ↔ ∃ found, attempt = .ok found ∧ f found = value := by
  cases attempt <;> simp [Except.map]

theorem map_eq_error_iff {attempt : Except Fault α} {f : α → β} {fault : Fault} :
    attempt.map f = .error fault ↔ attempt = .error fault := by
  cases attempt <;> simp [Except.map]

theorem bind_eq_ok_iff {attempt : Except Fault α} {next : α → Except Fault β}
    {value : β} :
    attempt >>= next = .ok value ↔ ∃ found, attempt = .ok found ∧ next found = .ok value := by
  cases attempt <;> simp [bind, Except.bind]

theorem bind_eq_error_iff {attempt : Except Fault α} {next : α → Except Fault β}
    {fault : Fault} :
    attempt >>= next = .error fault ↔
      attempt = .error fault ∨ ∃ found, attempt = .ok found ∧ next found = .error fault := by
  cases attempt <;> simp [bind, Except.bind]

end StoredProgram
