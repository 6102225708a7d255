import StoredProgram.Fault
import StoredProgram.Number.Basic

/-!
The log: what is noted down about a run for whoever looks after it. A program neither sees
the log nor depends on it.
-/
namespace StoredProgram

/-- How much a record matters, from the records that matter most. -/
inductive Level where
  | warning
  | information
  | debugging
  | tracing
deriving DecidableEq

def Level.rank : Level → Nat
  | warning => 1
  | information => 2
  | debugging => 3
  | tracing => 4

inductive Record where
  | unreadable
  | loaded (origin size : Nat)
  | started (entry : Nat)
  /-- A number was put in a slot. -/
  | rewritten (address : Nat) (value : Number)
  /-- There were no more instructions, and the cursor was there. -/
  | exhausted (cursor : Nat)
  | interrupted (cursor : Nat)
  | aborted (fault : Fault)
deriving DecidableEq

def Record.level : Record → Level
  | aborted _ => .warning
  | interrupted _ => .information
  | unreadable | loaded _ _ | started _ | exhausted _ => .debugging
  | rewritten _ _ => .tracing

end StoredProgram
