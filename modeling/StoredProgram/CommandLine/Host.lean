import StoredProgram.CommandLine.Options
import StoredProgram.Log

/-!
The host of a session, as far as it has a say in what the session leaves behind: how large a
memory and how many registers it can provide, and what becomes of the records of the log.
-/
namespace StoredProgram.CommandLine

structure Host where
  /-- The most slots that it can provide. -/
  slotLimit : Nat
  /-- The most registers that it can provide. -/
  registerLimit : Nat
  /-- What is written when it cannot provide what is asked for. -/
  crashText : String
  /-- The records that its environment asks for, if it does so. This overrides the verbosity. -/
  wanted : Option (Record → Bool)
  /-- The line of a record, which shows the time. The number of records before it is given. -/
  line : Nat → Record → String

/-- The least that matters enough to be written. -/
def Options.threshold (o : Options) : Level :=
  match o.verbosity with
  | 0 => .warning
  | 1 => .debugging
  | _ => .tracing

namespace Host

def admits (host : Host) (o : Options) (record : Record) : Bool :=
  match host.wanted with
  | some wanted => wanted record
  | none => record.level.rank ≤ o.threshold.rank

/-- What is written for records, of which `first` is the number of the first. -/
def logText (host : Host) (o : Options) (first : Nat) (records : List Record) : String :=
  String.join ((records.zipIdx first).map fun (record, position) =>
    if host.admits o record then host.line position record else "")

end Host

end StoredProgram.CommandLine
