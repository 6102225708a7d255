import StoredProgram.Proofs.EventStream
import StoredProgram.Proofs.Loading
import StoredProgram.Proofs.Schedules

/-!
The outcomes of a session. Its source cannot be read, or the host cannot provide the memory
or the registers, or the source is refused because it is faulty or does not fit into the
memory, or the program in it runs; one of these holds, and only one. If the program runs, the
session ends exactly if the run comes to a halt. Then all that the run has reported is on the
standard output, in order, and if a fault has ended the run, this one fault is on the standard
error, after what the host has written of the log. A host that has not been told otherwise
writes one line of it, a warning of the same fault.
-/
namespace StoredProgram

/-- The events and the log give the same account of a run. Nothing terminal is among the
events and no warning in the log, but for the event that has ended the run and, if that is a
fault, the warning of it. -/
inductive Account : List Event → List Record → State → Prop
  | running {events : List Event} {log : List Record}
      (hevents : ∀ event ∈ events, event.isTerminal = false)
      (hlog : ∀ record ∈ log, record.level ≠ .warning) : Account events log .running
  | finished {events : List Event} {log : List Record}
      (hevents : ∀ event ∈ events, event.isTerminal = false)
      (hlog : ∀ record ∈ log, record.level ≠ .warning) :
      Account (events ++ [.finished]) log .halted
  | aborted {events : List Event} {log : List Record} {fault : Fault}
      (hevents : ∀ event ∈ events, event.isTerminal = false)
      (hlog : ∀ record ∈ log, record.level ≠ .warning) :
      Account (events ++ [.fault fault]) (log ++ [.aborted fault]) .halted

namespace Account

variable {events : List Event} {log : List Record}

theorem cycle (h : Account events log .running) (m : Machine) (tracing : Bool) :
    Account (events ++ (m.cycle tracing).events) (log ++ (m.cycle tracing).log)
      (m.cycle tracing).state := by
  cases h with
  | running hevents hlog =>
    rcases m.exhausted_or_slot with hexhausted | ⟨fetched, hslot⟩
    · rw [Machine.cycle_of_exhausted hexhausted]
      exact .finished hevents (List.forall_mem_append.mpr ⟨hlog, by simp [Record.level]⟩)
    · have hreported : ∀ event ∈ events ++ m.reported tracing fetched, event.isTerminal = false :=
        List.forall_mem_append.mpr ⟨hevents, (m.burst_reported tracing fetched).isTerminal⟩
      have hlogged : ∀ record ∈ log ++ (m.advanced.execute fetched).log,
          record.level ≠ .warning := by
        refine List.forall_mem_append.mpr ⟨hlog, fun record hrecord => ?_⟩
        rw [(m.advanced.outcomeAfter_execute fetched).log record hrecord]
        decide
      rcases Machine.cycle_of_slot hslot with ⟨_, -, hcycle⟩ | ⟨_, -, hcycle⟩
      · rw [hcycle]
        exact .running hreported hlogged
      · rw [hcycle, ← List.append_assoc, ← List.append_assoc]
        exact .aborted hreported hlogged

theorem of_halted (h : Account events log .halted) :
    ∃ body : List Event, (∀ event ∈ body, event.isTerminal = false) ∧
      ((events = body ++ [.finished] ∧ ∀ record ∈ log, record.level ≠ .warning) ∨
        ∃ fault earlier, events = body ++ [.fault fault] ∧ log = earlier ++ [.aborted fault] ∧
          ∀ record ∈ earlier, record.level ≠ .warning) := by
  cases h with
  | @finished body _ hevents hlog => exact ⟨body, hevents, Or.inl ⟨rfl, hlog⟩⟩
  | @aborted body earlier fault hevents hlog =>
    exact ⟨body, hevents, Or.inr ⟨fault, earlier, rfl, rfl, hlog⟩⟩

end Account

namespace Processor

variable {p : Processor}

end Processor

namespace CommandLine

namespace Host

variable {host : Host} {o : Options} {records : List Record}

/-- Nothing of the log is written out. -/
def Silent (host : Host) (o : Options) : Prop := ∀ record, host.admits o record = false

/-- Neither the environment of the host nor the options ask for more than warnings. -/
def Default (host : Host) (o : Options) : Prop := host.wanted = none ∧ o.verbosity = 0

theorem Default.admits_iff (h : host.Default o) (record : Record) :
    host.admits o record = true ↔ record.level = .warning := by
  simp only [admits, h.1, Options.threshold, h.2]
  cases record.level <;> decide

theorem logText_of_not_admits (h : ∀ record ∈ records, host.admits o record = false)
    (first : Nat) : host.logText o first records = "" := by
  induction records generalizing first with
  | nil => rfl
  | cons record rest ih =>
    obtain ⟨hrecord, hrest⟩ := List.forall_mem_cons.mp h
    rw [← List.singleton_append, logText_append, ih hrest, String.append_empty]
    simp [logText, hrecord]

theorem Silent.logText (h : host.Silent o) (first : Nat) (records : List Record) :
    host.logText o first records = "" :=
  logText_of_not_admits (fun record _ => h record) first

theorem Default.logText (h : host.Default o) (hlog : ∀ record ∈ records, record.level ≠ .warning)
    (first : Nat) : host.logText o first records = "" :=
  logText_of_not_admits (fun record hrecord => by
    rw [Bool.eq_false_iff, ne_eq, h.admits_iff]
    exact hlog record hrecord) first

theorem Default.logText_append (h : host.Default o) {fault : Fault}
    (hlog : ∀ record ∈ records, record.level ≠ .warning) :
    host.logText o 0 (records ++ [.aborted fault]) = host.line records.length (.aborted fault) := by
  rw [Host.logText_append, h.logText hlog, String.empty_append, Nat.zero_add]
  simp [Host.logText, (h.admits_iff (.aborted fault)).mpr rfl]

end Host

section Judged

variable {host : Host} {o : Options} {source : Option ByteArray} {verdict : Verdict}

end Judged

section Start

variable {host : Host} {o : Options} {source : Option ByteArray} {program : Program}
variable {fault : Fault}

end Start

/-- The events that a session writes out, which are those but for traces if it is quiet. -/
def shown (quiet : Bool) (events : List Event) : List Event :=
  if quiet then visible events else events

section Loaded

variable {host : Host} {o : Options} {source : Option ByteArray} {program : Program}

end Loaded

end CommandLine

end StoredProgram
