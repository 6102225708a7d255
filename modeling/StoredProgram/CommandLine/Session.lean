import StoredProgram.CommandLine.Host
import StoredProgram.Processor
import StoredProgram.Program.Source

/-!
A session of the command line: the source is read, loaded and run, and what happens is
written out. A session that cannot start ends with its own exit code and one line of
complaint. The log goes to the standard error too, as far as it is wanted.
-/
namespace StoredProgram.CommandLine

/-- The exit code for arguments that are refused. -/
def refusedCode : Nat := 2

def unreadableCode : Nat := 255

def faultyCode : Nat := 254

/-- The exit code of a session that is aborted by its host. -/
def crashedCode : Nat := 134

/-- What a whole session leaves behind. -/
structure Transcript where
  exitCode : Nat
  out : String
  err : String
deriving DecidableEq

def bold (text : String) : String := "\x1b[1m" ++ text ++ "\x1b[0m"

def faultLine (fault : Fault) : String := bold fault.message ++ "\n"

/-- What a reply adds to the standard output. -/
def outText : Reply → String
  | .event (.trace address instruction) => s!"{address}: \t{instruction.describe}\n"
  | .event (.print line) => line ++ "\n"
  | .event .finished => "CPU: no more instructions, terminating\n"
  | .event (.fault _) | .running | .stopped => ""

/-- What a reply adds to the standard error. -/
def errText : Reply → String
  | .event (.fault fault) => faultLine fault
  | _ => ""

def farewell : String := "Good bye, and thanks for all the fish\n"

/-- Loads source into a fresh memory, and gives the address to start at with it and what is
logged. -/
def loadSource (source : String) (capacity : Nat) :
    Except Fault (Nat × Memory × List Record) := do
  let program ← Program.parse source
  match program.load (.blank capacity) with
  | (.ok entry, memory) => return (entry, memory, [.loaded program.origin program.size])
  | (.error fault, _) => throw fault

/-- The processor at the start of a session, or what is left of a session that cannot
start. A source that is absent or not UTF-8 cannot be read. The memory is provided before the
source is loaded, and the registers after that. -/
def start (host : Host) (o : Options) (source : Option ByteArray) :
    Except Transcript Processor :=
  match source.bind String.fromUTF8? with
  | none =>
    let complaint := s!"Can't open file {o.sourceName}\n"
    .error ⟨unreadableCode, "", complaint ++ host.logText o 0 [.unreadable]⟩
  | some text =>
    if host.slotLimit < o.memorySize then .error ⟨crashedCode, "", host.crashText⟩
    else match loadSource text o.memorySize with
      | .error fault => .error ⟨faultyCode, "", faultLine fault⟩
      | .ok (entry, memory, log) =>
        if host.registerLimit < o.registerCount then
          .error ⟨crashedCode, "", host.logText o 0 log ++ host.crashText⟩
        else
          let processor := (Processor.new memory o.registerCount).setTracing !o.quiet
          .ok ((processor.note log).run entry)

/-- Writes out what replies bring until the processor has stopped, if it does within the given
number of replies. Before each reply comes what was logged since `written` records were
written. -/
def relay (host : Host) (o : Options) : Nat → Nat → Transcript → Processor → Option Transcript
  | 0, _, _, _ => none
  | count + 1, written, t, p =>
    let (reply, next) := p.execute o.cycleCount
    let logged := host.logText o written (next.log.extract written).toList
    let t := { t with out := t.out ++ outText reply, err := t.err ++ logged ++ errText reply }
    match reply with
    | .stopped => some { t with out := t.out ++ farewell }
    | _ => relay host o count next.log.size t next

/-- The transcript of a session, if the processor stops within the given number of
replies. -/
def transcript? (host : Host) (o : Options) (source : Option ByteArray) (count : Nat) :
    Option Transcript :=
  match start host o source with
  | .error transcript => some transcript
  | .ok processor => relay host o count 0 ⟨0, "", ""⟩ processor

end StoredProgram.CommandLine
