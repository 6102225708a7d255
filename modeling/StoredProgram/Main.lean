import StoredProgram.CommandLine.Session

/-!
The command line: runs the program in a file, or on the standard input if no file is
named.
-/
namespace StoredProgram.CommandLine

/-- The bytes that are left on a stream, after those read already. -/
partial def readRest (stream : IO.FS.Stream) (read : ByteArray) : IO ByteArray := do
  let chunk ← stream.read 65536
  if chunk.isEmpty then return read
  readRest stream (read ++ chunk)

/-- The bytes of the source, or none if they cannot be had. -/
def readSource (o : Options) : IO (Option ByteArray) := do
  try
    match o.file with
    | some name => return some (← IO.FS.readBinFile name)
    | none => return some (← readRest (← IO.getStdin) .empty)
  catch _ => return none

/-- What a record says. -/
def describe : Record → String
  | .unreadable => "can't read the source"
  | .loaded origin size => s!"program loaded origin={origin} instructions={size}"
  | .started entry => s!"run started entry={entry}"
  | .rewritten address value => s!"memory rewritten address={address} value={value.shortest}"
  | .exhausted cursor => s!"no more instructions position={cursor}"
  | .interrupted cursor => s!"run interrupted position={cursor}"
  | .aborted fault => fault.message

/-- This host. Its environment can only ask for no log at all. -/
def thisHost : IO Host := do
  let silent := (← IO.getEnv "LOG") == some "off"
  return {
    slotLimit := 0x400000000000000
    registerLimit := 0xFFFFFFFFFFFFFFF
    crashText := "capacity overflow\n"
    wanted := if silent then some fun _ => false else none
    line := fun _ record => describe record ++ "\n" }

/-- Writes out replies until the processor has stopped. -/
partial def run (host : Host) (o : Options) (written : Nat) (processor : Processor) :
    IO Unit := do
  let out ← IO.getStdout
  let (reply, next) := processor.execute o.cycleCount
  out.putStr (outText reply)
  let complaint := host.logText o written (next.log.extract written).toList ++ errText reply
  if complaint ≠ "" then
    out.flush
    (← IO.getStderr).putStr complaint
  match reply with
  | .stopped => return
  | .running => out.flush
  | _ => pure ()
  run host o next.log.size next

end StoredProgram.CommandLine

open StoredProgram.CommandLine in
def main (arguments : List String) : IO UInt32 := do
  match Options.parse? arguments with
  | none =>
    (← IO.getStderr).putStrLn "usage: [FILE] [--memory N] [--registers N] [--cycles N] [-q] [-v]"
    return UInt32.ofNat refusedCode
  | some options =>
    let host ← thisHost
    match start host options (← readSource options) with
    | .error transcript =>
      (← IO.getStderr).putStr transcript.err
      return UInt32.ofNat transcript.exitCode
    | .ok processor =>
      run host options 0 processor
      (← IO.getStdout).putStr farewell
      return 0
