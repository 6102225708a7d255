import StoredProgram.Machine

/-!
The processor runs a machine in cycles of fetching and executing, and queues an event
for everything that is worth reporting. A host runs it by asking for one reply at a time.
Besides, a log is kept of what happens.
-/
namespace StoredProgram

inductive Event where
  /-- An instruction was fetched and is about to be executed. -/
  | trace (address : Nat) (instruction : Instruction)
  | print (line : String)
  | fault (fault : Fault)
  /-- There are no more instructions. -/
  | finished
deriving DecidableEq

inductive State where
  | running
  | halted
deriving DecidableEq

/-- What a cycle does: the machine afterwards, the events and the records in order, and
whether to go on. -/
structure Cycle where
  machine : Machine
  events : List Event
  log : List Record
  state : State

/-- A fault of execution belongs to the instruction that was fetched. -/
def Fault.locate (address : Nat) (f : Fault) : Fault :=
  if h : f.area = .execution ∧ f.address = none then f.atAddress address h.2 else f

/-- Fetches and executes one instruction. -/
def Machine.cycle (tracing : Bool) (m : Machine) : Cycle :=
  let address := m.memory.cursor
  let advanced : Machine := { m with memory := m.memory.fetch.2 }
  match m.memory.fetch.1 with
  | none => ⟨advanced, [.finished], [.exhausted advanced.memory.cursor], .halted⟩
  | some instruction =>
    let outcome := advanced.execute instruction
    let traced := if tracing then [.trace address instruction] else []
    let reported := traced ++ outcome.printed.map .print
    match outcome.result with
    | .ok _ => ⟨outcome.machine, reported, outcome.log, .running⟩
    | .error fault =>
      let located := fault.locate address
      ⟨outcome.machine, reported ++ [.fault located], outcome.log ++ [.aborted located], .halted⟩

structure Processor where
  machine : Machine
  state : State
  tracing : Bool
  events : List Event
  log : Array Record := #[]
deriving DecidableEq

/-- The answer to a host: an event, or that the cycles are used up, or that nothing runs. -/
inductive Reply where
  | event (event : Event)
  | running
  | stopped
deriving DecidableEq

namespace Processor

/-- A processor that has not started: it is halted, and traces. -/
def new (memory : Memory) (registerCount : Nat) : Processor where
  machine := ⟨memory, .zeros registerCount⟩
  state := .halted
  tracing := true
  events := []

def memory (p : Processor) : Memory := p.machine.memory

def registers (p : Processor) : Registers := p.machine.registers

def setTracing (p : Processor) (tracing : Bool) : Processor := { p with tracing := tracing }

def setMemory (p : Processor) (memory : Memory) : Processor :=
  { p with machine := { p.machine with memory := memory } }

/-- Adds records to the log. -/
def note (p : Processor) (records : List Record) : Processor := { p with log := p.log ++ records }

/-- The value of a register, if there is such a register. -/
def register? (p : Processor) (register : Nat) : Option Number :=
  (p.registers.read register).toOption

/-- Starts a run at the entry with cleared registers and no events. An entry out of
bounds is reported and nothing runs. -/
def run (p : Processor) (entry : Nat) : Processor :=
  let (sought, memory) := p.memory.seek entry
  let started : Processor := { p with machine := ⟨memory, p.registers.cleared⟩, events := [] }
  match sought with
  | .ok () => { started with state := .running }.note [.started entry]
  | .error fault =>
    { started with state := .halted, events := [.fault fault] }.note [.aborted fault]

def interrupt (p : Processor) : Processor :=
  match p.state with
  | .running => { p with state := .halted }.note [.interrupted p.memory.cursor]
  | .halted => p

/-- One cycle, if the processor is running. -/
def step (p : Processor) : Processor :=
  match p.state with
  | .halted => p
  | .running =>
    let cycle := p.machine.cycle p.tracing
    { p with
      machine := cycle.machine
      state := cycle.state
      events := p.events ++ cycle.events
      log := p.log ++ cycle.log }

/-- Answers a host after at most the given number of cycles. The oldest event comes
first, and no cycle runs while there is one. -/
def replyWithin (cycles : Nat) (p : Processor) : Reply × Processor :=
  match p.events with
  | event :: rest => (.event event, { p with events := rest })
  | [] =>
    match p.state, cycles with
    | .halted, _ => (.stopped, p)
    | .running, 0 => (.running, p)
    | .running, cycles + 1 => replyWithin cycles p.step

/-- At least one cycle is granted. -/
def execute (p : Processor) (cycles : Nat) : Reply × Processor := p.replyWithin (max cycles 1)

/-- Adds replies to those collected, which are in reverse, until the processor has stopped
or `count` more have come. -/
def collect (cycles : Nat) : Nat → List Reply → Processor → List Reply × Processor
  | 0, replies, p => (replies.reverse, p)
  | count + 1, replies, p =>
    match p.execute cycles with
    | (.stopped, next) => ((.stopped :: replies).reverse, next)
    | (reply, next) => collect cycles count (reply :: replies) next

/-- The replies in order, up to the first that says that nothing runs and at most `count`. -/
def drain (p : Processor) (cycles count : Nat) : List Reply × Processor :=
  collect cycles count [] p

end Processor

end StoredProgram
