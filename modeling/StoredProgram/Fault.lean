/-!
Faults: what can go wrong when source is read and when a program is loaded or runs.
A fault is a cause together with the place and a note, as far as they are known.
-/
namespace StoredProgram

inductive Cause where
  | addressOutOfBounds
  | outOfSpace
  | emptyAddress
  | registerOutOfBounds
  | nestingTooDeep
  | missingOrigin
  | unknownToken
  | missingOperand
  | invalidOperand
  | missingFormat
deriving DecidableEq

/-- The part of the machine that a fault belongs to. -/
inductive Area where
  | addressing
  | execution
  | loading
deriving DecidableEq

namespace Cause

def area : Cause → Area
  | addressOutOfBounds | outOfSpace => .addressing
  | emptyAddress | registerOutOfBounds | nestingTooDeep => .execution
  | missingOrigin | unknownToken | missingOperand | invalidOperand | missingFormat => .loading

def description : Cause → String
  | addressOutOfBounds => "Address is out of bounds"
  | outOfSpace => "Out of space"
  | emptyAddress => "Can't access address"
  | registerOutOfBounds => "Register is out of bounds"
  | nestingTooDeep => "Get nested too deep"
  | missingOrigin => "I need an org first"
  | unknownToken => "Unknown token"
  | missingOperand => "Missing operand"
  | invalidOperand => "Invalid operand"
  | missingFormat => "Missing format string"

end Cause

/-- An empty note is no note. -/
structure Fault where
  cause : Cause
  address : Option Nat := none
  line : Option Nat := none
  note : String := ""
deriving DecidableEq

namespace Fault

/-- A fault of which only the cause is known. -/
def bare (cause : Cause) : Fault := { cause := cause }

/-- Sets the address. What is known already is not set again. -/
def atAddress (f : Fault) (address : Nat) (_unset : f.address = none) : Fault :=
  { f with address := some address }

/-- Sets the line. What is known already is not set again. -/
def atLine (f : Fault) (line : Nat) (_unset : f.line = none) : Fault :=
  { f with line := some line }

/-- Sets the note. What is known already is not set again. -/
def withNote (f : Fault) (note : String) (_unset : f.note = "") : Fault :=
  { f with note := note }

def area (f : Fault) : Area := f.cause.area

/-- The cause with its place: an address, an instruction or a line, by the area. -/
def headline (f : Fault) : String :=
  match f.area with
  | .addressing =>
    match f.address with
    | some address => s!"Memory error: {f.cause.description}: {address}"
    | none => s!"Memory error: {f.cause.description}"
  | .execution =>
    match f.address with
    | some address => s!"Instruction {address}: {f.cause.description}"
    | none => s!"Instruction: {f.cause.description}"
  | .loading =>
    match f.line with
    | some line => s!"Line {line}: {f.cause.description}"
    | none => s!"Load error: {f.cause.description}"

def message (f : Fault) : String :=
  if f.note = "" then f.headline else s!"{f.headline} ({f.note})"

/-- The message in the form in which a fault shows up inside other data. -/
def inspect (f : Fault) : String := "Error \x7b " ++ f.message ++ " \x7d"

end Fault

end StoredProgram
