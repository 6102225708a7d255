import StoredProgram.Number.Literal

/-!
The options of the command line. A file and each option are given at most once, except
for the verbosity, which counts. Sizes stand after an equals sign or in the next
argument, one-letter flags may be joined, and two dashes end the options.
-/
namespace StoredProgram.CommandLine

structure Options where
  file : Option String := none
  memory : Option Nat := none
  registers : Option Nat := none
  cycles : Option Nat := none
  quiet : Bool := false
  verbosity : Nat := 0
deriving DecidableEq

/-- An argument by its form. -/
inductive Argument where
  | file (name : String)
  | flags (letters : List Char)
  | long (name : List Char) (value : Option (List Char))
  | separator
deriving DecidableEq

/-- A single dash is the name of a file. -/
def Argument.ofText (text : String) : Argument :=
  match text.toList with
  | ['-', '-'] => separator
  | '-' :: '-' :: body =>
    match body.dropWhile (· != '=') with
    | [] => long body none
    | _ :: value => long (body.takeWhile (· != '=')) (some value)
  | '-' :: letter :: more => flags (letter :: more)
  | _ => file text

namespace Options

def memorySize (o : Options) : Nat := o.memory.getD 1024

def registerCount (o : Options) : Nat := o.registers.getD 32

def cycleCount (o : Options) : Nat := o.cycles.getD 5000

def sourceName (o : Options) : String := o.file.getD "stdin"

def withFile? (o : Options) (name : String) : Option Options :=
  if o.file = none ∧ name ≠ "" then some { o with file := some name } else none

def withFlags? (o : Options) : List Char → Option Options
  | [] => some o
  | 'q' :: rest => if o.quiet then none else { o with quiet := true }.withFlags? rest
  | 'v' :: rest => { o with verbosity := o.verbosity + 1 }.withFlags? rest
  | _ => none

def withSize? (o : Options) (name value : List Char) : Option Options := do
  let size ← Literal.size? (String.ofList value)
  match String.ofList name with
  | "memory" => if o.memory = none then some { o with memory := some size } else none
  | "registers" => if o.registers = none then some { o with registers := some size } else none
  | "cycles" => if o.cycles = none then some { o with cycles := some size } else none
  | _ => none

/-- The letter of a flag with a long name. -/
def flagLetter? (name : List Char) : Option Char :=
  match String.ofList name with
  | "quiet" => some 'q'
  | "verbose" => some 'v'
  | _ => none

def withArguments? (o : Options) : List String → Option Options
  | [] => some o
  | text :: rest =>
    match Argument.ofText text with
    | .separator => rest.foldlM withFile? o
    | .file name => do (← o.withFile? name).withArguments? rest
    | .flags letters => do (← o.withFlags? letters).withArguments? rest
    | .long name (some value) => do (← o.withSize? name value).withArguments? rest
    | .long name none =>
      match flagLetter? name, rest with
      | some letter, rest => do (← o.withFlags? [letter]).withArguments? rest
      | none, value :: rest => do (← o.withSize? name value.toList).withArguments? rest
      | none, [] => none

/-- The options that arguments give, which is none if the arguments are refused. -/
def parse? (arguments : List String) : Option Options := withArguments? {} arguments

end Options

end StoredProgram.CommandLine
