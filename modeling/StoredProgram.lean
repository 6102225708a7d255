import StoredProgram.CommandLine.Host
import StoredProgram.CommandLine.Options
import StoredProgram.CommandLine.Session
import StoredProgram.Fault
import StoredProgram.Instruction
import StoredProgram.Log
import StoredProgram.Machine
import StoredProgram.Main
import StoredProgram.Memory
import StoredProgram.Number.Arithmetic
import StoredProgram.Number.Basic
import StoredProgram.Number.Decimal
import StoredProgram.Number.Literal
import StoredProgram.Number.Nearest
import StoredProgram.Number.Shortest
import StoredProgram.Operation
import StoredProgram.Processor
import StoredProgram.Program.Basic
import StoredProgram.Program.Source
import StoredProgram.Proofs.Attempts
import StoredProgram.Proofs.Attribution
import StoredProgram.Proofs.Commentary
import StoredProgram.Proofs.Commuting
import StoredProgram.Proofs.Composition
import StoredProgram.Proofs.ControlFlow
import StoredProgram.Proofs.Cycle
import StoredProgram.Proofs.Decimals
import StoredProgram.Proofs.Enlarging
import StoredProgram.Proofs.EventStream
import StoredProgram.Proofs.Exactness
import StoredProgram.Proofs.Execution
import StoredProgram.Proofs.Failures
import StoredProgram.Proofs.Fields
import StoredProgram.Proofs.ForwardJumps
import StoredProgram.Proofs.GeneralStyle
import StoredProgram.Proofs.GetChains
import StoredProgram.Proofs.GetCycles
import StoredProgram.Proofs.Histories
import StoredProgram.Proofs.HostCalls
import StoredProgram.Proofs.Integers
import StoredProgram.Proofs.Layout
import StoredProgram.Proofs.Lexing
import StoredProgram.Proofs.LineGrammar
import StoredProgram.Proofs.Loading
import StoredProgram.Proofs.Magnitudes
import StoredProgram.Proofs.Margins
import StoredProgram.Proofs.Numerals
import StoredProgram.Proofs.Operands
import StoredProgram.Proofs.Outcomes
import StoredProgram.Proofs.Placement
import StoredProgram.Proofs.Provenance
import StoredProgram.Proofs.ReadBack
import StoredProgram.Proofs.Relexing
import StoredProgram.Proofs.Requests
import StoredProgram.Proofs.Rounding
import StoredProgram.Proofs.Schedules
import StoredProgram.Proofs.SignificantDigits
import StoredProgram.Proofs.Splitting
import StoredProgram.Proofs.Statements
import StoredProgram.Proofs.Tiling
import StoredProgram.Proofs.Traces
import StoredProgram.Proofs.Turns
import StoredProgram.Registers
import StoredProgram.Statement
import StoredProgram.Template.Basic
import StoredProgram.Template.Render
import StoredProgram.Template.Segments
import StoredProgram.Text.Blank
import StoredProgram.Text.Lines
import StoredProgram.Token.Basic
import StoredProgram.Token.Lexer
