import ByteMachine.Action
import ByteMachine.Arithmetic
import ByteMachine.CommandLine
import ByteMachine.Directory
import ByteMachine.Execution
import ByteMachine.Fault
import ByteMachine.Indexing
import ByteMachine.Instruction
import ByteMachine.IntegerText
import ByteMachine.LabelSearch
import ByteMachine.Launch
import ByteMachine.Listing
import ByteMachine.Machine
import ByteMachine.Main
import ByteMachine.Monitor
import ByteMachine.Numeral
import ByteMachine.Opcode
import ByteMachine.Operand
import ByteMachine.Record
import ByteMachine.Run
import ByteMachine.SourceFile
import ByteMachine.SourceLine
import ByteMachine.SourcePath
import ByteMachine.Text.Blank
import ByteMachine.Text.Charset
import ByteMachine.Text.ControlSequence
import ByteMachine.Text.DecimalDigit
import ByteMachine.Text.Likeness
import ByteMachine.Text.Lines
import ByteMachine.Text.Printable
import ByteMachine.Text.Quoted
import ByteMachine.Text.Split
import ByteMachine.Text.Utf8
import ByteMachine.Proofs.Change
import ByteMachine.Proofs.Trace
import ByteMachine.Proofs.Course
import ByteMachine.Proofs.LabelSearch
import ByteMachine.Proofs.Origin
import ByteMachine.Proofs.Configuration
import ByteMachine.Proofs.Atomicity
import ByteMachine.Proofs.Raising
import ByteMachine.Proofs.StepLimit
import ByteMachine.Proofs.LabelTable
import ByteMachine.Proofs.WellFormed
import ByteMachine.Proofs.Reachable
import ByteMachine.Proofs.Spelling
import ByteMachine.Proofs.RoundTrip
import ByteMachine.Proofs.NamedBranch
import ByteMachine.Proofs.NumeralGrammar
import ByteMachine.Proofs.Taxonomy
import ByteMachine.Proofs.PlainForm
import ByteMachine.Proofs.FrontEnds
import ByteMachine.Proofs.Grammar
import ByteMachine.Proofs.LabelHistory
import ByteMachine.Proofs.Reading
import ByteMachine.Proofs.Storage
import ByteMachine.Proofs.Extension
import ByteMachine.Proofs.Comparison
import ByteMachine.Proofs.Cycle
import ByteMachine.Proofs.Loading
import ByteMachine.Proofs.ByteArithmetic
import ByteMachine.Proofs.Verdict
import ByteMachine.Proofs.Journal
import ByteMachine.Proofs.WrappedSearch
import ByteMachine.Proofs.HaltedRun
import ByteMachine.Proofs.Frame
import ByteMachine.Proofs.BranchTarget
import ByteMachine.Proofs.OperandGrammar
import ByteMachine.Proofs.Encoding
import ByteMachine.Proofs.FirstMistake
import ByteMachine.Proofs.Newlines
import ByteMachine.Proofs.Quotation
import ByteMachine.Proofs.Splitting
