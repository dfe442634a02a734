import ByteMachine.CommandLine
import ByteMachine.Run
import ByteMachine.SourceFile

/-!
# The command

The command loads a source file, reads the program in it, runs it, and tells by
its exit code how that went. Values are printed to the standard output, one in a
line; the log goes to the standard error.
-/
namespace ByteMachine

/-- Why there is no program to run. -/
inductive PrepareFault where
  | load (fault : LoadFault)
  | rejected (rejection : Rejection)
  deriving DecidableEq, Repr

/-- The last record of a command and its exit code. -/
structure Closing where
  exitCode : Nat
  record : Record
  deriving DecidableEq

namespace Closing

/-- How the command ends without a program. A mistake without a wording is left so; the lines of a
file hold none. -/
def ofPrepareFault : PrepareFault → Closing
  | .load (.notFound path) => ⟨2, .sourceMissing (LoadFault.notFound path).message⟩
  | .load fault => ⟨100, .failed fault.message⟩
  | .rejected rejection =>
    let message := rejection.message?.getD ""
    if rejection.cause.concernsLine then ⟨1, .sourceRejected message⟩ else ⟨100, .failed message⟩

/-- How the command ends after a run; after an endless one it does not. -/
def ofEnding : Ending → Option Closing
  | .halted => some ⟨0, .finished⟩
  | .failed (.stepLimit steps) => some ⟨4, .aborted (Fault.stepLimit steps).message⟩
  | .failed fault => some ⟨100, .failed fault.message⟩
  | .interrupted => some ⟨3, .interrupted⟩
  | .endless => none

end Closing

/-- The program in a file, with the log of reading it. -/
structure Preparation where
  log : Array Record
  program : Except PrepareFault Program

/-- Load a file and read the program in it. -/
def prepare (path : SourcePath) (content : Content) : Preparation :=
  let opening := #[.banner] ++ SourceFile.records path content
  match SourceFile.load path content with
  | .error fault => ⟨opening, .error (.load fault)⟩
  | .ok lines =>
    let listing := Listing.ofLines lines
    ⟨opening ++ listing.records, listing.program.mapError .rejected⟩

/-- Whether a record is shown. Without the verbose option the details are left out. -/
def Record.isShown (record : Record) (verbose : Bool) : Bool := verbose || record.level ≠ .debug

/-- A record as a line of the log. -/
def Record.logLine (record : Record) : String := s!"{record.level.name}:root:{record.text}\n"

/-- What the command leaves behind. An endless run has no exit code. -/
structure Report where
  exitCode : Option Nat
  output : String
  errors : String
  deriving DecidableEq, Repr

/-- The log as it is shown. -/
def shownLog (verbose : Bool) (log : Array Record) : String :=
  String.join ((log.toList.filter (·.isShown verbose)).map Record.logLine)

/-- Run what the file system has at the source path, for a user who may lose patience. -/
def Invocation.report (invocation : Invocation) (content : Content)
    (patience : Option Nat) : Report :=
  let preparation := prepare invocation.source content
  match preparation.program with
  | .error fault =>
    let closing := Closing.ofPrepareFault fault
    ⟨some closing.exitCode, "",
      shownLog invocation.verbose (preparation.log.push closing.record)⟩
  | .ok program =>
    let run := Machine.new.run program ⟨invocation.limit, patience⟩
    let closing := Closing.ofEnding run.ending
    ⟨closing.map Closing.exitCode, run.printed,
      shownLog invocation.verbose
        (preparation.log ++ run.log ++ (closing.map Closing.record).toList)⟩

/-- Run the command with the words of its command line, where `lookup` tells what the file
system has. -/
def launch (words : List String) (lookup : SourcePath → Content)
    (patience : Option Nat) : Report :=
  match CommandLine.parse words with
  | .error fault => ⟨some 2, "", fault.report⟩
  | .ok .help => ⟨some 0, helpText, ""⟩
  | .ok (.run invocation) => invocation.report (lookup invocation.source) patience

end ByteMachine
