import ByteMachine.Launch

/-!
# The command as a program

Here the command meets the file system and the terminal. A run is shown while it
goes on: the records and the values of every turn are written before the next
turn begins, so a run without an end can be watched, and stopped.
-/
namespace ByteMachine

/-- The number and the wording of an error, where it has both. -/
def refusal? : IO.Error → Option Refusal
  | .alreadyExists _ code reason | .resourceBusy code reason | .resourceVanished code reason
  | .unsupportedOperation code reason | .hardwareFault code reason
  | .unsatisfiedConstraints code reason | .illegalOperation code reason
  | .protocolError code reason | .timeExpired code reason | .interrupted _ code reason
  | .invalidArgument _ code reason | .permissionDenied _ code reason
  | .resourceExhausted _ code reason | .noSuchThing _ code reason | .otherError code reason =>
    -- A code may come negated, and with a wording of its own.
    let refusal : Refusal := ⟨(min code (-code)).toNat, reason⟩
    some (([.nameTooLong, .permissionDenied].find? (·.code = refusal.code)).getD refusal)
  | _ => none

/-- The codes that say that there is nothing to be read at a path, beside those that say so by
their kind: a descriptor that names none, and names that lead in a circle. -/
def absentCodes : List Nat := [9, 40]

/-- Whether a path leads anywhere. -/
def leadsSomewhere (path : SourcePath) : IO Bool := do
  try
    discard (IO.FS.realPath path.text)
    return true
  catch _ => return false

/-- What the file system has at a path. -/
def readContent (path : SourcePath) : IO Content := do
  try
    return .file (← IO.FS.readBinFile path.text)
  catch error =>
    match refusal? error with
    | none => return .absent
    | some refusal =>
      if refusal.code ∈ absentCodes then return .absent
      else return .refused (← leadsSomewhere path) refusal

/-- Write records to the log, as far as they are shown. -/
def writeLog (verbose : Bool) (records : Array Record) : IO Unit := do
  for record in records do
    if record.isShown verbose then IO.eprint record.logLine

/-- Print the values and write the records of a turn. -/
def showTurn (verbose : Bool) (t : Transition) : IO Unit := do
  let output ← IO.getStdout
  output.putStr (printed t.emitted)
  output.flush
  writeLog verbose t.log.toArray

/-- Take turns until the run is over. -/
partial def watch (program : Program) (bounds : Bounds) (verbose : Bool) (m : Machine) :
    IO Ending := do
  match m.turn program bounds with
  | .over ending left =>
    showTurn verbose left
    return ending
  | .on t =>
    showTurn verbose t
    watch program (bounds.after t.emitted) verbose t.machine

/-- Write the last record and give the exit code. -/
def close (verbose : Bool) (closing : Closing) : IO UInt32 := do
  writeLog verbose #[closing.record]
  return closing.exitCode.toUInt32

/-- Run the command as it was asked to. -/
def Invocation.perform (invocation : Invocation) : IO UInt32 := do
  let preparation := prepare invocation.source (← readContent invocation.source)
  writeLog invocation.verbose preparation.log
  match preparation.program with
  | .error fault => close invocation.verbose (.ofPrepareFault fault)
  | .ok program =>
    let ending ← watch program { limit := invocation.limit } invocation.verbose .new
    match Closing.ofEnding ending with
    | some closing => close invocation.verbose closing
    | none => return 0

end ByteMachine

open ByteMachine in
def main (words : List String) : IO UInt32 := do
  match CommandLine.parse words with
  | .error fault =>
    IO.eprint fault.report
    return 2
  | .ok .help =>
    IO.print helpText
    return 0
  | .ok (.run invocation) => invocation.perform
