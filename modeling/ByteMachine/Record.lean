import ByteMachine.Listing
import ByteMachine.Machine

/-!
# Log records

What the program tells about its work while it works, each record with the level
of its importance.
-/
namespace ByteMachine

inductive Level where
  | debug
  | info
  | warning
  | error
  deriving DecidableEq, Repr

def Level.name : Level → String
  | .debug => "DEBUG"
  | .info => "INFO"
  | .warning => "WARNING"
  | .error => "ERROR"

inductive Record where
  /-- The command has started. -/
  | banner
  | loading (path : String)
  | parsed (line : Nat) (instruction : Instruction)
  | labelRecorded (name : String) (line : Int)
  | branchTaken (mnemonic : String) (target : Int)
  /-- An operation that the machine does not have and that names no label either. -/
  | notInstruction (line : Int) (opcode : String)
  /-- The machine between two instructions. -/
  | state (pc : Int) (registers : Vector UInt8 registerCount) (flags : Flags)
  | haltedAfter (steps : Int)
  | finished
  | interrupted
  | sourceMissing (message : String)
  | sourceRejected (message : String)
  | aborted (message : String)
  | failed (message : String)
  deriving DecidableEq

namespace Record

def level : Record → Level
  | .loading _ | .parsed .. | .labelRecorded .. | .branchTaken .. | .state .. | .haltedAfter _ =>
    .debug
  | .banner | .finished | .interrupted | .failed _ => .info
  | .notInstruction .. => .warning
  | .sourceMissing _ | .sourceRejected _ | .aborted _ => .error

/-- The text, moved to the right edge of a column. -/
def alignRight (width : Nat) (text : String) : String :=
  String.ofList (List.replicate (width - text.length) ' ') ++ text

/-- The contents of registers in a row, counted from a number on. -/
def registerTexts : Nat → List UInt8 → List String
  | _, [] => []
  | n, byte :: rest => s!"R{n}:{byte.toNat}" :: registerTexts (n + 1) rest

def text : Record → String
  | .banner => "AQASM"
  | .loading path => s!"Loading source {path}"
  | .parsed line instruction => s!"{alignRight 4 (toString line)}: {instruction.text}"
  | .labelRecorded name line => s!"Label {name} @ {line}"
  | .branchTaken mnemonic target => s!"{mnemonic} -> {target}"
  | .notInstruction line opcode =>
    s!"Line {line}: not an instruction or label definition ({opcode})"
  | .state pc registers flags =>
    let names := ",".intercalate (flags.toList.map Flag.name)
    " ".intercalate (s!"PC:{pc}" :: registerTexts 0 registers.toList ++ [s!"F:{names}"])
  | .haltedAfter steps => s!"Halted after {steps} instructions"
  | .finished => "Execution halted gracefully"
  | .interrupted => "Execution halted by the user"
  | .sourceMissing message => message
  | .sourceRejected message => s!"Parse error: {message}"
  | .aborted message => s!"Execution aborted: {message}"
  | .failed message => s!"Execution halted on general error {message}"

/-- Whether the number that a record names can be written, in a program of so many lines. -/
def isWritable (size : Nat) : Record → Bool
  | .labelRecorded _ line | .branchTaken _ line | .notInstruction line _ | .state line .. =>
    Numeral.writableLine size line
  | .haltedAfter steps => Numeral.writable steps
  | _ => true

/-- The state of a machine as a record. -/
def ofMachine (m : Machine) : Record := .state m.pc m.registers m.flags

end Record

/-- A record for every line that was accepted. -/
def Listing.records (listing : Listing) : Array Record :=
  listing.accepted.mapIdx Record.parsed

end ByteMachine
