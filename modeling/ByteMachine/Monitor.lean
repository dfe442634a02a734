import ByteMachine.Run

/-!
# The monitor

A monitor holds a live machine and, once one has been loaded, a program. It takes
commands one at a time: to look at the machine, to change it by hand, to execute
single instructions, or to run the program. A command that fails leaves behind
what it had done before it failed, and the next one goes on from there.
-/
namespace ByteMachine

structure Monitor where
  machine : Machine
  program : Option Program
  deriving DecidableEq

namespace Monitor

inductive Command where
  | readRegister (index : Int)
  | writeRegister (index value : Int)
  | readMemory (address : Int)
  | writeMemory (address value : Int)
  | setFlags (flags : List Flag)
  | hasFlag (flag : Flag)
  | recordLabel (name : String) (line : Int)
  | findLabel (name : String)
  | jump (line : Int)
  | reset
  | setHalted (halted : Bool)
  | setSteps (steps : Int)
  /-- Log the state of the machine. -/
  | dump
  | load (lines : List String)
  /-- Execute a source line without advancing. -/
  | executeLine (line : String)
  | execute (instruction : Instruction)
  | next
  | run (limit : Option Int)
  deriving DecidableEq, Repr

/-- What a command has to tell. -/
inductive Outcome where
  | done
  | byte (value : UInt8)
  | truth (value : Bool)
  | line (line : Option Int)
  | rejected (rejection : Rejection)
  | faulted (fault : Fault)
  | ran (ending : Ending)
  deriving DecidableEq

/-- The monitor after a command, with the outcome, the values put out and the log. -/
structure Reply where
  monitor : Monitor
  outcome : Outcome := .done
  output : Array Nat := #[]
  log : Array Record := #[]
  deriving DecidableEq

/-- A monitor before its first command. -/
def new : Monitor := ⟨.new, none⟩

/-- The program of a monitor, empty if none has been loaded. -/
def loaded (monitor : Monitor) : Program := monitor.program.getD #[]

/-- The outcome of reading a byte. -/
def Outcome.ofByte : Except Fault UInt8 → Outcome
  | .ok value => .byte value
  | .error cause => .faulted cause.told

/-- Put a changed machine in place, if the change succeeded. -/
def replace (monitor : Monitor) : Except Fault Machine → Reply
  | .ok machine => { monitor := { monitor with machine } }
  | .error cause => { monitor, outcome := .faulted cause.told }

/-- Take over what an action did, also if it failed. -/
def apply (monitor : Monitor) (attempt : Attempt) : Reply :=
  let (outcome, t) : Outcome × Transition :=
    match attempt with
    | .ok _ t => (.done, t)
    | .error fault t => (.faulted fault, t)
  { monitor := { monitor with machine := t.machine }
    outcome
    output := t.emitted.toArray
    log := t.log.toArray }

/-- Execute an instruction. Labels are searched in the program, or in the instruction alone if
no program has been loaded. -/
def executeOne (monitor : Monitor) (instruction : Instruction) : Reply :=
  monitor.apply (monitor.machine.execute (monitor.program.getD #[instruction]) instruction)

def perform (monitor : Monitor) : Command → Reply
  | .readRegister index =>
    { monitor, outcome := .ofByte (monitor.machine.readRegister index) }
  | .writeRegister index value => monitor.replace (monitor.machine.writeRegister index value)
  | .readMemory address => { monitor, outcome := .ofByte (monitor.machine.readMemory address) }
  | .writeMemory address value => monitor.replace (monitor.machine.writeMemory address value)
  | .setFlags flags => monitor.replace (.ok (monitor.machine.setFlags flags))
  | .hasFlag flag => { monitor, outcome := .truth (monitor.machine.flags.has flag) }
  | .recordLabel name line =>
    monitor.apply (Action.recordLabel monitor.loaded name line { machine := monitor.machine })
  | .findLabel name => { monitor, outcome := .line (monitor.machine.label? name) }
  | .jump line => monitor.replace (.ok (monitor.machine.jump line))
  | .reset => monitor.replace (.ok .new)
  | .setHalted halted => monitor.replace (.ok { monitor.machine with halted })
  | .setSteps steps => monitor.replace (.ok { monitor.machine with steps })
  | .dump => monitor.apply (Action.dump monitor.loaded { machine := monitor.machine })
  | .load lines =>
    let listing := Listing.ofLines lines
    match listing.program with
    | .ok program =>
      { monitor := { monitor with program := some program }, log := listing.records }
    | .error rejection => { monitor, outcome := .rejected rejection, log := listing.records }
  | .executeLine line =>
    match SourceLine.parse line with
    | .ok instruction => monitor.executeOne instruction
    | .error cause => { monitor, outcome := .rejected ⟨cause, none⟩ }
  | .execute instruction => monitor.executeOne instruction
  | .next => monitor.apply (monitor.machine.next monitor.loaded)
  | .run limit =>
    let run := monitor.machine.run monitor.loaded { limit }
    { monitor := { monitor with machine := run.machine }
      outcome := .ran run.ending
      output := run.output
      log := run.log }

/-- The replies to a sequence of commands. -/
def converse (monitor : Monitor) : List Command → List Reply
  | [] => []
  | command :: rest =>
    let reply := monitor.perform command
    reply :: converse reply.monitor rest

end Monitor

end ByteMachine
