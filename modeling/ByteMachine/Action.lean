import ByteMachine.Record

/-!
# Actions

An instruction checks, reads and changes things one after the other. An action
is such a sequence at work: it has the machine in its hands, with the values it
has put out and the records it has logged, and any of its parts may come to a
fault. A fault takes nothing back: what was done before it stays done.
-/
namespace ByteMachine

/-- What an action has done so far: the machine as it is now, the values it put out, what it
logged. -/
structure Transition where
  machine : Machine
  emitted : List Nat := []
  log : List Record := []
  deriving DecidableEq

/-- Parts of an instruction, each of which finds what the ones before it have done. -/
abbrev Action := EStateM Fault Transition

/-- How an action came out, with what it has done by then. -/
abbrev Attempt := EStateM.Result Fault Transition Unit

namespace Action

/-- The value that was asked for, or its fault. -/
def demand {α : Type} (result : Except Fault α) : Action α := fun t =>
  match result with
  | .ok value => .ok value t
  | .error fault => .error fault t

instance : MonadLift (Except Fault) Action := ⟨demand⟩

/-- The machine as it is now. -/
def machine : Action Machine := fun t => .ok t.machine t

/-- Put a changed machine in place of the one there is. -/
def change (m : Machine) : Action Unit := fun t => .ok () { t with machine := m }

/-- Put out a value. -/
def emit (value : Nat) : Action Unit := fun t => .ok () { t with emitted := t.emitted ++ [value] }

/-- Log a record. Its text is made first, and nothing is logged if it names a number that cannot
be written. -/
def log (program : Program) (record : Record) : Action Unit := fun t =>
  if record.isWritable program.size then .ok () { t with log := t.log ++ [record] }
  else .error .unwritable t

def readRegister (index : Int) : Action UInt8 := do (← machine).readRegister index

def writeRegister (index value : Int) : Action Unit := do
  change (← (← machine).writeRegister index value)

def readMemory (address : Int) : Action UInt8 := do (← machine).readMemory address

def writeMemory (address value : Int) : Action Unit := do
  change (← (← machine).writeMemory address value)

/-- Log the line of a label, and record it. -/
def recordLabel (program : Program) (name : String) (line : Int) : Action Unit := do
  log program (.labelRecorded name line)
  change ((← machine).recordLabel name line)

/-- Log the state of the machine. -/
def dump (program : Program) : Action Unit := do log program (.ofMachine (← machine))

end Action

end ByteMachine
