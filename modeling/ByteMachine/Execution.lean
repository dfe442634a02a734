import ByteMachine.LabelSearch

/-!
# Execution of one instruction

The operands of an instruction are read from left to right, each with its checks:
that it is there, that its kind fits, that it is a number, that the register or
the cell exists. The destination's own number is read first and its register
written last. Whatever a fault finds done is left to the caller, together with
the fault.
-/
namespace ByteMachine

namespace Instruction

/-- The numeral in an operand. -/
def number (i : Instruction) (index : Nat) : Except Fault Nat := do
  let operand ← i.operand index
  match Numeral.parse operand.raw with
  | .ok value => return value
  | .error .malformed => throw (.notNumeral i.mnemonic index operand.raw)
  | .error (.tooLong digits) => throw (.numeralTooLong digits)

/-- The kind of an operand, if it is one of those expected. -/
def kindAmong (i : Instruction) (index : Nat) (expected : List OperandKind) :
    Except Fault OperandKind := do
  let operand ← i.operand index
  if operand.kind ∈ expected then return operand.kind
  else throw (.wrongKind i.mnemonic index expected operand.kind)

/-- The number of the register that an operand names. -/
def register (i : Instruction) (index : Nat) : Except Fault Nat := do
  let _ ← i.kindAmong index [.register]
  i.number index

/-- The memory address that an operand names. -/
def address (i : Instruction) (index : Nat) : Except Fault Nat := do
  let _ ← i.kindAmong index [.address]
  i.number index

end Instruction

namespace Execution

open ByteMachine.Action

/-- The contents of a register, or an immediate value. -/
def value (i : Instruction) (index : Nat) : Action Nat := do
  match ← i.kindAmong index [.register, .immediate] with
  | .register =>
    let byte ← readRegister (← i.number index)
    return byte.toNat
  | _ => i.number index

/-- Combine a register and a value, and store the result in a register. -/
def arithmetic (i : Instruction) (op : ArithOp) : Action Unit := do
  let target ← i.register 0
  let a ← readRegister (← i.register 1)
  let b ← value i 2
  writeRegister target (op.eval a.toNat b)

/-- Copy a cell of memory to a register. -/
def load (i : Instruction) : Action Unit := do
  let target ← i.register 0
  let byte ← readMemory (← i.address 1)
  writeRegister target byte.toNat

/-- Copy a register to a cell of memory. -/
def store (i : Instruction) : Action Unit := do
  let byte ← readRegister (← i.register 0)
  writeMemory (← i.address 1) byte.toNat

/-- Store a value in a register. -/
def move (i : Instruction) : Action Unit := do
  let target ← i.register 0
  writeRegister target (← value i 1)

/-- Store the complement of a value in a register. -/
def moveComplement (i : Instruction) : Action Unit := do
  let target ← i.register 0
  writeRegister target (complement (← value i 1))

/-- The flags that a comparison sets. -/
def comparison (a b : Nat) : List Flag :=
  if a = b then [.eq] else if a < b then [.ne, .lt] else [.ne, .gt]

/-- Compare a register with a value, which is not reduced to a byte. -/
def compare (i : Instruction) : Action Unit := do
  let a ← readRegister (← i.register 0)
  let b ← value i 1
  change ((← machine).setFlags (comparison a.toNat b))

/-- Put out a register, a cell of memory or an immediate value. -/
def output (i : Instruction) : Action Unit := do
  let operand ← i.operand 0
  match operand.kind with
  | .register => emit (← readRegister (← i.number 0)).toNat
  | .address => emit (← readMemory (← i.number 0)).toNat
  | .immediate | .label => emit (← i.number 0)

/-- The definition of a label, recorded at the current line. -/
def define (i : Instruction) (program : Program) : Action Unit := do
  let operand ← i.operand 0
  recordLabel program operand.raw (← machine).pc

/-- An operation the machine does not have: a label, if something names it. -/
def unknown (i : Instruction) (program : Program) : Action Unit := do
  match i.operands with
  | operand :: _ => recordLabel program operand.raw (← machine).pc
  | [] => log program (.notInstruction (← machine).pc i.opcode.name)

/-- Where a branch leads. A memory address that is a numeral is a line number; any other one,
and a label, is a name. -/
def branchTarget (i : Instruction) (program : Program) : Action Int := do
  let operand ← i.operand 0
  match operand.kind with
  | .register | .immediate => return ← value i 0
  | .label => findLabel program operand.raw
  | .address =>
    match Numeral.parse operand.raw with
    | .ok line => return line
    | .error .malformed => findLabel program operand.raw
    | .error (.tooLong digits) => throw (.numeralTooLong digits)

/-- Whether a branch is taken. -/
def taken (flags : Flags) : Option Condition → Bool
  | some (.when flag) => flags.has flag
  | some .always | none => true

/-- Set the line to the one before a target, since the line advances after every instruction. -/
def land (i : Instruction) (program : Program) (target : Int) : Action Unit := do
  log program (.branchTaken i.mnemonic target)
  change ((← machine).jump (target - 1))

def branch (i : Instruction) (program : Program) : Action Unit := do
  if taken (← machine).flags i.branch then
    land i program (← branchTarget i program)

/-- Execute one instruction. The line and the step counter are left to `next`. -/
def execute (program : Program) (i : Instruction) : Action Unit := do
  match i.opcode with
  | .arith op => arithmetic i op
  | .ldr => load i
  | .str => store i
  | .mov => move i
  | .mvn => moveComplement i
  | .cmp => compare i
  | .b => branch i program
  | .halt => change { ← machine with halted := true }
  | .nop => return
  | .label => define i program
  | .out => output i
  | .unknown _ => unknown i program

end Execution

/-- Go on to the next line. -/
def Machine.advance (m : Machine) : Machine := { m with pc := m.pc + 1, steps := m.steps + 1 }

/-- The instruction at the current line. -/
def Program.at? (program : Program) (line : Int) : Option Instruction :=
  if 0 ≤ line then program[line.toNat]? else none

/-- Execute the instruction at the current line and go on to the next one. -/
def Execution.next (program : Program) : Action Unit := do
  let m ← Action.machine
  match program.at? m.pc with
  | none => throw (Fault.overrun m.pc program.size).told
  | some i =>
    execute program i
    Action.change (← Action.machine).advance

/-- Execute an instruction on a machine. -/
def Machine.execute (m : Machine) (program : Program) (i : Instruction) : Attempt :=
  Execution.execute program i { machine := m }

/-- Execute the instruction at a machine's current line. -/
def Machine.next (m : Machine) (program : Program) : Attempt :=
  Execution.next program { machine := m }

end ByteMachine
