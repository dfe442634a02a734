import ByteMachine.Execution
import ByteMachine.Proofs.Writing

/-!
# What instructions change

Every instruction first reads all that it needs, and whatever can go wrong goes
wrong while it reads, or with the first record that it logs. What it does then
can be told in advance as a single change. `Instruction.change` is this reading
of an instruction, without any effect; `Machine.execute_eq` and
`Machine.next_eq` say that executing step by step comes to the same, and that a
fault finds nothing done. Of the lines that are logged, only those that come
with the machine need a look: its own line and those of its labels.
-/
namespace ByteMachine

/-- What an instruction does when nothing can stop it any more. -/
inductive Change where
  | skip
  | register (target : Fin registerCount) (value : Int)
  | memory (address : Fin memorySize) (value : Int)
  | flags (raised : List Flag)
  | halt
  | emit (value : Nat)
  | label (name : String) (line : Int)
  /-- An operation that the machine does not have and that names no label either. -/
  | warn (line : Int) (opcode : String)
  | jump (mnemonic : String) (line : Int)
  /-- A branch to a label that is recorded on the way. -/
  | discover (mnemonic name : String) (line : Int)
  deriving DecidableEq, Repr

/-- The machine, the values and the records that a change leads to. -/
def Change.apply (m : Machine) : Change → Transition
  | .skip => { machine := m }
  | .register target value =>
    { machine := { m with registers := m.registers.set target (wrap value) target.isLt } }
  | .memory address value =>
    { machine := { m with memory := m.memory.set address (wrap value) address.isLt } }
  | .flags raised => { machine := m.setFlags raised }
  | .halt => { machine := { m with halted := true } }
  | .emit value => { machine := m, emitted := [value] }
  | .label name line => { machine := m.recordLabel name line, log := [.labelRecorded name line] }
  | .warn line opcode => { machine := m, log := [.notInstruction line opcode] }
  | .jump mnemonic line =>
    { machine := m.jump (line - 1), log := [.branchTaken mnemonic line] }
  | .discover mnemonic name line =>
    { machine := (m.recordLabel name line).jump (line - 1)
      log := [.labelRecorded name line, .branchTaken mnemonic line] }

/-- A change that is logged with a line, if the line can be written. -/
def Change.naming (program : Program) (line : Int) (c : Change) : Except Fault Change :=
  if Numeral.writableLine program.size line then .ok c else .error .unwritable

/-- A change with the step to the next line. -/
def Change.carryOut (m : Machine) (c : Change) : Transition :=
  { c.apply m with machine := (c.apply m).machine.advance }

/-- Only the step to the next line is counted. -/
@[simp] theorem Change.apply_steps (m : Machine) (c : Change) :
    (c.apply m).machine.steps = m.steps := by
  cases c <;> rfl

theorem Change.halted_carryOut (m : Machine) (c : Change) :
    (c.carryOut m).machine.halted = (m.halted || decide (c = .halt)) := by
  cases c <;> simp [carryOut, apply, Machine.advance, Machine.setFlags, Machine.recordLabel,
    Machine.jump]

/-- The label that a change records, with its line. -/
def Change.recorded? : Change → Option (String × Int)
  | .label name line | .discover _ name line => some (name, line)
  | _ => none

theorem Change.label?_carryOut (m : Machine) (c : Change) (name : String) :
    (c.carryOut m).machine.label? name =
      match c.recorded? with
      | some (recorded, line) => if recorded = name then some line else m.label? name
      | none => m.label? name := by
  cases c with
  | label recorded line | discover mnemonic recorded line =>
    exact m.label?_recordLabel recorded name line
  | skip | register | memory | flags | halt | emit | warn | jump => rfl

/-- The line that a branch leads to. -/
def Change.destination? : Change → Option Int
  | .jump _ line | .discover _ _ line => some line
  | _ => none

/-- The line before a target and the step to the next line make up the target. -/
theorem Change.pc_carryOut (m : Machine) (c : Change) :
    (c.carryOut m).machine.pc = c.destination?.getD (m.pc + 1) := by
  cases c with
  | jump mnemonic line | discover mnemonic name line =>
    simp [carryOut, apply, destination?, Machine.jump, Machine.advance]
  | skip | register | memory | flags | halt | emit | label | warn => rfl

theorem Change.naming_eq_ok_iff {program : Program} {line : Int} {c c' : Change} :
    naming program line c = .ok c' ↔ Numeral.writableLine program.size line = true ∧ c' = c := by
  unfold naming
  split_ifs with hwritable <;> simp [hwritable, eq_comm]

theorem Change.naming_eq_error_iff {program : Program} {line : Int} {c : Change} {fault : Fault} :
    naming program line c = .error fault ↔
      Numeral.writableLine program.size line = false ∧ fault = .unwritable := by
  unfold naming
  split_ifs with hwritable <;> simp [hwritable, eq_comm]

/-- The register with the given number. -/
def registerCell (index : Int) : Except Fault (Fin registerCount) :=
  match cell? registerCount index with
  | some p => .ok p
  | none => .error (.noRegister index)

/-- The cell of memory at the given address. -/
def memoryCell (address : Int) : Except Fault (Fin memorySize) :=
  match cell? memorySize address with
  | some p => .ok p
  | none => .error (.noAddress address)

namespace Instruction

/-- The contents of a register, or an immediate value. -/
def value (i : Instruction) (m : Machine) (index : Nat) : Except Fault Nat := do
  match ← i.kindAmong index [.register, .immediate] with
  | .register =>
    let byte ← m.readRegister (← i.number index)
    return byte.toNat
  | _ => i.number index

/-- A branch to a label, which is discovered unless it has been recorded. -/
def seek (i : Instruction) (m : Machine) (program : Program) (name : String) :
    Except Fault Change :=
  match m.label? name with
  | some line => Change.naming program line (.jump i.mnemonic line)
  | none => do return .discover i.mnemonic name (← LabelSearch.locate program name m.pc)

/-- The branch that an instruction makes when it is taken. -/
def target (i : Instruction) (m : Machine) (program : Program) : Except Fault Change := do
  let operand ← i.operand 0
  match operand.kind with
  | .register | .immediate => return .jump i.mnemonic (← i.value m 0)
  | .label => i.seek m program operand.raw
  | .address =>
    match Numeral.parse operand.raw with
    | .ok line => return .jump i.mnemonic line
    | .error .malformed => i.seek m program operand.raw
    | .error (.tooLong digits) => throw (.numeralTooLong digits)

/-- The value that an instruction puts out. -/
def shown (i : Instruction) (m : Machine) : Except Fault Nat := do
  let operand ← i.operand 0
  match operand.kind with
  | .register => return (← m.readRegister (← i.number 0)).toNat
  | .address => return (← m.readMemory (← i.number 0)).toNat
  | .immediate | .label => i.number 0

/-- The change that an instruction makes on a machine, or the fault that keeps it from it. -/
def change (i : Instruction) (m : Machine) (program : Program) : Except Fault Change :=
  match i.opcode with
  | .arith op => do
    let target ← i.register 0
    let a ← m.readRegister (← i.register 1)
    let b ← i.value m 2
    return .register (← registerCell target) (op.eval a.toNat b)
  | .ldr => do
    let target ← i.register 0
    let byte ← m.readMemory (← i.address 1)
    return .register (← registerCell target) byte.toNat
  | .str => do
    let byte ← m.readRegister (← i.register 0)
    return .memory (← memoryCell (← i.address 1)) byte.toNat
  | .mov => do
    let target ← i.register 0
    let value ← i.value m 1
    return .register (← registerCell target) value
  | .mvn => do
    let target ← i.register 0
    let value ← i.value m 1
    return .register (← registerCell target) (complement value)
  | .cmp => do
    let a ← m.readRegister (← i.register 0)
    let b ← i.value m 1
    return .flags (Execution.comparison a.toNat b)
  | .b => if Execution.taken m.flags i.branch then i.target m program else .ok .skip
  | .halt => .ok .halt
  | .nop => .ok .skip
  | .label => do
    let operand ← i.operand 0
    Change.naming program m.pc (.label operand.raw m.pc)
  | .out => do return .emit (← i.shown m)
  | .unknown name =>
    match i.operands with
    | operand :: _ => Change.naming program m.pc (.label operand.raw m.pc)
    | [] => Change.naming program m.pc (.warn m.pc name)

end Instruction

/-- Everything or nothing: a change that is made whole, or a fault that leaves the machine
alone. -/
def Machine.settle (m : Machine) : Except Fault Change → Attempt
  | .ok c => .ok () (c.apply m)
  | .error fault => .error fault { machine := m }

namespace Action

/-- The rule by which a fault finds nothing done: a part that only reads comes before the rest,
and the rest settles. -/
theorem bind_eq_settle {α : Type} {part : Action α} {rest : α → Action Unit} {m : Machine}
    {read : Except Fault α} {next : α → Except Fault Change}
    (hpart : part { machine := m } = demand read { machine := m })
    (hrest : ∀ a, read = .ok a → rest a { machine := m } = m.settle (next a)) :
    (part >>= rest) { machine := m } = m.settle (read >>= next) := by
  change EStateM.bind part rest { machine := m } = _
  rw [EStateM.bind, hpart]
  cases read with
  | error fault => rfl
  | ok a => exact hrest a rfl

/-- Parts that only read make up a part that only reads. -/
theorem bind_eq_demand {α β : Type} {part : Action α} {rest : α → Action β} {t : Transition}
    {read : Except Fault α} {next : α → Except Fault β}
    (hpart : part t = demand read t) (hrest : ∀ a, rest a t = demand (next a) t) :
    (part >>= rest) t = demand (read >>= next) t := by
  change EStateM.bind part rest t = _
  rw [EStateM.bind, hpart]
  cases read with
  | error fault => rfl
  | ok a => exact hrest a

/-- A record is logged before the rest, if it can be written. -/
theorem log_bind {α : Type} (program : Program) (record : Record) (rest : Unit → Action α)
    (t : Transition) :
    (log program record >>= rest) t =
      if record.isWritable program.size then rest () { t with log := t.log ++ [record] }
      else .error .unwritable t := by
  change EStateM.bind (log program record) rest t = _
  rw [EStateM.bind, log]
  split_ifs <;> rfl

theorem machine_bind {α : Type} (rest : Machine → Action α) (t : Transition) :
    (machine >>= rest) t = rest t.machine t := rfl

theorem readRegister_eq_demand (index : Int) (t : Transition) :
    readRegister index t = demand (t.machine.readRegister index) t := rfl

theorem readMemory_eq_demand (address : Int) (t : Transition) :
    readMemory address t = demand (t.machine.readMemory address) t := rfl

theorem writeRegister_eq_settle (m : Machine) (index value : Int) :
    writeRegister index value { machine := m } =
      m.settle (do return .register (← registerCell index) value) := by
  change EStateM.bind (demand (m.writeRegister index value)) change { machine := m } = _
  simp only [EStateM.bind, Machine.writeRegister, registerCell]
  cases cell? registerCount index <;> rfl

theorem writeMemory_eq_settle (m : Machine) (address value : Int) :
    writeMemory address value { machine := m } =
      m.settle (do return .memory (← memoryCell address) value) := by
  change EStateM.bind (demand (m.writeMemory address value)) change { machine := m } = _
  simp only [EStateM.bind, Machine.writeMemory, memoryCell]
  cases cell? memorySize address <;> rfl

theorem recordLabel_eq_settle (m : Machine) (program : Program) (name : String) (line : Int) :
    recordLabel program name line { machine := m } =
      m.settle (Change.naming program line (.label name line)) := by
  rw [recordLabel, log_bind, Record.isWritable, Change.naming]
  split_ifs <;> rfl

end Action

namespace Instruction

variable {i : Instruction} {index : Nat}

theorem writable_of_number {n : Nat} (h : i.number index = .ok n) : Numeral.writable n = true := by
  obtain ⟨operand, _, h⟩ := bind_eq_ok_iff.1 h
  split at h
  · next hparse =>
    obtain rfl := Except.ok.inj h
    exact Numeral.writable_of_parse hparse
  · simp [throw, throwThe, MonadExceptOf.throw] at h
  · simp [throw, throwThe, MonadExceptOf.throw] at h

/-- A byte or a number that was read can be written. -/
theorem writable_of_value {m : Machine} {v : Nat} (h : i.value m index = .ok v) :
    Numeral.writable v = true := by
  obtain ⟨kind, _, h⟩ := bind_eq_ok_iff.1 h
  cases kind with
  | register =>
    obtain ⟨n, _, h⟩ := bind_eq_ok_iff.1 h
    obtain ⟨byte, _, h⟩ := bind_eq_ok_iff.1 h
    obtain rfl := Except.ok.inj h
    exact Numeral.writable_byte byte
  | immediate | address | label => exact writable_of_number h

end Instruction

namespace Execution

open ByteMachine.Action

theorem value_eq_demand (i : Instruction) (index : Nat) (t : Transition) :
    value i index t = demand (i.value t.machine index) t := by
  refine bind_eq_demand rfl fun kind => ?_
  cases kind with
  | register =>
    refine bind_eq_demand rfl fun n => ?_
    exact bind_eq_demand (readRegister_eq_demand n t) fun byte => rfl
  | immediate | address | label => rfl

section

variable {i : Instruction} (m : Machine) (program : Program)

theorem arithmetic_eq_settle {op : ArithOp} (h : i.opcode = .arith op) :
    arithmetic i op { machine := m } = m.settle (i.change m program) := by
  rw [Instruction.change, h]
  refine bind_eq_settle rfl fun target _ => ?_
  refine bind_eq_settle rfl fun source _ => ?_
  refine bind_eq_settle (readRegister_eq_demand source _) fun a _ => ?_
  refine bind_eq_settle (value_eq_demand i 2 _) fun b _ => ?_
  exact writeRegister_eq_settle m target (op.eval a.toNat b)

theorem load_eq_settle (h : i.opcode = .ldr) :
    load i { machine := m } = m.settle (i.change m program) := by
  rw [Instruction.change, h]
  refine bind_eq_settle rfl fun target _ => ?_
  refine bind_eq_settle rfl fun source _ => ?_
  refine bind_eq_settle (readMemory_eq_demand source _) fun byte _ => ?_
  exact writeRegister_eq_settle m target byte.toNat

theorem store_eq_settle (h : i.opcode = .str) :
    store i { machine := m } = m.settle (i.change m program) := by
  rw [Instruction.change, h]
  refine bind_eq_settle rfl fun source _ => ?_
  refine bind_eq_settle (readRegister_eq_demand source _) fun byte _ => ?_
  refine bind_eq_settle rfl fun target _ => ?_
  exact writeMemory_eq_settle m target byte.toNat

theorem move_eq_settle (h : i.opcode = .mov) :
    move i { machine := m } = m.settle (i.change m program) := by
  rw [Instruction.change, h]
  refine bind_eq_settle rfl fun target _ => ?_
  refine bind_eq_settle (value_eq_demand i 1 _) fun value _ => ?_
  exact writeRegister_eq_settle m target value

theorem moveComplement_eq_settle (h : i.opcode = .mvn) :
    moveComplement i { machine := m } = m.settle (i.change m program) := by
  rw [Instruction.change, h]
  refine bind_eq_settle rfl fun target _ => ?_
  refine bind_eq_settle (value_eq_demand i 1 _) fun value _ => ?_
  exact writeRegister_eq_settle m target (complement value)

theorem compare_eq_settle (h : i.opcode = .cmp) :
    compare i { machine := m } = m.settle (i.change m program) := by
  rw [Instruction.change, h]
  refine bind_eq_settle rfl fun source _ => ?_
  refine bind_eq_settle (readRegister_eq_demand source _) fun a _ => ?_
  exact bind_eq_settle (value_eq_demand i 1 _) fun b _ => rfl

theorem output_eq_settle (h : i.opcode = .out) :
    output i { machine := m } = m.settle (i.change m program) := by
  rw [Instruction.change, h]
  simp only [Instruction.shown, bind_assoc]
  refine bind_eq_settle rfl fun operand _ => ?_
  cases operand.kind with
  | register =>
    simp only [bind_assoc]
    refine bind_eq_settle rfl fun n _ => ?_
    exact bind_eq_settle (readRegister_eq_demand n _) fun byte _ => rfl
  | address =>
    simp only [bind_assoc]
    refine bind_eq_settle rfl fun n _ => ?_
    exact bind_eq_settle (readMemory_eq_demand n _) fun byte _ => rfl
  | immediate | label => exact bind_eq_settle rfl fun n _ => rfl

theorem land_eq_settle (line : Int) :
    land i program line { machine := m } =
      m.settle (Change.naming program line (.jump i.mnemonic line)) := by
  rw [land, log_bind, Record.isWritable, Change.naming]
  split_ifs <;> rfl

theorem land_of_writable {line : Int} (h : Numeral.writable line = true) :
    land i program line { machine := m } = m.settle (.ok (.jump i.mnemonic line)) := by
  rw [land_eq_settle, Change.naming, if_pos (Numeral.writableLine_of_writable _ h)]

/-- A label is recorded only when it has been found, and then nothing can fail any more. -/
theorem findLabel_land_eq_settle (name : String) :
    (findLabel program name >>= land i program) { machine := m } =
      m.settle (i.seek m program name) := by
  rw [findLabel, bind_assoc, machine_bind, Instruction.seek]
  dsimp only
  cases m.label? name with
  | some line => exact land_eq_settle m program line
  | none =>
    simp only [bind_assoc]
    refine bind_eq_settle rfl fun line hline => ?_
    have hwritable := LabelSearch.writableLine_of_locate hline
    rw [recordLabel, bind_assoc, log_bind, Record.isWritable, if_pos hwritable]
    change land i program line _ = _
    rw [land, log_bind, Record.isWritable, if_pos hwritable]
    rfl

theorem branchTarget_land_eq_settle :
    (branchTarget i program >>= land i program) { machine := m } =
      m.settle (i.target m program) := by
  rw [branchTarget, bind_assoc, Instruction.target]
  refine bind_eq_settle rfl fun operand _ => ?_
  cases operand.kind with
  | register | immediate =>
    simp only [bind_assoc]
    refine bind_eq_settle (value_eq_demand i 0 _) fun line hline => ?_
    exact land_of_writable m program (Instruction.writable_of_value hline)
  | label => exact findLabel_land_eq_settle m program operand.raw
  | address =>
    cases hraw : Numeral.parse operand.raw with
    | ok line => exact land_of_writable m program (Numeral.writable_of_parse hraw)
    | error fault =>
      cases fault with
      | malformed => exact findLabel_land_eq_settle m program operand.raw
      | tooLong digits => rfl

theorem branch_eq_settle (h : i.opcode = .b) :
    branch i program { machine := m } = m.settle (i.change m program) := by
  rw [Instruction.change, h]
  rw [branch, machine_bind]
  dsimp only
  split
  · exact branchTarget_land_eq_settle m program
  · rfl

theorem define_eq_settle (h : i.opcode = .label) :
    define i program { machine := m } = m.settle (i.change m program) := by
  rw [Instruction.change, h]
  exact bind_eq_settle rfl fun operand _ => recordLabel_eq_settle m program operand.raw m.pc

theorem unknown_eq_settle {name : String} (h : i.opcode = .unknown name) :
    unknown i program { machine := m } = m.settle (i.change m program) := by
  rw [Instruction.change, h, unknown, h]
  cases i.operands with
  | nil =>
    change log program (.notInstruction m.pc name) { machine := m } =
      m.settle (Change.naming program m.pc (.warn m.pc name))
    rw [log, Record.isWritable, Change.naming]
    split_ifs <;> rfl
  | cons operand rest => exact recordLabel_eq_settle m program operand.raw m.pc

end

end Execution

namespace Machine

/-- Executing an instruction part by part makes its change, or leaves the machine alone. -/
theorem execute_eq (m : Machine) (program : Program) (i : Instruction) :
    m.execute program i = m.settle (i.change m program) := by
  unfold execute Execution.execute
  cases h : i.opcode with
  | arith op => exact Execution.arithmetic_eq_settle m program h
  | ldr => exact Execution.load_eq_settle m program h
  | str => exact Execution.store_eq_settle m program h
  | mov => exact Execution.move_eq_settle m program h
  | mvn => exact Execution.moveComplement_eq_settle m program h
  | cmp => exact Execution.compare_eq_settle m program h
  | b => exact Execution.branch_eq_settle m program h
  | label => exact Execution.define_eq_settle m program h
  | out => exact Execution.output_eq_settle m program h
  | unknown name => exact Execution.unknown_eq_settle m program h
  | halt | nop =>
    rw [Instruction.change, h]
    rfl

/-- The next instruction is there or not, and it makes its change or not; nothing else can
happen. -/
theorem next_eq (m : Machine) (program : Program) :
    m.next program =
      match program.at? m.pc with
      | none => .error (Fault.overrun m.pc program.size).told { machine := m }
      | some i =>
        match i.change m program with
        | .error fault => .error fault { machine := m }
        | .ok c => .ok () (c.carryOut m) := by
  rw [next, Execution.next, Action.machine_bind]
  dsimp only
  cases program.at? m.pc with
  | none => rfl
  | some i =>
    change EStateM.bind (Execution.execute program i) _ { machine := m } = _
    rw [EStateM.bind, ← execute, execute_eq]
    cases hc : i.change m program with
    | error fault =>
      simp only [hc]
      rfl
    | ok c =>
      simp only [hc]
      rfl

/-- What a step needs and what it does. -/
theorem next_eq_ok_iff {m : Machine} {program : Program} {u : Unit} {t : Transition} :
    m.next program = .ok u t ↔
      ∃ i c, program.at? m.pc = some i ∧ i.change m program = .ok c ∧ t = c.carryOut m := by
  rw [next_eq]
  cases hi : program.at? m.pc with
  | none => simp
  | some i =>
    cases hc : i.change m program with
    | error fault => simp [hc]
    | ok c => simp [hc, eq_comm]

theorem steps_of_next {m : Machine} {program : Program} {t : Transition}
    (h : m.next program = .ok () t) : t.machine.steps = m.steps + 1 := by
  obtain ⟨_, c, _, _, rfl⟩ := next_eq_ok_iff.1 h
  simp [Change.carryOut, advance]

/-- How a step fails: it leaves the machine as it was, with nothing put out and nothing logged. -/
theorem next_eq_error_iff {m : Machine} {program : Program} {fault : Fault} {left : Transition} :
    m.next program = .error fault left ↔
      left = { machine := m } ∧
        ((program.at? m.pc = none ∧ fault = (Fault.overrun m.pc program.size).told) ∨
          ∃ i, program.at? m.pc = some i ∧ i.change m program = .error fault) := by
  rw [next_eq]
  cases hi : program.at? m.pc with
  | none => simp [eq_comm, and_comm]
  | some i =>
    cases hc : i.change m program with
    | error cause => simp [hc, eq_comm, and_comm]
    | ok c => simp [hc]

end Machine

end ByteMachine
