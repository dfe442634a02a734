import ByteMachine.Monitor
import ByteMachine.Proofs.Storage

/-!
# What the storage holds

Bytes are written by hand, by single instructions and in the course of runs. The
journal of a session has all the values that were written, in their order and
before they are wrapped, and also the resets. However a session goes on, with
whatever programs and with commands that fail, each register and each cell of
memory holds the value that the journal has for it last, wrapped to a byte, or
zero if it has none since the last reset.
-/
namespace ByteMachine

/-- A place for a byte. -/
inductive Cell where
  | register (p : Fin registerCount)
  | memory (p : Fin memorySize)
  deriving DecidableEq

/-- Something that was done to the storage. -/
inductive Entry where
  | reset
  | wrote (cell : Cell) (value : Int)
  deriving DecidableEq

/-- The value that was written to the cell, if the entry is about it. -/
def Entry.valueAt? (cell : Cell) : Entry → Option Int
  | .reset => none
  | .wrote target value => if target = cell then some value else none

/-- The last value that was written to the cell since the last reset. -/
def lastWritten? (journal : List Entry) (cell : Cell) : Option Int :=
  (journal.reverse.takeWhile (· ≠ .reset)).findSome? (Entry.valueAt? cell)

section

variable (journal : List Entry) (cell : Cell)

@[simp] theorem lastWritten?_append_reset :
    lastWritten? (journal ++ [.reset]) cell = none := by
  simp [lastWritten?]

@[simp] theorem lastWritten?_append_wrote (target : Cell) (value : Int) :
    lastWritten? (journal ++ [.wrote target value]) cell =
      if target = cell then some value else lastWritten? journal cell := by
  by_cases h : target = cell <;> simp [lastWritten?, Entry.valueAt?, h]

end

/-- What a change writes. -/
def Change.entries : Change → List Entry
  | .register target value => [.wrote (.register target) value]
  | .memory target value => [.wrote (.memory target) value]
  | _ => []

/-- What an instruction writes; nothing if it fails. -/
def Instruction.entries (i : Instruction) (m : Machine) (program : Program) : List Entry :=
  match i.change m program with
  | .ok c => c.entries
  | .error _ => []

namespace Machine

/-- The byte in a cell. -/
def byte (m : Machine) : Cell → UInt8
  | .register p => m.registers.get p
  | .memory p => m.memory.get p

/-- What the machine writes in its next steps, as far as they succeed. -/
def entries (program : Program) : Nat → Machine → List Entry
  | 0, _ => []
  | count + 1, m =>
    match m.next program with
    | .ok _ t =>
      ((program.at? m.pc).elim [] fun i => i.entries m program) ++ entries program count t.machine
    | .error _ _ => []

/-- The storage holds what the journal says. -/
def Keeps (m : Machine) (journal : List Entry) : Prop :=
  ∀ cell, m.byte cell = wrap ((lastWritten? journal cell).getD 0)

/-- The machine after a value has been written to a cell. -/
def put (m : Machine) (value : Int) : Cell → Machine
  | .register p => { m with registers := m.registers.set p (wrap value) p.isLt }
  | .memory p => { m with memory := m.memory.set p (wrap value) p.isLt }

theorem byte_put (m : Machine) (value : Int) (target cell : Cell) :
    (m.put value target).byte cell = if target = cell then wrap value else m.byte cell := by
  cases target with
  | register p =>
    cases cell with
    | register q => simp [put, byte, get_set]
    | memory q => simp [put, byte]
  | memory p =>
    cases cell with
    | register q => simp [put, byte]
    | memory q => simp [put, byte, get_set]

theorem keeps_new : Machine.new.Keeps [] := by
  intro cell
  cases cell with
  | register p => exact Vector.getElem_replicate p.isLt
  | memory p => exact Vector.getElem_replicate p.isLt

end Machine

namespace Machine.Keeps

variable {m m' : Machine} {journal : List Entry}

/-- A machine with the same storage keeps the journal as it is. -/
theorem unwritten (h : m.Keeps journal) (hregisters : m'.registers = m.registers)
    (hmemory : m'.memory = m.memory) : m'.Keeps (journal ++ []) := by
  intro cell
  rw [List.append_nil, ← h cell]
  cases cell with
  | register p => rw [byte, byte, hregisters]
  | memory p => rw [byte, byte, hmemory]

theorem put (h : m.Keeps journal) (cell : Cell) (value : Int) :
    (m.put value cell).Keeps (journal ++ [.wrote cell value]) := by
  intro other
  rw [byte_put, lastWritten?_append_wrote, h other]
  split_ifs with hsame
  · rfl
  · rfl

theorem apply (h : m.Keeps journal) (c : Change) :
    (c.apply m).machine.Keeps (journal ++ c.entries) := by
  cases c with
  | register target value => exact h.put (.register target) value
  | memory target value => exact h.put (.memory target) value
  | skip | flags | halt | emit | label | warn | jump | discover => exact h.unwritten rfl rfl

/-- The steps of a trace write what was foretold of them. -/
theorem of_trace {program : Program} {events : List Event} {last : Machine}
    (htrace : Trace program m events last) (h : m.Keeps journal) :
    last.Keeps (journal ++ entries program events.length m) := by
  induction htrace generalizing journal with
  | nil => exact h.unwritten rfl rfl
  | @cons m last i t events found executed _ ih =>
    obtain ⟨j, c, hj, hc, rfl⟩ := next_eq_ok_iff.1 executed
    obtain rfl := Option.some.inj (found.symm.trans hj)
    have hstep : (c.carryOut m).machine.Keeps (journal ++ i.entries m program) := by
      rw [Instruction.entries, hc]
      exact h.apply c
    simp only [List.length_cons, entries, executed, found, Option.elim_some,
      ← List.append_assoc]
    exact ih hstep

/-- A run writes what its steps write, and it has taken as many of them as it counts. -/
theorem run (h : m.Keeps journal) (program : Program) (limit : Option Int) :
    (m.run program { limit }).machine.Keeps
      (journal ++ entries program ((m.run program { limit }).machine.steps - m.steps).toNat m) := by
  obtain ⟨events, htrace⟩ := Run.exists_trace program limit m
  have hcount : ((m.run program { limit }).machine.steps - m.steps).toNat = events.length := by
    rw [htrace.steps_eq]
    omega
  rw [hcount]
  exact h.of_trace htrace

end Machine.Keeps

namespace Monitor

/-- What a command writes. -/
def entries (monitor : Monitor) : Command → List Entry
  | .writeRegister index value =>
    (cell? registerCount index).toList.map fun p => .wrote (.register p) value
  | .writeMemory address value =>
    (cell? memorySize address).toList.map fun p => .wrote (.memory p) value
  | .reset => [.reset]
  | .executeLine line =>
    match SourceLine.parse line with
    | .ok i => i.entries monitor.machine (monitor.program.getD #[i])
    | .error _ => []
  | .execute i => i.entries monitor.machine (monitor.program.getD #[i])
  | .next => monitor.machine.entries monitor.loaded 1
  | .run limit =>
    let run := monitor.machine.run monitor.loaded { limit }
    monitor.machine.entries monitor.loaded (run.machine.steps - monitor.machine.steps).toNat
  | .readRegister _ | .readMemory _ | .setFlags _ | .hasFlag _ | .recordLabel .. | .findLabel _
  | .jump _ | .setHalted _ | .setSteps _ | .dump | .load _ => []

variable {monitor : Monitor} {journal : List Entry}

theorem keeps_executeOne (h : monitor.machine.Keeps journal) (i : Instruction) :
    (monitor.executeOne i).monitor.machine.Keeps
      (journal ++ i.entries monitor.machine (monitor.program.getD #[i])) := by
  rw [executeOne, Machine.execute_eq, Instruction.entries]
  cases i.change monitor.machine (monitor.program.getD #[i]) with
  | ok c => exact h.apply c
  | error fault => exact h.unwritten rfl rfl

theorem keeps_next (h : monitor.machine.Keeps journal) :
    (monitor.perform .next).monitor.machine.Keeps (journal ++ monitor.entries .next) := by
  rw [perform, entries]
  cases hnext : monitor.machine.next monitor.loaded with
  | ok _ t =>
    obtain ⟨i, htrace⟩ := Trace.of_next hnext (.nil t.machine)
    have hkeeps := h.of_trace htrace
    rw [List.length_singleton] at hkeeps
    exact hkeeps
  | error fault left =>
    obtain ⟨rfl, _⟩ := Machine.next_eq_error_iff.1 hnext
    simp only [Machine.entries, hnext]
    exact h.unwritten rfl rfl

/-- Every command, also one that fails, writes what the journal says that it writes. -/
theorem keeps_perform (h : monitor.machine.Keeps journal) (command : Command) :
    (monitor.perform command).monitor.machine.Keeps (journal ++ monitor.entries command) := by
  cases command with
  | writeRegister index value =>
    rw [perform, entries, Machine.writeRegister]
    cases cell? registerCount index with
    | some p => exact h.put (.register p) value
    | none => exact h.unwritten rfl rfl
  | writeMemory address value =>
    rw [perform, entries, Machine.writeMemory]
    cases cell? memorySize address with
    | some p => exact h.put (.memory p) value
    | none => exact h.unwritten rfl rfl
  | reset =>
    intro cell
    rw [entries, lastWritten?_append_reset]
    exact Machine.keeps_new cell
  | executeLine line =>
    rw [perform, entries]
    cases SourceLine.parse line with
    | ok i => exact keeps_executeOne h i
    | error cause => exact h.unwritten rfl rfl
  | execute i => exact keeps_executeOne h i
  | next => exact keeps_next h
  | run limit => exact h.run monitor.loaded limit
  | load lines =>
    rw [perform]
    cases (Listing.ofLines lines).program with
    | ok program => exact h.unwritten rfl rfl
    | error rejection => exact h.unwritten rfl rfl
  | recordLabel name line =>
    rw [perform, Action.recordLabel_eq_settle, Change.naming]
    split_ifs
    · exact h.unwritten rfl rfl
    · exact h.unwritten rfl rfl
  | dump =>
    rw [perform, Action.dump, Action.machine_bind, Action.log]
    split_ifs
    · exact h.unwritten rfl rfl
    · exact h.unwritten rfl rfl
  | readRegister | readMemory | setFlags | hasFlag | findLabel | jump | setHalted | setSteps =>
    exact h.unwritten rfl rfl

end Monitor

/-- A command, with the program that it is to be performed on. -/
structure Call where
  program : Option Program
  command : Monitor.Command

namespace Machine

/-- The machine after a sequence of calls, which goes on after those that fail. -/
def after (m : Machine) : List Call → Machine
  | [] => m
  | call :: rest => (Monitor.perform ⟨m, call.program⟩ call.command).monitor.machine.after rest

/-- What a sequence of calls writes. -/
def journal (m : Machine) : List Call → List Entry
  | [] => []
  | call :: rest =>
    Monitor.entries ⟨m, call.program⟩ call.command ++
      (Monitor.perform ⟨m, call.program⟩ call.command).monitor.machine.journal rest

theorem Keeps.after {m : Machine} {passed : List Entry} (h : m.Keeps passed) (calls : List Call) :
    (m.after calls).Keeps (passed ++ m.journal calls) := by
  induction calls generalizing m passed with
  | nil => exact h.unwritten rfl rfl
  | cons call rest ih =>
    rw [Machine.after, Machine.journal, ← List.append_assoc]
    exact ih (Monitor.keeps_perform h call.command)

end Machine

theorem wrap_eq_iff {value : Int} {byte : UInt8} :
    wrap value = byte ↔ (byte.toNat : Int) = value % 256 := by
  rw [← toNat_wrap, Int.ofNat_inj, UInt8.toNat_inj, eq_comm]

theorem Monitor.Outcome.ofByte_eq_byte_iff {result : Except Fault UInt8} {value : UInt8} :
    ofByte result = .byte value ↔ result = .ok value := by
  cases result with
  | ok byte => simp [ofByte]
  | error fault => simp [ofByte]

/-- After any sequence of calls the machine has thirteen registers and 255 cells of memory, all of
them with bytes. A register can be read exactly if it is one of them, and what is read is the last
value that was written to it since the last reset, modulo 256, or zero if there is none; and so it
is with memory. -/
theorem reads_give_last_write (calls : List Call) (program : Option Program) :
    let m := Machine.new.after calls
    let journal := Machine.new.journal calls
    m.registers.toList.length = 13 ∧ m.memory.toList.length = 255 ∧
      (∀ byte ∈ m.registers.toList ++ m.memory.toList, byte.toNat ≤ 255) ∧
      (∀ (index : Int) (value : UInt8),
        (Monitor.perform ⟨m, program⟩ (.readRegister index)).outcome = .byte value ↔
          ∃ p : Fin registerCount, index = p.val ∧
            (value.toNat : Int) = (lastWritten? journal (.register p)).getD 0 % 256) ∧
      ∀ (address : Int) (value : UInt8),
        (Monitor.perform ⟨m, program⟩ (.readMemory address)).outcome = .byte value ↔
          ∃ p : Fin memorySize, address = p.val ∧
            (value.toNat : Int) = (lastWritten? journal (.memory p)).getD 0 % 256 := by
  have hkeeps : (Machine.new.after calls).Keeps (Machine.new.journal calls) :=
    Machine.keeps_new.after calls
  have hregister (p : Fin registerCount) := hkeeps (.register p)
  have hcell (p : Fin memorySize) := hkeeps (.memory p)
  simp only [Machine.byte] at hregister hcell
  refine ⟨Vector.length_toList, Vector.length_toList, fun byte _ => Nat.le_of_lt_succ byte.toNat_lt,
    fun index value => ?_, fun address value => ?_⟩
  · rw [Monitor.perform, Monitor.Outcome.ofByte_eq_byte_iff, Machine.readRegister_eq_ok_iff]
    simp only [hregister, wrap_eq_iff]
  · rw [Monitor.perform, Monitor.Outcome.ofByte_eq_byte_iff, Machine.readMemory_eq_ok_iff]
    simp only [hcell, wrap_eq_iff]

/-- Writes that miss the registers are not in the journal, and what goes into it is not wrapped. -/
example :
    let move : Instruction := ⟨.mov, none, [⟨.register, "12"⟩, ⟨.immediate, "300"⟩]⟩
    let halt : Instruction := ⟨.halt, none, []⟩
    let calls : List Call :=
      [⟨none, .writeRegister 12 7⟩, ⟨none, .reset⟩, ⟨some #[move, halt], .run none⟩,
        ⟨none, .writeRegister (-1) 9⟩, ⟨none, .writeRegister 3 (-2)⟩]
    Machine.new.journal calls =
        [.wrote (.register ⟨12, by decide⟩) 7, .reset, .wrote (.register ⟨12, by decide⟩) 300,
          .wrote (.register ⟨3, by decide⟩) (-2)] ∧
      (Machine.new.after calls).readRegister 12 = .ok 44 := by
  exact ⟨rfl, rfl⟩

end ByteMachine
