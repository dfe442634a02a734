import ByteMachine.Proofs.Journal
import ByteMachine.Proofs.LabelHistory

/-!
# The frame of a step

How far a step can reach is written in its instruction. The operation says which
part of the machine may change, and the operands say which register, which cell
or which label it is; all the rest is as it was before. Branches are the only
instructions that can touch two parts, the line and a label that they discover.
-/
namespace ByteMachine

namespace Instruction

/-- The instruction may write to the cell: most operations write to the register that the first
operand names, and a store to the cell of memory that the second one names. -/
def Writes (i : Instruction) : Cell → Prop
  | .register p => i.opcode.writesRegister = true ∧ i.register 0 = .ok p.val
  | .memory p => i.opcode = .str ∧ i.address 1 = .ok p.val

/-- The instruction stands for a label at its own line: it defines it, or it is no operation of the
machine and has the name in front. -/
def Marks (i : Instruction) (name : String) : Prop :=
  (i.opcode = .label ∨ ∃ text, i.opcode = .unknown text) ∧ i.headName? = some name

/-- The instruction is a branch that is taken. -/
def Jumps (i : Instruction) (m : Machine) : Prop :=
  i.opcode = .b ∧ Execution.taken m.flags i.branch = true

/-- The step of the instruction has changed what it may change and nothing else. -/
structure Framed (i : Instruction) (m : Machine) (t : Transition) : Prop where
  steps : t.machine.steps = m.steps + 1
  emitted : t.emitted.length = if i.opcode = .out then 1 else 0
  storage : ∀ cell, t.machine.byte cell ≠ m.byte cell → i.Writes cell
  flags : t.machine.flags ≠ m.flags → i.opcode = .cmp
  halted : t.machine.halted = (m.halted || decide (i.opcode = .halt))
  labels : ∀ name, t.machine.label? name ≠ m.label? name →
    (i.Marks name ∧ t.machine.label? name = some m.pc) ∨
      (i.Seeks m name ∧ m.label? name = none ∧ t.machine.label? name = some t.machine.pc)
  line : ¬ i.Jumps m → t.machine.pc = m.pc + 1

variable {i : Instruction} {m : Machine} {program : Program} {c : Change}

theorem change_of_out (hout : i.opcode = .out) (hc : i.change m program = .ok c) :
    ∃ value, c = .emit value := by
  rw [change, hout] at hc
  obtain ⟨value, _, hemit⟩ := bind_eq_ok_iff.1 hc
  exact ⟨value, (Except.ok.inj hemit).symm⟩

theorem length_emitted (hc : i.change m program = .ok c) :
    (c.carryOut m).emitted.length = if i.opcode = .out then 1 else 0 := by
  by_cases hout : i.opcode = .out
  · obtain ⟨value, rfl⟩ := change_of_out hout hc
    rw [if_pos hout]
    rfl
  · rw [if_neg hout]
    have horigin := origin_of_change hc
    cases c with
    | emit value => exact absurd horigin.1 hout
    | skip | register | memory | flags | halt | label | warn | jump | discover => rfl

/-- A byte that is not what it was has been written. -/
theorem writes_of_byte_ne (hc : i.change m program = .ok c) {cell : Cell}
    (h : (c.carryOut m).machine.byte cell ≠ m.byte cell) : i.Writes cell := by
  have horigin := origin_of_change hc
  -- Of two different cells, one keeps its byte when the other is written.
  have hput (target : Cell) (value : Int) (hne : (m.put value target).byte cell ≠ m.byte cell) :
      target = cell := by
    by_contra hother
    exact hne ((m.byte_put value target cell).trans (if_neg hother))
  cases c with
  | register target value =>
    obtain rfl := hput (.register target) value h
    exact horigin
  | memory target value =>
    obtain rfl := hput (.memory target) value h
    exact ⟨horigin.1, horigin.2.1⟩
  | skip | flags | halt | emit | label | warn | jump | discover =>
    cases cell with
    | register p => exact absurd rfl h
    | memory p => exact absurd rfl h

theorem opcode_of_flags_ne (hc : i.change m program = .ok c)
    (h : (c.carryOut m).machine.flags ≠ m.flags) : i.opcode = .cmp := by
  have horigin := origin_of_change hc
  cases c with
  | flags raised => exact horigin.1
  | skip | register | memory | halt | emit | label | warn | jump | discover => exact absurd rfl h

/-- A label that is not where it was has been defined, or discovered on the way to it. -/
theorem marks_or_seeks (hc : i.change m program = .ok c) {name : String}
    (h : (c.carryOut m).machine.label? name ≠ m.label? name) :
    (i.Marks name ∧ (c.carryOut m).machine.label? name = some m.pc) ∨
      (i.Seeks m name ∧ m.label? name = none ∧
        (c.carryOut m).machine.label? name = some (c.carryOut m).machine.pc) := by
  have horigin := origin_of_change hc
  rw [Change.label?_carryOut] at h ⊢
  rw [Change.pc_carryOut]
  cases c with
  | label recorded line =>
    obtain ⟨hopcode, hname, rfl⟩ := horigin
    simp only [Change.recorded?] at h ⊢
    split_ifs at h ⊢ with hsame
    · subst hsame
      exact .inl ⟨⟨hopcode, hname⟩, rfl⟩
    · exact absurd rfl h
  | discover mnemonic recorded line =>
    obtain ⟨_, _, _, _, hnew, _⟩ := horigin
    simp only [Change.recorded?] at h ⊢
    split_ifs at h ⊢ with hsame
    · subst hsame
      exact .inr ⟨seeks_of_discover hc, hnew, rfl⟩
    · exact absurd rfl h
  | skip | register | memory | flags | halt | emit | warn | jump => exact absurd rfl h

theorem pc_of_not_jumps (hc : i.change m program = .ok c) (h : ¬ i.Jumps m) :
    (c.carryOut m).machine.pc = m.pc + 1 := by
  have horigin := origin_of_change hc
  rw [Change.pc_carryOut]
  cases c with
  | jump mnemonic line => exact absurd ⟨horigin.1, horigin.2.1⟩ h
  | discover mnemonic name line => exact absurd ⟨horigin.1, horigin.2.1⟩ h
  | skip | register | memory | flags | halt | emit | label | warn => rfl

end Instruction

/-- A step stays in its frame. It is counted once; it puts out one value if the instruction is there
for it, and none otherwise; and of the registers, the memory, the flags, the halt, the labels and
the line it changes only what the operation changes, where the operands say. -/
theorem step_stays_in_frame {program : Program} {m : Machine} {t : Transition}
    (h : m.next program = .ok () t) : ∃ i, program.at? m.pc = some i ∧ i.Framed m t := by
  obtain ⟨i, c, hi, hc, rfl⟩ := Machine.next_eq_ok_iff.1 h
  exact ⟨i, hi, Machine.steps_of_next h, Instruction.length_emitted hc,
    fun _ => Instruction.writes_of_byte_ne hc, Instruction.opcode_of_flags_ne hc,
    Machine.halted_of_next hi h, fun _ => Instruction.marks_or_seeks hc,
    Instruction.pc_of_not_jumps hc⟩

/-- A branch to a label that is defined behind it. -/
def forward : Program := #[⟨.b, some .always, [⟨.address, "x"⟩]⟩, .defineLabel "x"]

theorem step_stays_in_frame_forward :
    ∃ t, Machine.new.next forward = .ok () t ∧ t.machine.pc = 1 ∧
      t.machine.label? "x" = some 1 ∧
      (∀ name, name ≠ "x" → t.machine.label? name = Machine.new.label? name) ∧
      ∀ cell, t.machine.byte cell = Machine.new.byte cell := by
  have hnext : ∃ t, Machine.new.next forward = .ok () t ∧ t.machine.pc = 1 ∧
      t.machine.label? "x" = some 1 := ⟨_, rfl, rfl, by decide⟩
  obtain ⟨t, hnext, hpc, hlabel⟩ := hnext
  obtain ⟨i, hi, hframe⟩ := step_stays_in_frame hnext
  obtain rfl : ⟨.b, some .always, [⟨.address, "x"⟩]⟩ = i := Option.some.inj hi
  refine ⟨t, hnext, hpc, hlabel, fun name hname => ?_, fun cell => ?_⟩
  · by_contra hchanged
    rcases hframe.labels name hchanged with ⟨⟨hopcode, _⟩, _⟩ | ⟨⟨_, _, o, ho, _, hraw⟩, _⟩
    · simp at hopcode
    · obtain rfl := Except.ok.inj ho
      exact hname hraw.symm
  · by_contra hchanged
    cases cell with
    | register p => exact absurd (hframe.storage _ hchanged).1 (by decide)
    | memory p => exact absurd (hframe.storage _ hchanged).1 (by decide)

end ByteMachine
