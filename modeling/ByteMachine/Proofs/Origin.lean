import ByteMachine.Proofs.Change
import ByteMachine.Proofs.Listing

/-!
# Where a change comes from

Of a change that an instruction makes, `Change.Origin` tells the operation and
what it has read: which register or cell was named, what was compared, which
label was met or searched. Invariants of steps are case analyses over changes,
and this is what each case knows.
-/
namespace ByteMachine

@[simp] theorem pure_eq_ok {α : Type} (a : α) : (pure a : Except Fault α) = .ok a := rfl

@[simp] theorem throw_eq_error {α : Type} (fault : Fault) :
    (throw fault : Except Fault α) = .error fault := rfl

/-- The name in front of the operands, which a label is defined by. -/
def Instruction.headName? (i : Instruction) : Option String := i.operands.head?.map Operand.raw

/-- A branch takes the operand for the name of a label. -/
def Operand.IsName (o : Operand) : Prop :=
  o.kind = .label ∨ (o.kind = .address ∧ Numeral.parse o.raw = .error .malformed)

/-- The operations that write a register. -/
def Opcode.writesRegister : Opcode → Bool
  | .arith _ | .ldr | .mov | .mvn => true
  | _ => false

/-- What is known of an instruction that makes a change. -/
def Change.Origin (program : Program) (i : Instruction) (m : Machine) : Change → Prop
  | .skip => i.opcode = .nop ∨ (i.opcode = .b ∧ Execution.taken m.flags i.branch = false)
  | .register target _ => i.opcode.writesRegister = true ∧ i.register 0 = .ok target.val
  | .memory address value =>
    i.opcode = .str ∧ i.address 1 = .ok address.val ∧
      ∃ n byte, i.register 0 = .ok n ∧ m.readRegister n = .ok byte ∧ value = byte.toNat
  | .flags raised =>
    i.opcode = .cmp ∧ ∃ n a b, i.register 0 = .ok n ∧ m.readRegister n = .ok a ∧
      i.value m 1 = .ok b ∧ raised = Execution.comparison a.toNat b
  | .halt => i.opcode = .halt
  | .emit value => i.opcode = .out ∧ i.shown m = .ok value
  | .label name line =>
    (i.opcode = .label ∨ ∃ text, i.opcode = .unknown text) ∧ i.headName? = some name ∧ line = m.pc
  | .warn line text => i.opcode = .unknown text ∧ i.operands = [] ∧ line = m.pc
  | .jump mnemonic line =>
    i.opcode = .b ∧ Execution.taken m.flags i.branch = true ∧ mnemonic = i.mnemonic ∧
      i.target m program = .ok (.jump mnemonic line)
  | .discover mnemonic name line =>
    i.opcode = .b ∧ Execution.taken m.flags i.branch = true ∧ mnemonic = i.mnemonic ∧
      i.headName? = some name ∧ m.label? name = none ∧
        LabelSearch.locate program name m.pc = .ok line

theorem registerCell_eq_ok_iff {index : Int} {p : Fin registerCount} :
    registerCell index = .ok p ↔ index = p.val := by
  rw [registerCell, ← cell?_eq_some_iff]
  cases cell? registerCount index <;> simp

theorem memoryCell_eq_ok_iff {address : Int} {p : Fin memorySize} :
    memoryCell address = .ok p ↔ address = p.val := by
  rw [memoryCell, ← cell?_eq_some_iff]
  cases cell? memorySize address <;> simp

/-- What a cell holds after one of the cells was set. -/
theorem get_set {size : Nat} (cells : Vector UInt8 size) (p q : Fin size) (byte : UInt8) :
    (cells.set p byte p.isLt).get q = if p = q then byte else cells.get q := by
  simp only [Fin.ext_iff]
  exact Vector.getElem_set p.isLt q.isLt

theorem Machine.readRegister_eq_ok_iff {m : Machine} {index : Int} {value : UInt8} :
    m.readRegister index = .ok value ↔
      ∃ p : Fin registerCount, index = p.val ∧ m.registers.get p = value := by
  simp only [← cell?_eq_some_iff, readRegister]
  cases cell? registerCount index with
  | none => simp
  | some p => simp [Vector.get, Vector.getElem_toArray]

theorem Machine.readMemory_eq_ok_iff {m : Machine} {address : Int} {value : UInt8} :
    m.readMemory address = .ok value ↔
      ∃ p : Fin memorySize, address = p.val ∧ m.memory.get p = value := by
  simp only [← cell?_eq_some_iff, readMemory]
  cases cell? memorySize address with
  | none => simp
  | some p => simp [Vector.get, Vector.getElem_toArray]

namespace Instruction

variable {i : Instruction} {m : Machine} {program : Program}

theorem operand_eq_ok_iff {index : Nat} {operand : Operand} :
    i.operand index = .ok operand ↔ i.operands[index]? = some operand := by
  rw [operand_natCast]
  cases i.operands[index]? <;> simp

theorem operand_zero_eq_ok_iff {operand : Operand} :
    i.operand 0 = .ok operand ↔ i.operands.head? = some operand := by
  rw [List.head?_eq_getElem?]
  exact @operand_eq_ok_iff i 0 operand

theorem number_eq_ok_iff {index n : Nat} :
    i.number index = .ok n ↔ ∃ o, i.operands[index]? = some o ∧ Numeral.parse o.raw = .ok n := by
  simp only [number, bind_eq_ok_iff, operand_eq_ok_iff]
  refine exists_congr fun o => and_congr_right fun _ => ?_
  cases Numeral.parse o.raw with
  | ok value => simp
  | error fault => cases fault <;> simp

/-- A branch to a label jumps to the recorded line or discovers one. -/
theorem seek_eq_ok_iff {name : String} {c : Change} :
    i.seek m program name = .ok c ↔
      (∃ line, m.label? name = some line ∧ Numeral.writableLine program.size line = true ∧
          c = .jump i.mnemonic line) ∨
        (m.label? name = none ∧ ∃ line, LabelSearch.locate program name m.pc = .ok line ∧
          c = .discover i.mnemonic name line) := by
  unfold seek
  cases hname : m.label? name with
  | some line => simp [Change.naming_eq_ok_iff]
  | none =>
    simp only [bind_eq_ok_iff, pure_eq_ok, Except.ok.injEq, reduceCtorEq, false_and, exists_false,
      false_or, true_and]
    simp only [eq_comm]

/-- A branch to the line in a register, or to a line number behind the mark of a value. -/
theorem target_of_value {operand : Operand} (hoperand : i.operand 0 = .ok operand)
    (hkind : operand.kind = .register ∨ operand.kind = .immediate) :
    i.target m program = do return .jump i.mnemonic (← i.value m 0) := by
  unfold target
  rw [hoperand]
  rcases hkind with hkind | hkind <;> simp only [bind, Except.bind, hkind]

theorem target_of_numeral {operand : Operand} {n : Nat} (hoperand : i.operand 0 = .ok operand)
    (hkind : operand.kind = .address) (hn : Numeral.parse operand.raw = .ok n) :
    i.target m program = .ok (.jump i.mnemonic n) := by
  unfold target
  rw [hoperand]
  simp only [bind, Except.bind, hkind, hn, pure_eq_ok]

/-- A branch to a label. -/
theorem target_of_name {operand : Operand} (hoperand : i.operand 0 = .ok operand)
    (hname : operand.IsName) :
    i.target m program = i.seek m program operand.raw := by
  unfold target
  rw [hoperand]
  rcases hname with hkind | ⟨hkind, hmalformed⟩
  · simp only [bind, Except.bind, hkind]
  · simp only [bind, Except.bind, hkind, hmalformed]

/-- A branch leads to a number, or to the label that its operand names. -/
theorem target_cases {c : Change} (h : i.target m program = .ok c) :
    ∃ operand, i.operand 0 = .ok operand ∧
      ((∃ n : Nat, Numeral.writable n = true ∧ c = .jump i.mnemonic n) ∨
        (operand.IsName ∧ i.seek m program operand.raw = .ok c)) := by
  rw [target, bind_eq_ok_iff] at h
  obtain ⟨operand, hoperand, h⟩ := h
  refine ⟨operand, hoperand, ?_⟩
  cases hkind : operand.kind with
  | register | immediate =>
    simp only [hkind, bind_eq_ok_iff] at h
    obtain ⟨n, hn, hc⟩ := h
    exact .inl ⟨n, writable_of_value hn, (Except.ok.inj hc).symm⟩
  | label =>
    simp only [hkind] at h
    exact .inr ⟨.inl hkind, h⟩
  | address =>
    simp only [hkind] at h
    split at h
    · next hraw => exact .inl ⟨_, Numeral.writable_of_parse hraw, (Except.ok.inj h).symm⟩
    · next hraw => exact .inr ⟨.inr ⟨hkind, hraw⟩, h⟩
    · simp at h

theorem change_of_taken (hopcode : i.opcode = .b)
    (htaken : Execution.taken m.flags i.branch = true) :
    i.change m program = i.target m program := by
  rw [change, hopcode]
  simp only [htaken, if_true]

/-- What a branch does when it is taken. -/
theorem origin_of_target {c : Change} (h : i.target m program = .ok c) (hb : i.opcode = .b)
    (htaken : Execution.taken m.flags i.branch = true) : c.Origin program i m := by
  obtain ⟨operand, hoperand, ⟨n, _, rfl⟩ | ⟨_, hseek⟩⟩ := target_cases h
  · exact ⟨hb, htaken, rfl, h⟩
  · rcases seek_eq_ok_iff.1 hseek with ⟨line, _, _, rfl⟩ | ⟨hnew, line, hlocate, rfl⟩
    · exact ⟨hb, htaken, rfl, h⟩
    · refine ⟨hb, htaken, rfl, ?_, hnew, hlocate⟩
      rw [headName?, operand_zero_eq_ok_iff.1 hoperand]
      rfl

theorem origin_register {n : Nat} {p : Fin registerCount} (value : Int)
    (hopcode : i.opcode.writesRegister = true) (hn : i.register 0 = .ok n)
    (hp : registerCell n = .ok p) : (Change.register p value).Origin program i m := by
  have hnp := registerCell_eq_ok_iff.1 hp
  exact ⟨hopcode, hn.trans (congrArg Except.ok (by omega))⟩

/-- Every change has its origin in the instruction that makes it. -/
theorem origin_of_change {c : Change} (h : i.change m program = .ok c) : c.Origin program i m := by
  unfold change at h
  cases hopcode : i.opcode with
  | arith op =>
    simp only [hopcode, bind_eq_ok_iff] at h
    obtain ⟨n, hn, _, _, _, _, _, _, p, hp, hc⟩ := h
    obtain rfl := Except.ok.inj hc
    exact origin_register _ (by rw [hopcode]; rfl) hn hp
  | ldr =>
    simp only [hopcode, bind_eq_ok_iff] at h
    obtain ⟨n, hn, _, _, _, _, p, hp, hc⟩ := h
    obtain rfl := Except.ok.inj hc
    exact origin_register _ (by rw [hopcode]; rfl) hn hp
  | mov | mvn =>
    simp only [hopcode, bind_eq_ok_iff] at h
    obtain ⟨n, hn, _, _, p, hp, hc⟩ := h
    obtain rfl := Except.ok.inj hc
    exact origin_register _ (by rw [hopcode]; rfl) hn hp
  | str =>
    simp only [hopcode, bind_eq_ok_iff] at h
    obtain ⟨n, hn, byte, hbyte, address, haddress, p, hp, hc⟩ := h
    obtain rfl := Except.ok.inj hc
    have haddressp := memoryCell_eq_ok_iff.1 hp
    exact ⟨hopcode, haddress.trans (congrArg Except.ok (by omega)), n, byte, hn, hbyte, rfl⟩
  | cmp =>
    simp only [hopcode, bind_eq_ok_iff] at h
    obtain ⟨n, hn, a, ha, b, hb, hc⟩ := h
    obtain rfl := Except.ok.inj hc
    exact ⟨hopcode, n, a, b, hn, ha, hb, rfl⟩
  | b =>
    simp only [hopcode] at h
    split at h
    · exact origin_of_target h hopcode ‹_›
    · obtain rfl := Except.ok.inj h
      exact .inr ⟨hopcode, Bool.eq_false_iff.2 ‹_›⟩
  | halt =>
    simp only [hopcode] at h
    obtain rfl := Except.ok.inj h
    exact hopcode
  | nop =>
    simp only [hopcode] at h
    obtain rfl := Except.ok.inj h
    exact .inl hopcode
  | label =>
    simp only [hopcode, bind_eq_ok_iff] at h
    obtain ⟨operand, hoperand, hc⟩ := h
    obtain ⟨_, rfl⟩ := Change.naming_eq_ok_iff.1 hc
    refine ⟨.inl hopcode, ?_, rfl⟩
    rw [headName?, operand_zero_eq_ok_iff.1 hoperand]
    rfl
  | out =>
    simp only [hopcode, bind_eq_ok_iff] at h
    obtain ⟨value, hvalue, hc⟩ := h
    obtain rfl := Except.ok.inj hc
    exact ⟨hopcode, hvalue⟩
  | unknown text =>
    simp only [hopcode] at h
    cases hoperands : i.operands with
    | nil =>
      simp only [hoperands] at h
      obtain ⟨_, rfl⟩ := Change.naming_eq_ok_iff.1 h
      exact ⟨hopcode, hoperands, rfl⟩
    | cons operand rest =>
      simp only [hoperands] at h
      obtain ⟨_, rfl⟩ := Change.naming_eq_ok_iff.1 h
      refine ⟨.inr ⟨text, hopcode⟩, ?_, rfl⟩
      rw [headName?, hoperands]
      rfl

theorem eq_halt_iff {c : Change} (h : i.change m program = .ok c) :
    c = .halt ↔ i.opcode = .halt := by
  constructor
  · rintro rfl
    exact origin_of_change h
  · intro hopcode
    rw [change, hopcode] at h
    exact (Except.ok.inj h).symm

/-- A branch that is made leads to a line that can be written, for it has been logged. -/
theorem writableLine_of_destination {c : Change} {line : Int} (h : i.change m program = .ok c)
    (hline : c.destination? = some line) : Numeral.writableLine program.size line = true := by
  have horigin := origin_of_change h
  cases c with
  | jump mnemonic target =>
    obtain rfl := Option.some.inj hline
    obtain ⟨operand, _, ⟨n, hn, hjump⟩ | ⟨_, hseek⟩⟩ := target_cases horigin.2.2.2
    · obtain ⟨_, rfl⟩ := Change.jump.inj hjump
      exact Numeral.writableLine_of_writable _ hn
    · rcases seek_eq_ok_iff.1 hseek with ⟨recorded, _, hwritable, hjump⟩ | ⟨_, _, _, hdiscover⟩
      · obtain ⟨_, rfl⟩ := Change.jump.inj hjump
        exact hwritable
      · simp at hdiscover
  | discover mnemonic name target =>
    obtain rfl := Option.some.inj hline
    exact LabelSearch.writableLine_of_locate horigin.2.2.2.2.2
  | skip | register | memory | flags | halt | emit | label | warn =>
    simp [Change.destination?] at hline

end Instruction

theorem Program.bounds_of_at? {program : Program} {line : Int} {i : Instruction}
    (h : program.at? line = some i) : 0 ≤ line ∧ line < program.size := by
  unfold at? at h
  split_ifs at h with hline
  obtain ⟨hsize, _⟩ := Array.getElem?_eq_some_iff.1 h
  omega

/-- Wherever a step leads to, the line can be written. -/
theorem Machine.writableLine_of_next {m : Machine} {program : Program} {t : Transition}
    (h : m.next program = .ok () t) :
    Numeral.writableLine program.size t.machine.pc = true := by
  obtain ⟨i, c, hi, hc, rfl⟩ := next_eq_ok_iff.1 h
  rw [Change.pc_carryOut]
  cases hline : c.destination? with
  | some line => exact Instruction.writableLine_of_destination hc hline
  | none =>
    obtain ⟨hpc, hsize⟩ := Program.bounds_of_at? hi
    apply Numeral.writableLine_of_le
    simp only [Option.getD_none]
    omega

/-- A machine is halted by the instruction for it, and by no other. -/
theorem Machine.halted_of_next {m : Machine} {program : Program} {i : Instruction}
    {t : Transition} (hi : program.at? m.pc = some i) (h : m.next program = .ok () t) :
    t.machine.halted = (m.halted || decide (i.opcode = .halt)) := by
  obtain ⟨j, c, hj, hc, rfl⟩ := next_eq_ok_iff.1 h
  obtain rfl := Option.some.inj (hi.symm.trans hj)
  rw [Change.halted_carryOut, decide_eq_decide.2 (Instruction.eq_halt_iff hc)]

end ByteMachine
