import ByteMachine.Proofs.LabelSearch

/-!
# The faults that instructions raise

A fault tells the truth about the instruction that raises it: the operand that
it calls missing is missing, the number that it complains of stands in an
operand, the label that it does not know is defined nowhere, and the line that
it cannot write is one that the machine holds. Whether there is an instruction
at all, and whether the run may go on, is asked outside of instructions, so an
instruction never raises the faults that answer these questions.
-/
namespace ByteMachine

/-- An operand holds the number. -/
def Instruction.Holds (i : Instruction) (n : Nat) : Prop :=
  ∃ o ∈ i.operands, Numeral.parse o.raw = .ok n

/-- The machine holds a line that cannot be written: its own, or that of a label. -/
def Machine.HoldsUnwritable (program : Program) (m : Machine) : Prop :=
  ∃ line, Numeral.writableLine program.size line = false ∧
    (line = m.pc ∨ ∃ name, m.label? name = some line)

/-- What a fault says, if an instruction of the program raises it on a machine. -/
def Fault.TrueOf (program : Program) (m : Machine) (i : Instruction) : Fault → Prop
  | .missingOperand mnemonic index count =>
    mnemonic = i.mnemonic ∧ count = i.operands.length ∧ count ≤ index
  | .wrongKind mnemonic index expected kind =>
    mnemonic = i.mnemonic ∧ kind ∉ expected ∧ ∃ o, i.operands[index]? = some o ∧ o.kind = kind
  | .notNumeral mnemonic index raw =>
    mnemonic = i.mnemonic ∧ Numeral.parse raw = .error .malformed ∧
      ∃ o, i.operands[index]? = some o ∧ o.raw = raw
  | .numeralTooLong digits => ∃ o ∈ i.operands, Numeral.parse o.raw = .error (.tooLong digits)
  | .noRegister index => ∃ n : Nat, index = n ∧ registerCount ≤ n ∧ i.Holds n
  | .noAddress address => ∃ n : Nat, address = n ∧ memorySize ≤ n ∧ i.Holds n
  | .unknownLabel name => i.headName? = some name ∧ ∀ line, ¬ program.DefinesAt name line
  | .badIndex cause => cause = .outOfRange ∧ ¬ program.LabelsNamed
  | .unwritable => m.HoldsUnwritable program
  | .overrun .. | .stepLimit _ => False

/-- A fault is raised as it is, or for want of a number that can be written. -/
theorem Fault.told_cases (cause : Fault) : cause.told = cause ∨ cause.told = .unwritable := by
  unfold told
  split_ifs
  · exact .inl rfl
  · exact .inr rfl

/-- If the result is a fault, it has the property. -/
def Raises {α : Type} (P : Fault → Prop) (result : Except Fault α) : Prop :=
  ∀ fault, result = .error fault → P fault

namespace Raises

variable {P : Fault → Prop}

theorem ok {α : Type} (a : α) : Raises P (.ok a) := by
  intro fault h
  simp at h

theorem error {α : Type} {fault : Fault} (h : P fault) :
    Raises P (.error fault : Except Fault α) := by
  intro raised hraised
  obtain rfl := Except.error.inj hraised
  exact h

theorem bind {α β : Type} {x : Except Fault α} {f : α → Except Fault β} (hx : Raises P x)
    (hf : ∀ a, x = .ok a → Raises P (f a)) : Raises P (x >>= f) := by
  cases x with
  | error fault => exact fun raised h => hx raised (by simpa [Bind.bind, Except.bind] using h)
  | ok a => exact hf a rfl

end Raises

theorem le_of_cell?_eq_none {size n : Nat} (h : cell? size n = none) : size ≤ n := by
  have hbound := cell?_eq_none_iff.1 h
  omega

namespace Instruction

variable (i : Instruction) (m : Machine) (program : Program)

theorem raises_operand (index : Nat) : Raises (Fault.TrueOf program m i) (i.operand index) := by
  rw [operand_natCast]
  split
  · exact .ok _
  · next hmissing =>
    exact .error ⟨rfl, rfl, Int.ofNat_le.2 (List.getElem?_eq_none_iff.1 hmissing)⟩

theorem raises_number (index : Nat) : Raises (Fault.TrueOf program m i) (i.number index) := by
  refine (raises_operand i m program index).bind fun o ho => ?_
  rw [operand_eq_ok_iff] at ho
  split
  · exact .ok _
  · next hmalformed => exact .error ⟨rfl, hmalformed, o, ho, rfl⟩
  · next hlong => exact .error ⟨o, List.mem_of_getElem? ho, hlong⟩

theorem raises_kindAmong (index : Nat) (expected : List OperandKind) :
    Raises (Fault.TrueOf program m i) (i.kindAmong index expected) := by
  refine (raises_operand i m program index).bind fun o ho => ?_
  split
  · exact .ok _
  · next hkind => exact .error ⟨rfl, hkind, o, operand_eq_ok_iff.1 ho, rfl⟩

theorem raises_register (index : Nat) : Raises (Fault.TrueOf program m i) (i.register index) :=
  (raises_kindAmong i m program index _).bind fun _ _ => raises_number i m program index

theorem raises_address (index : Nat) : Raises (Fault.TrueOf program m i) (i.address index) :=
  (raises_kindAmong i m program index _).bind fun _ _ => raises_number i m program index

variable {i}

theorem holds_of_number {index n : Nat} (h : i.number index = .ok n) : i.Holds n := by
  obtain ⟨o, ho, hn⟩ := number_eq_ok_iff.1 h
  exact ⟨o, List.mem_of_getElem? ho, hn⟩

theorem holds_of_register {index n : Nat} (h : i.register index = .ok n) : i.Holds n := by
  obtain ⟨_, _, hn⟩ := bind_eq_ok_iff.1 h
  exact holds_of_number hn

theorem holds_of_address {index n : Nat} (h : i.address index = .ok n) : i.Holds n := by
  obtain ⟨_, _, hn⟩ := bind_eq_ok_iff.1 h
  exact holds_of_number hn

theorem Holds.raises_registerCell {n : Nat} (h : i.Holds n) :
    Raises (Fault.TrueOf program m i) (registerCell n) := by
  unfold registerCell
  split
  · exact .ok _
  · next hcell => exact .error ⟨n, rfl, le_of_cell?_eq_none hcell, h⟩

theorem Holds.raises_memoryCell {n : Nat} (h : i.Holds n) :
    Raises (Fault.TrueOf program m i) (memoryCell n) := by
  unfold memoryCell
  split
  · exact .ok _
  · next hcell => exact .error ⟨n, rfl, le_of_cell?_eq_none hcell, h⟩

theorem Holds.raises_readRegister {n : Nat} (h : i.Holds n) :
    Raises (Fault.TrueOf program m i) (m.readRegister n) := by
  unfold Machine.readRegister
  split
  · exact .ok _
  · next hcell => exact .error ⟨n, rfl, le_of_cell?_eq_none hcell, h⟩

theorem Holds.raises_readMemory {n : Nat} (h : i.Holds n) :
    Raises (Fault.TrueOf program m i) (m.readMemory n) := by
  unfold Machine.readMemory
  split
  · exact .ok _
  · next hcell => exact .error ⟨n, rfl, le_of_cell?_eq_none hcell, h⟩

variable (i)

theorem raises_value (index : Nat) : Raises (Fault.TrueOf program m i) (i.value m index) := by
  refine (raises_kindAmong i m program index _).bind fun kind _ => ?_
  split
  · refine (raises_number i m program index).bind fun n hn => ?_
    exact ((holds_of_number hn).raises_readRegister m program).bind fun _ _ => .ok _
  · exact raises_number i m program index

theorem raises_shown : Raises (Fault.TrueOf program m i) (i.shown m) := by
  refine (raises_operand i m program 0).bind fun operand _ => ?_
  split
  · refine (raises_number i m program 0).bind fun n hn => ?_
    exact ((holds_of_number hn).raises_readRegister m program).bind fun _ _ => .ok _
  · refine (raises_number i m program 0).bind fun n hn => ?_
    exact ((holds_of_number hn).raises_readMemory m program).bind fun _ _ => .ok _
  · exact raises_number i m program 0
  · exact raises_number i m program 0

variable {i m program}

/-- A record that names a line of the machine fails if the line cannot be written. -/
theorem raises_naming {line : Int} {c : Change}
    (hline : line = m.pc ∨ ∃ name, m.label? name = some line) :
    Raises (Fault.TrueOf program m i) (Change.naming program line c) := by
  intro fault hfault
  obtain ⟨hunwritable, rfl⟩ := Change.naming_eq_error_iff.1 hfault
  exact ⟨line, hunwritable, hline⟩

/-- Seeking a label from a line of the program fails if there is none, at a definition without a
name, or with a recorded line that cannot be written. -/
theorem fault_of_seek {name : String} {fault : Fault} (hi : program.at? m.pc = some i)
    (h : i.seek m program name = .error fault) :
    (fault = .unknownLabel name ∧ ∀ line, ¬ program.DefinesAt name line) ∨
      (fault = .badIndex .outOfRange ∧ ¬ program.LabelsNamed) ∨
      (fault = .unwritable ∧ ∃ line, m.label? name = some line ∧
        Numeral.writableLine program.size line = false) := by
  unfold seek at h
  split at h
  · next line hrecorded =>
    obtain ⟨hunwritable, rfl⟩ := Change.naming_eq_error_iff.1 h
    exact .inr (.inr ⟨rfl, line, hrecorded, hunwritable⟩)
  · obtain ⟨hline, hsize⟩ := Program.exists_at?_iff.1 ⟨i, hi⟩
    rcases LabelSearch.locate_cases name hline (Int.le_of_lt hsize) with
      ⟨line, hlocate, _⟩ | ⟨hlocate, hnone⟩ | ⟨hlocate, hunnamed⟩
    · rw [hlocate] at h
      cases h
    · rw [hlocate] at h
      exact .inl ⟨(Except.error.inj h).symm, hnone⟩
    · rw [hlocate] at h
      exact .inr (.inl ⟨(Except.error.inj h).symm, hunnamed⟩)

theorem raises_seek {name : String} (hi : program.at? m.pc = some i)
    (hname : i.headName? = some name) :
    Raises (Fault.TrueOf program m i) (i.seek m program name) := by
  intro fault hfault
  rcases fault_of_seek hi hfault with ⟨rfl, hnone⟩ | ⟨rfl, hunnamed⟩ | ⟨rfl, line, hline, hlong⟩
  · exact ⟨hname, hnone⟩
  · exact ⟨rfl, hunnamed⟩
  · exact ⟨line, hlong, .inr ⟨name, hline⟩⟩

theorem raises_target (hi : program.at? m.pc = some i) :
    Raises (Fault.TrueOf program m i) (i.target m program) := by
  refine (raises_operand i m program 0).bind fun operand hoperand => ?_
  have hhead := operand_zero_eq_ok_iff.1 hoperand
  have hname : i.headName? = some operand.raw := by rw [headName?, hhead]; rfl
  split
  · exact (raises_value i m program 0).bind fun _ _ => .ok _
  · exact (raises_value i m program 0).bind fun _ _ => .ok _
  · exact raises_seek hi hname
  · split
    · exact .ok _
    · exact raises_seek hi hname
    · next hlong => exact .error ⟨operand, List.mem_of_mem_head? hhead, hlong⟩

/-- An instruction raises only faults that are true of it, if this can be said of its target
should it be a branch. -/
theorem raises_change_of_target
    (hbranch : i.opcode = .b → Raises (Fault.TrueOf program m i) (i.target m program)) :
    Raises (Fault.TrueOf program m i) (i.change m program) := by
  have hregister (index : Nat) := raises_register i m program index
  have haddress (index : Nat) := raises_address i m program index
  have hvalue (index : Nat) := raises_value i m program index
  unfold change
  cases hopcode : i.opcode with
  | arith op =>
    refine (hregister 0).bind fun target htarget => (hregister 1).bind fun source hsource => ?_
    refine ((holds_of_register hsource).raises_readRegister m program).bind fun _ _ => ?_
    refine (hvalue 2).bind fun _ _ => ?_
    exact ((holds_of_register htarget).raises_registerCell m program).bind fun _ _ => .ok _
  | ldr =>
    refine (hregister 0).bind fun target htarget => (haddress 1).bind fun source hsource => ?_
    refine ((holds_of_address hsource).raises_readMemory m program).bind fun _ _ => ?_
    exact ((holds_of_register htarget).raises_registerCell m program).bind fun _ _ => .ok _
  | str =>
    refine (hregister 0).bind fun source hsource => ?_
    refine ((holds_of_register hsource).raises_readRegister m program).bind fun _ _ => ?_
    refine (haddress 1).bind fun target htarget => ?_
    exact ((holds_of_address htarget).raises_memoryCell m program).bind fun _ _ => .ok _
  | mov | mvn =>
    refine (hregister 0).bind fun target htarget => (hvalue 1).bind fun _ _ => ?_
    exact ((holds_of_register htarget).raises_registerCell m program).bind fun _ _ => .ok _
  | cmp =>
    refine (hregister 0).bind fun source hsource => ?_
    refine ((holds_of_register hsource).raises_readRegister m program).bind fun _ _ => ?_
    exact (hvalue 1).bind fun _ _ => .ok _
  | b =>
    dsimp only
    split
    · exact hbranch hopcode
    · exact .ok _
  | label => exact (raises_operand i m program 0).bind fun _ _ => raises_naming (.inl rfl)
  | out => exact (raises_shown i m program).bind fun _ _ => .ok _
  | unknown name =>
    dsimp only
    split
    · exact raises_naming (.inl rfl)
    · exact raises_naming (.inl rfl)
  | halt | nop => exact .ok _

/-- The instruction at the line of a machine raises only faults that are true of it. -/
theorem raises_change (hi : program.at? m.pc = some i) :
    Raises (Fault.TrueOf program m i) (i.change m program) :=
  raises_change_of_target fun _ => raises_target hi

end Instruction

/-- A step fails because there is no instruction, or with a fault that is true of it. -/
theorem Machine.fault_of_next {m : Machine} {program : Program} {fault : Fault}
    {left : Transition} (h : m.next program = .error fault left) :
    (program.at? m.pc = none ∧ fault = (Fault.overrun m.pc program.size).told) ∨
      ∃ i, program.at? m.pc = some i ∧ fault.TrueOf program m i := by
  obtain ⟨_, houtside | ⟨i, hi, hfault⟩⟩ := next_eq_error_iff.1 h
  · exact .inl houtside
  · exact .inr ⟨i, hi, i.raises_change hi fault hfault⟩

/-- No step says that the limit is reached. -/
theorem Machine.next_ne_stepLimit {m : Machine} {program : Program} {steps : Int}
    {left : Transition} : m.next program ≠ .error (.stepLimit steps) left := by
  intro h
  obtain ⟨_, hfault⟩ | ⟨i, _, hfault⟩ := fault_of_next h
  · rcases Fault.told_cases (.overrun m.pc program.size) with htold | htold
    · simp [htold] at hfault
    · simp [htold] at hfault
  · exact hfault

/-- No step leads to a line that cannot be written, so a machine that holds one has held it
before. -/
theorem Machine.holdsUnwritable_of_next {m : Machine} {program : Program} {t : Transition}
    (hnext : m.next program = .ok () t) (h : t.machine.HoldsUnwritable program) :
    m.HoldsUnwritable program := by
  obtain ⟨line, hunwritable, rfl | ⟨name, hlabel⟩⟩ := h
  · simp [writableLine_of_next hnext] at hunwritable
  · obtain ⟨i, c, hi, hc, rfl⟩ := next_eq_ok_iff.1 hnext
    rw [Change.label?_carryOut] at hlabel
    cases hrecorded : c.recorded? with
    | none =>
      rw [hrecorded] at hlabel
      exact ⟨line, hunwritable, .inr ⟨name, hlabel⟩⟩
    | some entry =>
      obtain ⟨recorded, place⟩ := entry
      rw [hrecorded] at hlabel
      dsimp only at hlabel
      split_ifs at hlabel
      · obtain rfl := Option.some.inj hlabel
        obtain ⟨j, hj, _⟩ := Change.site_of_recorded hi hc hrecorded
        simp [Program.writableLine_of_at? hj] at hunwritable
      · exact ⟨line, hunwritable, .inr ⟨name, hlabel⟩⟩

theorem Machine.not_holdsUnwritable_new (program : Program) :
    ¬ Machine.new.HoldsUnwritable program := by
  rintro ⟨line, hunwritable, rfl | ⟨name, hlabel⟩⟩
  · have hwritable : Numeral.writableLine program.size Machine.new.pc = true :=
      Numeral.writableLine_of_le (Nat.zero_le _)
    simp [hwritable] at hunwritable
  · simp [Machine.label?, Machine.new] at hlabel

end ByteMachine
