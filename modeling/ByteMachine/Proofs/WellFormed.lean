import ByteMachine.Proofs.Configuration

/-!
# Well-formed programs

What an operation asks of its operands is a table of roles, and whether the
operands fit their roles can be seen in the program alone. A program in which
they all do has no fault in any of its instructions: on every machine, whatever
its registers, its memory and its labels are, an instruction of it is executed
with success, as long as the lines of the labels can be written. A run of it
fails only when it leaves the program or comes to its limit.
-/
namespace ByteMachine

namespace Operand

/-- The operand is a numeral. -/
def Numeric (o : Operand) : Prop := ∃ n, Numeral.parse o.raw = .ok n

/-- The operand is a numeral below the bound. -/
def NumericBelow (o : Operand) (bound : Nat) : Prop := ∃ n, Numeral.parse o.raw = .ok n ∧ n < bound

instance (o : Operand) : Decidable o.Numeric :=
  decidable_of_iff ((Numeral.parse o.raw).isOk = true) (by
    unfold Numeric
    cases Numeral.parse o.raw <;> simp [Except.isOk, Except.toBool])

instance (o : Operand) (bound : Nat) : Decidable (o.NumericBelow bound) :=
  decidable_of_iff ((Numeral.parse o.raw).toOption.any (· < bound) = true) (by
    unfold NumericBelow
    cases Numeral.parse o.raw <;> simp [Except.toOption])

/-- The operand is a register that the machine has. -/
def NamesRegister (o : Operand) : Prop := o.kind = .register ∧ o.NumericBelow registerCount

/-- The operand is a cell of memory that the machine has. -/
def NamesCell (o : Operand) : Prop := o.kind = .address ∧ o.NumericBelow memorySize

/-- The operand is an immediate value. -/
def IsImmediate (o : Operand) : Prop := o.kind = .immediate ∧ o.Numeric

/-- The operand starts with no more digits than are read. -/
def Bounded (o : Operand) : Prop :=
  (o.raw.toList.takeWhile Char.isDigit).length ≤ Numeral.digitLimit

instance (o : Operand) : Decidable o.NamesRegister := inferInstanceAs (Decidable (_ ∧ _))

instance (o : Operand) : Decidable o.NamesCell := inferInstanceAs (Decidable (_ ∧ _))

instance (o : Operand) : Decidable o.IsImmediate := inferInstanceAs (Decidable (_ ∧ _))

instance (o : Operand) : Decidable o.Bounded := inferInstanceAs (Decidable (_ ≤ _))

/-- An operand without too many digits is a numeral or a name. -/
theorem Bounded.numeral_or_malformed {o : Operand} (h : o.Bounded) :
    (∃ n, Numeral.parse o.raw = .ok n) ∨ Numeral.parse o.raw = .error .malformed := by
  rw [Numeral.parse, Numeral.valueOf]
  split_ifs with hempty hlong hrest
  · exact .inr rfl
  · unfold Bounded at h
    omega
  · exact .inl ⟨_, rfl⟩
  · exact .inr rfl

end Operand

/-- A line of the program defines the label. -/
def Program.Defines (program : Program) (name : String) : Prop :=
  ∃ i ∈ program, i.labelName? = some name

instance (program : Program) (name : String) : Decidable (program.Defines name) :=
  inferInstanceAs (Decidable (∃ i ∈ program, i.labelName? = some name))

/-- What an operation asks of an operand. -/
inductive Role where
  | register
  | cell
  /-- A register or an immediate value. -/
  | value
  /-- Whatever can be put out. -/
  | shown
  /-- Where a branch can lead. -/
  | target
  | name
  deriving DecidableEq, Repr

/-- The operand meets what is asked of it. -/
def Role.Fits (program : Program) (o : Operand) : Role → Prop
  | .register => o.NamesRegister
  | .cell => o.NamesCell
  | .value => o.NamesRegister ∨ o.IsImmediate
  | .shown => o.NamesRegister ∨ o.IsImmediate ∨ o.NamesCell
  | .target =>
    o.NamesRegister ∨ o.IsImmediate ∨ (o.kind = .address ∧ o.Numeric) ∨
      ((o.kind = .address ∨ o.kind = .label) ∧ program.Defines o.raw)
  | .name => True

instance (program : Program) (o : Operand) : (role : Role) → Decidable (role.Fits program o)
  | .register => inferInstanceAs (Decidable o.NamesRegister)
  | .cell => inferInstanceAs (Decidable o.NamesCell)
  | .value => inferInstanceAs (Decidable (_ ∨ _))
  | .shown => inferInstanceAs (Decidable (_ ∨ _ ∨ _))
  | .target => inferInstanceAs (Decidable (_ ∨ _ ∨ (_ ∧ _) ∨ ((_ ∨ _) ∧ _)))
  | .name => inferInstanceAs (Decidable True)

/-- The roles of an operation's operands, from the first one on. -/
def Opcode.roles : Opcode → List Role
  | .arith _ => [.register, .register, .value]
  | .ldr | .str => [.register, .cell]
  | .mov | .mvn | .cmp => [.register, .value]
  | .b => [.target]
  | .label => [.name]
  | .out => [.shown]
  | .halt | .nop | .unknown _ => []

/-- The machine has the operation, its operands are there and fit their roles, and none of them
starts with too many digits. -/
def Instruction.WellFormed (program : Program) (i : Instruction) : Prop :=
  i.opcode ∈ Opcode.known ∧
    (∀ site ∈ i.opcode.roles.zipIdx, ∃ o ∈ i.operands[site.2]?, site.1.Fits program o) ∧
    ∀ o ∈ i.operands, o.Bounded

instance (program : Program) (i : Instruction) : Decidable (i.WellFormed program) :=
  inferInstanceAs (Decidable (_ ∧ (∀ site ∈ i.opcode.roles.zipIdx,
    ∃ o ∈ i.operands[site.2]?, site.1.Fits program o) ∧ ∀ o ∈ i.operands, o.Bounded))

/-- Every instruction is well-formed in the program. -/
def Program.WellFormed (program : Program) : Prop := ∀ i ∈ program, i.WellFormed program

instance (program : Program) : Decidable program.WellFormed :=
  inferInstanceAs (Decidable (∀ i ∈ program, i.WellFormed program))

/-! What fits is read without a fault -/

namespace Machine

variable (m : Machine) {n : Nat}

theorem exists_readRegister (h : n < registerCount) : ∃ byte, m.readRegister n = .ok byte := by
  rw [readRegister, cell?_eq_some_iff.2 (show ((n : Nat) : Int) = (⟨n, h⟩ : Fin _).val from rfl)]
  exact ⟨_, rfl⟩

theorem exists_readMemory (h : n < memorySize) : ∃ byte, m.readMemory n = .ok byte := by
  rw [readMemory, cell?_eq_some_iff.2 (show ((n : Nat) : Int) = (⟨n, h⟩ : Fin _).val from rfl)]
  exact ⟨_, rfl⟩

end Machine

namespace Instruction

variable {program : Program} {i : Instruction} {m : Machine} {index : Nat} {o : Operand}

theorem number_eq_ok {n : Nat} (ho : i.operands[index]? = some o)
    (hn : Numeral.parse o.raw = .ok n) : i.number index = .ok n :=
  number_eq_ok_iff.2 ⟨o, ho, hn⟩

theorem kindAmong_eq_ok {expected : List OperandKind} (ho : i.operands[index]? = some o)
    (hkind : o.kind ∈ expected) : i.kindAmong index expected = .ok o.kind := by
  rw [kindAmong, operand_eq_ok_iff.2 ho]
  simp [bind, Except.bind, hkind]

theorem exists_value (m : Machine) (ho : i.operands[index]? = some o)
    (h : o.NamesRegister ∨ o.IsImmediate) : ∃ v, i.value m index = .ok v := by
  unfold value
  rcases h with ⟨hkind, n, hn, hbound⟩ | ⟨hkind, n, hn⟩
  · obtain ⟨byte, hbyte⟩ := m.exists_readRegister hbound
    rw [kindAmong_eq_ok ho (by simp [hkind]), hkind]
    simp [bind, Except.bind, number_eq_ok ho hn, hbyte]
  · rw [kindAmong_eq_ok ho (by simp [hkind]), hkind]
    exact ⟨n, number_eq_ok ho hn⟩

theorem operand_zero_eq_ok (ho : i.operands[0]? = some o) : i.operand 0 = .ok o :=
  (@operand_eq_ok_iff i 0 o).2 ho

theorem exists_shown (m : Machine) (ho : i.operands[0]? = some o)
    (h : o.NamesRegister ∨ o.IsImmediate ∨ o.NamesCell) : ∃ v, i.shown m = .ok v := by
  rw [shown, operand_zero_eq_ok ho]
  rcases h with ⟨hkind, n, hn, hbound⟩ | ⟨hkind, n, hn⟩ | ⟨hkind, n, hn, hbound⟩
  · obtain ⟨byte, hbyte⟩ := m.exists_readRegister hbound
    simp [bind, Except.bind, hkind, number_eq_ok ho hn, hbyte]
  · exact ⟨n, by simp [bind, Except.bind, hkind, number_eq_ok ho hn]⟩
  · obtain ⟨byte, hbyte⟩ := m.exists_readMemory hbound
    simp [bind, Except.bind, hkind, number_eq_ok ho hn, hbyte]

/-- A label that a line defines is found from every line of the program. -/
theorem exists_seek (hm : ¬ m.HoldsUnwritable program) (hnamed : program.LabelsNamed)
    {name : String} (hname : program.Defines name) (hpc : 0 ≤ m.pc) (hsize : m.pc ≤ program.size) :
    ∃ c, i.seek m program name = .ok c := by
  simp only [seek_eq_ok_iff]
  cases hlabel : m.label? name with
  | some line =>
    have hwritable : Numeral.writableLine program.size line = true := by
      rw [← Bool.not_eq_false]
      exact fun hunwritable => hm ⟨line, hunwritable, .inr ⟨name, hlabel⟩⟩
    exact ⟨_, .inl ⟨line, rfl, hwritable, rfl⟩⟩
  | none =>
    rcases LabelSearch.locate_of_named hnamed hpc hsize with ⟨line, hlocate⟩ | ⟨_, hnone⟩
    · exact ⟨_, .inr ⟨rfl, line, hlocate, rfl⟩⟩
    · obtain ⟨j, hj, hjname⟩ := hname
      obtain ⟨line, hline⟩ := Program.exists_at?_of_mem hj
      exact absurd ⟨j, hline, hjname⟩ (hnone line)

theorem exists_target (hm : ¬ m.HoldsUnwritable program) (hnamed : program.LabelsNamed)
    (ho : i.operands[0]? = some o) (h : Role.target.Fits program o) (hbounded : o.Bounded)
    (hpc : 0 ≤ m.pc) (hsize : m.pc ≤ program.size) : ∃ c, i.target m program = .ok c := by
  have hoperand := operand_zero_eq_ok ho
  have hvalue (hfits : o.NamesRegister ∨ o.IsImmediate) : ∃ c, i.target m program = .ok c := by
    obtain ⟨v, hv⟩ := exists_value m ho hfits
    rw [target_of_value hoperand (hfits.imp And.left And.left), hv]
    exact ⟨_, rfl⟩
  rcases h with h | h | ⟨hkind, n, hn⟩ | ⟨hkind, hname⟩
  · exact hvalue (.inl h)
  · exact hvalue (.inr h)
  · exact ⟨_, target_of_numeral hoperand hkind hn⟩
  · have hseek := @exists_seek program i m hm hnamed _ hname hpc hsize
    rcases hkind with hkind | hkind
    · rcases hbounded.numeral_or_malformed with ⟨n, hn⟩ | hmalformed
      · exact ⟨_, target_of_numeral hoperand hkind hn⟩
      · rwa [target_of_name hoperand (.inr ⟨hkind, hmalformed⟩)]
    · rwa [target_of_name hoperand (.inl hkind)]

end Instruction

theorem exists_registerCell {n : Nat} (h : n < registerCount) : ∃ p, registerCell n = .ok p :=
  ⟨⟨n, h⟩, registerCell_eq_ok_iff.2 rfl⟩

theorem exists_memoryCell {n : Nat} (h : n < memorySize) : ∃ p, memoryCell n = .ok p :=
  ⟨⟨n, h⟩, memoryCell_eq_ok_iff.2 rfl⟩

namespace Program.WellFormed

variable {program : Program} {i : Instruction} {m : Machine}

/-- The operand in a role is there and fits it. -/
theorem operand (h : program.WellFormed) (hi : i ∈ program) (index : Nat) {role : Role}
    (hrole : i.opcode.roles[index]? = some role) :
    ∃ o, i.operands[index]? = some o ∧ role.Fits program o := by
  obtain ⟨o, ho, hfits⟩ := (h i hi).2.1 (role, index) (List.mem_zipIdx_iff_getElem?.2 hrole)
  exact ⟨o, ho, hfits⟩

theorem labelsNamed (h : program.WellFormed) : program.LabelsNamed := by
  intro i hi hlabel hnone
  obtain ⟨o, ho, _⟩ := h.operand hi 0 (by rw [hlabel]; rfl)
  simp [hnone] at ho

theorem register (h : program.WellFormed) (hi : i ∈ program) (index : Nat)
    (hrole : i.opcode.roles[index]? = some .register) :
    ∃ n, i.register index = .ok n ∧ n < registerCount := by
  obtain ⟨o, ho, hkind, n, hn, hbound⟩ := h.operand hi index hrole
  refine ⟨n, ?_, hbound⟩
  rw [Instruction.register, Instruction.kindAmong_eq_ok ho (by simp [hkind])]
  exact Instruction.number_eq_ok ho hn

theorem address (h : program.WellFormed) (hi : i ∈ program) (index : Nat)
    (hrole : i.opcode.roles[index]? = some .cell) :
    ∃ n, i.address index = .ok n ∧ n < memorySize := by
  obtain ⟨o, ho, hkind, n, hn, hbound⟩ := h.operand hi index hrole
  refine ⟨n, ?_, hbound⟩
  rw [Instruction.address, Instruction.kindAmong_eq_ok ho (by simp [hkind])]
  exact Instruction.number_eq_ok ho hn

theorem value (h : program.WellFormed) (hi : i ∈ program) (m : Machine) (index : Nat)
    (hrole : i.opcode.roles[index]? = some .value) : ∃ v, i.value m index = .ok v := by
  obtain ⟨o, ho, hfits⟩ := h.operand hi index hrole
  exact Instruction.exists_value m ho hfits

/-- Every instruction of the program makes its change on every machine that stands at it and
holds lines that can be written. -/
theorem exists_change (h : program.WellFormed) (hm : ¬ m.HoldsUnwritable program)
    (hi : program.at? m.pc = some i) : ∃ c, i.change m program = .ok c := by
  obtain ⟨hpc, hsize⟩ := exists_at?_iff.1 ⟨i, hi⟩
  have hmem := mem_of_at? hi
  unfold Instruction.change
  cases hopcode : i.opcode with
  | arith op =>
    obtain ⟨target, htarget, hbound⟩ := h.register hmem 0 (by rw [hopcode]; rfl)
    obtain ⟨source, hsource, hbound'⟩ := h.register hmem 1 (by rw [hopcode]; rfl)
    obtain ⟨b, hb⟩ := h.value hmem m 2 (by rw [hopcode]; rfl)
    obtain ⟨a, ha⟩ := m.exists_readRegister hbound'
    obtain ⟨p, hp⟩ := exists_registerCell hbound
    simp only [bind_eq_ok_iff]
    exact ⟨_, target, htarget, source, hsource, a, ha, b, hb, p, hp, rfl⟩
  | ldr =>
    obtain ⟨target, htarget, hbound⟩ := h.register hmem 0 (by rw [hopcode]; rfl)
    obtain ⟨source, hsource, hbound'⟩ := h.address hmem 1 (by rw [hopcode]; rfl)
    obtain ⟨byte, hbyte⟩ := m.exists_readMemory hbound'
    obtain ⟨p, hp⟩ := exists_registerCell hbound
    simp only [bind_eq_ok_iff]
    exact ⟨_, target, htarget, source, hsource, byte, hbyte, p, hp, rfl⟩
  | str =>
    obtain ⟨source, hsource, hbound⟩ := h.register hmem 0 (by rw [hopcode]; rfl)
    obtain ⟨target, htarget, hbound'⟩ := h.address hmem 1 (by rw [hopcode]; rfl)
    obtain ⟨byte, hbyte⟩ := m.exists_readRegister hbound
    obtain ⟨p, hp⟩ := exists_memoryCell hbound'
    simp only [bind_eq_ok_iff]
    exact ⟨_, source, hsource, byte, hbyte, target, htarget, p, hp, rfl⟩
  | mov | mvn =>
    obtain ⟨target, htarget, hbound⟩ := h.register hmem 0 (by rw [hopcode]; rfl)
    obtain ⟨v, hv⟩ := h.value hmem m 1 (by rw [hopcode]; rfl)
    obtain ⟨p, hp⟩ := exists_registerCell hbound
    simp only [bind_eq_ok_iff]
    exact ⟨_, target, htarget, v, hv, p, hp, rfl⟩
  | cmp =>
    obtain ⟨source, hsource, hbound⟩ := h.register hmem 0 (by rw [hopcode]; rfl)
    obtain ⟨v, hv⟩ := h.value hmem m 1 (by rw [hopcode]; rfl)
    obtain ⟨a, ha⟩ := m.exists_readRegister hbound
    simp only [bind_eq_ok_iff]
    exact ⟨_, source, hsource, a, ha, v, hv, rfl⟩
  | b =>
    obtain ⟨o, ho, hfits⟩ := h.operand hmem 0 (by rw [hopcode]; rfl)
    have hbounded := (h i hmem).2.2 o (List.mem_of_getElem? ho)
    simp only
    split
    · exact Instruction.exists_target hm h.labelsNamed ho hfits hbounded hpc (by omega)
    · exact ⟨_, rfl⟩
  | label =>
    obtain ⟨o, ho, _⟩ := h.operand hmem 0 (by rw [hopcode]; rfl)
    simp only [bind_eq_ok_iff, Change.naming_eq_ok_iff]
    exact ⟨_, o, Instruction.operand_zero_eq_ok ho, writableLine_of_at? hi, rfl⟩
  | out =>
    obtain ⟨o, ho, hfits⟩ := h.operand hmem 0 (by rw [hopcode]; rfl)
    obtain ⟨v, hv⟩ := Instruction.exists_shown m ho hfits
    simp only [bind_eq_ok_iff]
    exact ⟨_, v, hv, rfl⟩
  | halt | nop => exact ⟨_, rfl⟩
  | unknown text => exact absurd hopcode (Opcode.mem_known_iff.1 (h i hmem).1 text)

/-- A step fails only where there is no instruction. -/
theorem fault_of_next (h : program.WellFormed) (hm : ¬ m.HoldsUnwritable program) {fault : Fault}
    {left : Transition} (hnext : m.next program = .error fault left) :
    program.at? m.pc = none ∧ fault = .overrun m.pc program.size := by
  rcases (Machine.next_eq_error_iff.1 hnext).2 with ⟨houtside, rfl⟩ | ⟨i, hi, hfault⟩
  · refine ⟨houtside, if_pos ?_⟩
    rw [← Bool.not_eq_false]
    exact fun hunwritable => hm ⟨m.pc, hunwritable, .inl rfl⟩
  · obtain ⟨c, hc⟩ := h.exists_change hm hi
    simp [hc] at hfault

end Program.WellFormed

end ByteMachine
