import ByteMachine.Proofs.Taxonomy
import ByteMachine.Proofs.WellFormed

/-!
# Whether an instruction fails

Apart from branches, whether an instruction fails can be read off its text. Its
operands are checked one by one, for being there, for their kind, for being
numbers and for naming a register or a cell that the machine has. What the
registers and cells hold plays no part in this, and neither does the program.
The current line does: an instruction that names it fails where it cannot be
written.
-/
namespace ByteMachine

/-- Both results are there, or both have the same fault. -/
inductive SameVerdict {α β : Type} : Except Fault α → Except Fault β → Prop where
  | ok (a : α) (b : β) : SameVerdict (.ok a) (.ok b)
  | error (fault : Fault) : SameVerdict (.error fault) (.error fault)

namespace SameVerdict

variable {α β γ δ : Type}

theorem bind {x : Except Fault α} {y : Except Fault β} {f : α → Except Fault γ}
    {g : β → Except Fault δ} (h : SameVerdict x y) (hfg : ∀ a b, SameVerdict (f a) (g b)) :
    SameVerdict (x >>= f) (y >>= g) := by
  cases h with
  | ok a b => exact hfg a b
  | error fault => exact .error fault

/-- What is read from the text is the same on both sides. -/
theorem bind_text {x y : Except Fault α} {f : α → Except Fault γ} {g : α → Except Fault δ}
    (h : y = x) (hfg : ∀ a, SameVerdict (f a) (g a)) : SameVerdict (x >>= f) (y >>= g) := by
  rw [h]
  cases x with
  | ok a => exact hfg a
  | error fault => exact .error fault

theorem of_eq {x y : Except Fault α} (h : y = x) : SameVerdict x y := by
  rw [h]
  cases x with
  | ok a => exact .ok a a
  | error fault => exact .error fault

end SameVerdict

namespace Machine

variable (m m' : Machine)

theorem readRegister_sameVerdict (index : Int) :
    SameVerdict (m.readRegister index) (m'.readRegister index) := by
  unfold readRegister
  cases cell? registerCount index with
  | some p => exact .ok _ _
  | none => exact .error _

theorem readMemory_sameVerdict (address : Int) :
    SameVerdict (m.readMemory address) (m'.readMemory address) := by
  unfold readMemory
  cases cell? memorySize address with
  | some p => exact .ok _ _
  | none => exact .error _

end Machine

namespace Instruction

/-- The instructions do the same operation and have the same operands, as far as the operation
reads them. -/
structure SameText (i i' : Instruction) : Prop where
  opcode : i'.opcode = i.opcode
  branch : i'.branch = i.branch
  operands : ∀ index : Nat, index < i.opcode.roles.length → i'.operand index = i.operand index

theorem SameText.refl (i : Instruction) : i.SameText i := ⟨rfl, rfl, fun _ _ => rfl⟩

/-- If no operand is missing, more of them make no difference. -/
theorem SameText.append {i : Instruction} (h : i.opcode.roles.length ≤ i.operands.length)
    (extra : List Operand) : i.SameText { i with operands := i.operands ++ extra } where
  opcode := rfl
  branch := rfl
  operands index hindex := by
    rw [operand_natCast, operand_natCast]
    simp only [List.getElem?_append_left (hindex.trans_le h),
      List.getElem?_eq_getElem (hindex.trans_le h)]

namespace SameText

variable {i i' : Instruction} (h : i.SameText i') {index : Nat}
  (hindex : index < i.opcode.roles.length)

include h

theorem mnemonic : i'.mnemonic = i.mnemonic := by
  rw [Instruction.mnemonic, Instruction.mnemonic, h.opcode, h.branch]

include hindex

theorem number : i'.number index = i.number index := by
  rw [Instruction.number, Instruction.number, h.operands index hindex, h.mnemonic]

theorem kindAmong (expected : List OperandKind) :
    i'.kindAmong index expected = i.kindAmong index expected := by
  rw [Instruction.kindAmong, Instruction.kindAmong, h.operands index hindex, h.mnemonic]

theorem register : i'.register index = i.register index := by
  rw [Instruction.register, Instruction.register, h.kindAmong hindex, h.number hindex]

theorem address : i'.address index = i.address index := by
  rw [Instruction.address, Instruction.address, h.kindAmong hindex, h.number hindex]

theorem value (m m' : Machine) : SameVerdict (i.value m index) (i'.value m' index) := by
  refine .bind_text (h.kindAmong hindex _) fun kind => ?_
  cases kind with
  | register =>
    refine .bind_text (h.number hindex) fun n => ?_
    exact (m.readRegister_sameVerdict m' n).bind fun _ _ => .ok _ _
  | immediate | address | label => exact .of_eq (h.number hindex)

end SameText

/-- The instruction tells the line that it stands at. -/
def namesLine (i : Instruction) : Bool :=
  match i.opcode with
  | .label | .unknown _ => true
  | _ => false

section

variable {i i' : Instruction}

theorem SameText.shown (h : i.SameText i') (hopcode : i.opcode = .out) (m m' : Machine) :
    SameVerdict (i.shown m) (i'.shown m') := by
  have hindex : 0 < i.opcode.roles.length := by rw [hopcode]; decide
  refine .bind_text (h.operands 0 hindex) fun o => ?_
  cases o.kind with
  | register =>
    refine .bind_text (h.number hindex) fun n => ?_
    exact (m.readRegister_sameVerdict m' n).bind fun _ _ => .ok _ _
  | address =>
    refine .bind_text (h.number hindex) fun n => ?_
    exact (m.readMemory_sameVerdict m' n).bind fun _ _ => .ok _ _
  | immediate | label => exact .of_eq (h.number hindex)

/-- Unless it is a branch or names its line, an instruction gets the same verdict on every machine
and in every program. -/
theorem SameText.change (h : i.SameText i') (hb : i.opcode ≠ .b) (hline : i.namesLine = false)
    (m m' : Machine) (program program' : Program) :
    SameVerdict (i.change m program) (i'.change m' program') := by
  have hregister (index : Nat) (hindex : index < i.opcode.roles.length) := h.register hindex
  have haddress (index : Nat) (hindex : index < i.opcode.roles.length) := h.address hindex
  have hvalue (index : Nat) (hindex : index < i.opcode.roles.length) := h.value hindex m m'
  unfold Instruction.change
  rw [h.opcode]
  cases hopcode : i.opcode with
  | arith op =>
    rw [hopcode] at hregister hvalue
    refine .bind_text (hregister 0 (by simp [Opcode.roles])) fun target => ?_
    refine .bind_text (hregister 1 (by simp [Opcode.roles])) fun source => ?_
    refine (m.readRegister_sameVerdict m' source).bind fun _ _ => ?_
    refine (hvalue 2 (by simp [Opcode.roles])).bind fun _ _ => ?_
    exact .bind_text rfl fun _ => .ok _ _
  | ldr =>
    rw [hopcode] at hregister haddress
    refine .bind_text (hregister 0 (by decide)) fun target => ?_
    refine .bind_text (haddress 1 (by decide)) fun source => ?_
    refine (m.readMemory_sameVerdict m' source).bind fun _ _ => ?_
    exact .bind_text rfl fun _ => .ok _ _
  | str =>
    rw [hopcode] at hregister haddress
    refine .bind_text (hregister 0 (by decide)) fun source => ?_
    refine (m.readRegister_sameVerdict m' source).bind fun _ _ => ?_
    refine .bind_text (haddress 1 (by decide)) fun target => ?_
    exact .bind_text rfl fun _ => .ok _ _
  | mov | mvn =>
    rw [hopcode] at hregister hvalue
    refine .bind_text (hregister 0 (by decide)) fun target => ?_
    refine (hvalue 1 (by decide)).bind fun _ _ => ?_
    exact .bind_text rfl fun _ => .ok _ _
  | cmp =>
    rw [hopcode] at hregister hvalue
    refine .bind_text (hregister 0 (by decide)) fun source => ?_
    refine (m.readRegister_sameVerdict m' source).bind fun _ _ => ?_
    exact (hvalue 1 (by decide)).bind fun _ _ => .ok _ _
  | b => exact absurd hopcode hb
  | label | unknown => simp [namesLine, hopcode] at hline
  | out => exact (h.shown hopcode m m').bind fun _ _ => .ok _ _
  | halt | nop => exact .ok _ _

end

end Instruction

/-- The operand does for an operation that reads it in the role. What is put out may be of any
kind, and a number that names neither a register nor a cell is put out itself. -/
def Operand.Serves (o : Operand) : Role → Prop
  | .register => o.NamesRegister
  | .cell => o.NamesCell
  | .value => o.NamesRegister ∨ o.IsImmediate
  | .shown =>
    o.NamesRegister ∨ o.NamesCell ∨ ((o.kind = .immediate ∨ o.kind = .label) ∧ o.Numeric)
  | .target | .name => True

instance (o : Operand) : (role : Role) → Decidable (o.Serves role)
  | .register => inferInstanceAs (Decidable o.NamesRegister)
  | .cell => inferInstanceAs (Decidable o.NamesCell)
  | .value => inferInstanceAs (Decidable (_ ∨ _))
  | .shown => inferInstanceAs (Decidable (_ ∨ _ ∨ ((_ ∨ _) ∧ _)))
  | .target | .name => inferInstanceAs (Decidable True)

namespace Instruction

/-- There is an operand at the index, and it does for the role. -/
def Fills (i : Instruction) (index : Nat) (role : Role) : Prop :=
  ∃ o ∈ i.operands[index]?, o.Serves role

instance (i : Instruction) (index : Nat) (role : Role) : Decidable (i.Fills index role) :=
  inferInstanceAs (Decidable (∃ o ∈ i.operands[index]?, o.Serves role))

/-- The operands that the operation reads are there and do for it. -/
def Sufficient (i : Instruction) : Prop :=
  ∀ site ∈ i.opcode.roles.zipIdx, i.Fills site.2 site.1

instance (i : Instruction) : Decidable i.Sufficient :=
  inferInstanceAs (Decidable (∀ site ∈ i.opcode.roles.zipIdx, i.Fills site.2 site.1))

/-- The current line can be written, if the instruction names it. -/
def CanTell (i : Instruction) (m : Machine) (program : Program) : Prop :=
  i.namesLine = true → Numeral.writableLine program.size m.pc = true

instance (i : Instruction) (m : Machine) (program : Program) : Decidable (i.CanTell m program) :=
  inferInstanceAs (Decidable (_ → _))

end Instruction

/-- A sequence succeeds if its parts do. -/
theorem exists_bind_eq_ok_iff {α β : Type} {x : Except Fault α} {f : α → Except Fault β} :
    (∃ b, x >>= f = .ok b) ↔ ∃ a, x = .ok a ∧ ∃ b, f a = .ok b := by
  simp only [bind_eq_ok_iff]
  exact ⟨fun ⟨b, a, ha, hb⟩ => ⟨a, ha, b, hb⟩, fun ⟨a, ha, b, hb⟩ => ⟨b, a, ha, hb⟩⟩

theorem exists_registerCell_iff {n : Nat} : (∃ p, registerCell n = .ok p) ↔ n < registerCount := by
  simp only [registerCell_eq_ok_iff]
  exact ⟨fun ⟨p, hp⟩ => by omega, fun h => ⟨⟨n, h⟩, rfl⟩⟩

theorem exists_memoryCell_iff {n : Nat} : (∃ p, memoryCell n = .ok p) ↔ n < memorySize := by
  simp only [memoryCell_eq_ok_iff]
  exact ⟨fun ⟨p, hp⟩ => by omega, fun h => ⟨⟨n, h⟩, rfl⟩⟩

namespace Machine

variable {m : Machine} {n : Nat}

theorem exists_readRegister_iff : (∃ byte, m.readRegister n = .ok byte) ↔ n < registerCount := by
  simp only [readRegister_eq_ok_iff]
  exact ⟨fun ⟨_, p, hp, _⟩ => by omega, fun h => ⟨_, ⟨n, h⟩, rfl, rfl⟩⟩

theorem exists_readMemory_iff : (∃ byte, m.readMemory n = .ok byte) ↔ n < memorySize := by
  simp only [readMemory_eq_ok_iff]
  exact ⟨fun ⟨_, p, hp, _⟩ => by omega, fun h => ⟨_, ⟨n, h⟩, rfl, rfl⟩⟩

end Machine

namespace Instruction

variable {i : Instruction} {m : Machine} {program : Program} {index : Nat}

theorem exists_register_iff :
    (∃ n, i.register index = .ok n ∧ n < registerCount) ↔ i.Fills index .register := by
  simp only [register_eq_ok_iff]
  constructor
  · rintro ⟨n, ⟨o, ho, hkind, hn⟩, hbound⟩
    exact ⟨o, ho, hkind, n, hn, hbound⟩
  · rintro ⟨o, ho, hkind, n, hn, hbound⟩
    exact ⟨n, ⟨o, ho, hkind, hn⟩, hbound⟩

theorem exists_address_iff :
    (∃ n, i.address index = .ok n ∧ n < memorySize) ↔ i.Fills index .cell := by
  simp only [address_eq_ok_iff]
  constructor
  · rintro ⟨n, ⟨o, ho, hkind, hn⟩, hbound⟩
    exact ⟨o, ho, hkind, n, hn, hbound⟩
  · rintro ⟨o, ho, hkind, n, hn, hbound⟩
    exact ⟨n, ⟨o, ho, hkind, hn⟩, hbound⟩

theorem exists_value_iff : (∃ v, i.value m index = .ok v) ↔ i.Fills index .value := by
  constructor
  · rintro ⟨v, hv⟩
    obtain ⟨o, ho, hdenotes⟩ := value_eq_ok_iff.1 hv
    refine ⟨o, ho, ?_⟩
    cases hdenotes with
    | contents hkind hn hread =>
      exact .inl ⟨hkind, _, hn, Machine.exists_readRegister_iff.1 ⟨_, hread⟩⟩
    | literal hkind hn => exact .inr ⟨hkind, _, hn⟩
  · rintro ⟨o, ho, hserves⟩
    exact exists_value m ho hserves

theorem number_eq_ok_iff_of {o : Operand} {n : Nat} (ho : i.operands[index]? = some o) :
    i.number index = .ok n ↔ Numeral.parse o.raw = .ok n := by
  simp [number_eq_ok_iff, ho]

theorem exists_shown_iff : (∃ v, i.shown m = .ok v) ↔ i.Fills 0 .shown := by
  rw [shown, exists_bind_eq_ok_iff]
  refine exists_congr fun o => ?_
  rw [operand_zero_eq_ok_iff, List.head?_eq_getElem?, Option.mem_def]
  refine and_congr_right fun ho => ?_
  cases hkind : o.kind with
  | register =>
    simp [exists_bind_eq_ok_iff, number_eq_ok_iff_of ho, Machine.exists_readRegister_iff,
      Operand.Serves, Operand.NamesRegister, Operand.NamesCell, Operand.NumericBelow, hkind]
  | address =>
    simp [exists_bind_eq_ok_iff, number_eq_ok_iff_of ho, Machine.exists_readMemory_iff,
      Operand.Serves, Operand.NamesRegister, Operand.NamesCell, Operand.NumericBelow, hkind]
  | immediate | label =>
    simp [number_eq_ok_iff_of ho, Operand.Serves, Operand.NamesRegister, Operand.NamesCell,
      Operand.Numeric, hkind]

theorem sufficient_iff_pair {first second : Role} (h : i.opcode.roles = [first, second]) :
    i.Sufficient ↔ i.Fills 0 first ∧ i.Fills 1 second := by
  simp [Sufficient, h]

theorem sufficient_iff_single {role : Role} (h : i.opcode.roles = [role]) :
    i.Sufficient ↔ i.Fills 0 role := by
  simp [Sufficient, h]

/-- Unless it is a branch or names its line, an instruction succeeds exactly if its operands are
sufficient. -/
theorem exists_change_iff (hb : i.opcode ≠ .b) (hline : i.namesLine = false) :
    (∃ c, i.change m program = .ok c) ↔ i.Sufficient := by
  unfold change
  cases hopcode : i.opcode with
  | arith op =>
    have hroles : i.Sufficient ↔ i.Fills 0 .register ∧ i.Fills 1 .register ∧ i.Fills 2 .value := by
      simp [Sufficient, hopcode, Opcode.roles]
    simp only [exists_bind_eq_ok_iff, pure_eq_ok, Except.ok.injEq, exists_eq', and_true,
      exists_and_right, exists_registerCell_iff, Machine.exists_readRegister_iff,
      exists_value_iff, hroles, ← exists_register_iff]
    constructor
    · rintro ⟨target, htarget, source, hsource, hsource', hvalue, htarget'⟩
      exact ⟨⟨target, htarget, htarget'⟩, ⟨source, hsource, hsource'⟩, hvalue⟩
    · rintro ⟨⟨target, htarget, htarget'⟩, ⟨source, hsource, hsource'⟩, hvalue⟩
      exact ⟨target, htarget, source, hsource, hsource', hvalue, htarget'⟩
  | ldr =>
    rw [sufficient_iff_pair (by rw [hopcode]; rfl)]
    simp only [exists_bind_eq_ok_iff, pure_eq_ok, Except.ok.injEq, exists_eq', and_true,
      exists_and_right, exists_registerCell_iff, Machine.exists_readMemory_iff,
      ← exists_register_iff, ← exists_address_iff]
    constructor
    · rintro ⟨target, htarget, source, hsource, hsource', htarget'⟩
      exact ⟨⟨target, htarget, htarget'⟩, source, hsource, hsource'⟩
    · rintro ⟨⟨target, htarget, htarget'⟩, source, hsource, hsource'⟩
      exact ⟨target, htarget, source, hsource, hsource', htarget'⟩
  | str =>
    rw [sufficient_iff_pair (by rw [hopcode]; rfl)]
    simp only [exists_bind_eq_ok_iff, pure_eq_ok, Except.ok.injEq, exists_eq', and_true,
      exists_and_right, exists_memoryCell_iff, Machine.exists_readRegister_iff,
      ← exists_register_iff, ← exists_address_iff]
    constructor
    · rintro ⟨source, hsource, hsource', target, htarget, htarget'⟩
      exact ⟨⟨source, hsource, hsource'⟩, target, htarget, htarget'⟩
    · rintro ⟨⟨source, hsource, hsource'⟩, target, htarget, htarget'⟩
      exact ⟨source, hsource, hsource', target, htarget, htarget'⟩
  | mov | mvn =>
    rw [sufficient_iff_pair (by rw [hopcode]; rfl)]
    simp only [exists_bind_eq_ok_iff, pure_eq_ok, Except.ok.injEq, exists_eq', and_true,
      exists_and_right, exists_registerCell_iff, exists_value_iff, ← exists_register_iff]
    constructor
    · rintro ⟨target, htarget, hvalue, htarget'⟩
      exact ⟨⟨target, htarget, htarget'⟩, hvalue⟩
    · rintro ⟨⟨target, htarget, htarget'⟩, hvalue⟩
      exact ⟨target, htarget, hvalue, htarget'⟩
  | cmp =>
    rw [sufficient_iff_pair (by rw [hopcode]; rfl)]
    simp only [exists_bind_eq_ok_iff, pure_eq_ok, Except.ok.injEq, exists_eq', and_true,
      exists_and_right, Machine.exists_readRegister_iff, exists_value_iff, ← exists_register_iff]
    constructor
    · rintro ⟨source, hsource, hsource', hvalue⟩
      exact ⟨⟨source, hsource, hsource'⟩, hvalue⟩
    · rintro ⟨⟨source, hsource, hsource'⟩, hvalue⟩
      exact ⟨source, hsource, hsource', hvalue⟩
  | b => exact absurd hopcode hb
  | label | unknown => simp [namesLine, hopcode] at hline
  | out =>
    rw [sufficient_iff_single (by rw [hopcode]; rfl), ← @exists_shown_iff i m]
    simp only [exists_bind_eq_ok_iff, pure_eq_ok, Except.ok.injEq, exists_eq', and_true]
  | halt | nop =>
    have hroles : i.Sufficient := by simp [Sufficient, hopcode, Opcode.roles]
    exact iff_of_true ⟨_, rfl⟩ hroles

/-- An instruction that names its line asks for no more than its operands to be there. -/
theorem sufficient_iff_of_namesLine (h : i.namesLine = true) :
    i.Sufficient ↔ i.opcode.roles.length ≤ i.operands.length := by
  cases hopcode : i.opcode with
  | label =>
    rw [sufficient_iff_single (by rw [hopcode]; rfl)]
    cases hoperands : i.operands with
    | nil => simp [Fills, Opcode.roles, hoperands]
    | cons o rest => simp [Fills, Operand.Serves, Opcode.roles, hoperands]
  | unknown name => simp [Sufficient, hopcode, Opcode.roles]
  | _ => simp [namesLine, hopcode] at h

/-- What an instruction that names its line does: it lacks its operand, or all is well if the line
can be written. -/
theorem change_of_namesLine (h : i.namesLine = true) (m : Machine) (program : Program) :
    (i.Sufficient ∧ ∃ c, i.change m program = Change.naming program m.pc c) ∨
      (¬ i.Sufficient ∧ i.change m program =
        .error (.missingOperand i.mnemonic 0 i.operands.length)) := by
  rw [sufficient_iff_of_namesLine h]
  cases hopcode : i.opcode with
  | label =>
    have hoperand := i.operand_natCast 0
    simp only [change, hopcode]
    cases hoperands : i.operands with
    | nil =>
      rw [hoperands] at hoperand
      exact .inr ⟨by simp [Opcode.roles], congrArg (· >>= _) hoperand⟩
    | cons o rest =>
      rw [hoperands] at hoperand
      exact .inl ⟨by simp [Opcode.roles], _, congrArg (· >>= _) hoperand⟩
  | unknown name =>
    refine .inl ⟨by simp [Opcode.roles], ?_⟩
    simp only [change, hopcode]
    cases i.operands with
    | nil => exact ⟨_, rfl⟩
    | cons o rest => exact ⟨_, rfl⟩
  | _ => simp [namesLine, hopcode] at h

end Instruction

/-- The fault is about an operand: it is not there, is of the wrong kind, is no number, or names
nothing that the machine has. -/
def Fault.blamesOperand : Fault → Bool
  | .missingOperand .. | .wrongKind .. | .notNumeral .. | .noRegister _ | .noAddress _ => true
  | .numeralTooLong _ | .unknownLabel _ | .badIndex _ | .overrun .. | .stepLimit _
  | .unwritable => false

/-- A fault that is true of an instruction on a new machine in every program is about its
operands. -/
theorem Fault.operand_of_trueOf {fault : Fault} {i : Instruction}
    (h : ∀ program, fault.TrueOf program .new i) :
    fault.blamesOperand = true ∨
      ∃ digits, fault = .numeralTooLong digits ∧ Numeral.digitLimit < digits ∧
        ∃ o ∈ i.operands, (o.raw.toList.takeWhile Char.isDigit).length = digits := by
  cases fault with
  | numeralTooLong digits =>
    obtain ⟨o, ho, hlong⟩ := h #[]
    obtain ⟨hdigits, hlength⟩ := Numeral.parse_eq_tooLong_iff.1 hlong
    exact .inr ⟨digits, rfl, hdigits, o, ho, hlength⟩
  | unknownLabel name =>
    -- No name is unknown to the program that defines it.
    obtain ⟨_, hundefined⟩ := h #[.defineLabel name]
    exact absurd ⟨_, rfl, rfl⟩ (hundefined 0)
  | badIndex cause =>
    obtain ⟨_, hunnamed⟩ := h #[]
    exact absurd (by simp [Program.LabelsNamed]) hunnamed
  | unwritable => exact absurd (h #[]) (Machine.not_holdsUnwritable_new #[])
  | overrun line size => exact (h #[]).elim
  | stepLimit steps => exact (h #[]).elim
  | missingOperand | wrongKind | notNumeral | noRegister | noAddress => exact .inl rfl

/-- Records that name the same line are written or not. -/
theorem Change.naming_sameVerdict (program : Program) (line : Int) (c c' : Change) :
    SameVerdict (naming program line c) (naming program line c') := by
  unfold naming
  split_ifs
  · exact .ok _ _
  · exact .error _

namespace Instruction

variable {i : Instruction} {m m' : Machine} {program program' : Program} {fault : Fault}

/-- An instruction that neither branches nor names its line fails because of its operands. -/
theorem operand_of_change (hb : i.opcode ≠ .b) (hline : i.namesLine = false)
    (h : i.change m program = .error fault) :
    fault.blamesOperand = true ∨
      ∃ digits, fault = .numeralTooLong digits ∧ Numeral.digitLimit < digits ∧
        ∃ o ∈ i.operands, (o.raw.toList.takeWhile Char.isDigit).length = digits := by
  -- The fault is the same on a new machine in any program, so it is true there.
  refine Fault.operand_of_trueOf fun program' => ?_
  have hsame := (SameText.refl i).change hb hline m .new program program'
  rw [h] at hsame
  generalize hnew : i.change .new program' = verdict at hsame
  cases hsame
  exact raises_change_of_target (fun hopcode => absurd hopcode hb) fault hnew

/-- Unless it is a branch, an instruction fails for want of a line that can be written exactly if
nothing else is wrong. -/
theorem change_eq_unwritable_iff (hb : i.opcode ≠ .b) :
    i.change m program = .error .unwritable ↔ i.Sufficient ∧ ¬ i.CanTell m program := by
  cases hline : i.namesLine with
  | false =>
    refine iff_of_false (fun h => ?_) (fun h => h.2 (by simp [CanTell, hline]))
    rcases operand_of_change hb hline h with hblamed | ⟨_, hlong, _⟩
    · simp [Fault.blamesOperand] at hblamed
    · simp at hlong
  | true =>
    rcases change_of_namesLine hline m program with ⟨hsufficient, c, hc⟩ | ⟨hlacks, hmissing⟩
    · simp [hc, Change.naming_eq_error_iff, hsufficient, CanTell, hline]
    · simp [hmissing, hlacks]

/-- Unless it is a branch, an instruction succeeds exactly if its operands are sufficient and it
can tell the line if it has to. -/
theorem exists_change_iff_canTell (hb : i.opcode ≠ .b) :
    (∃ c, i.change m program = .ok c) ↔ i.Sufficient ∧ i.CanTell m program := by
  cases hline : i.namesLine with
  | false => simp [exists_change_iff hb hline, CanTell, hline]
  | true =>
    rcases change_of_namesLine hline m program with ⟨hsufficient, c, hc⟩ | ⟨hlacks, hmissing⟩
    · simp [hc, Change.naming_eq_ok_iff, hsufficient, CanTell, hline]
    · simp [hmissing, hlacks]

/-- What a fault of an instruction that is no branch is about. -/
theorem fault_of_change (hb : i.opcode ≠ .b) (h : i.change m program = .error fault) :
    fault.blamesOperand = true ∨
      (∃ digits, fault = .numeralTooLong digits ∧ Numeral.digitLimit < digits ∧
        ∃ o ∈ i.operands, (o.raw.toList.takeWhile Char.isDigit).length = digits) ∨
      fault = .unwritable := by
  cases hline : i.namesLine with
  | false => exact (operand_of_change hb hline h).imp_right .inl
  | true =>
    rcases change_of_namesLine hline m program with ⟨_, c, hc⟩ | ⟨_, hmissing⟩
    · exact .inr (.inr (Change.naming_eq_error_iff.1 (hc.symm.trans h)).2)
    · obtain rfl := Except.error.inj (hmissing.symm.trans h)
      exact .inl rfl

/-- Unless it is a branch, an instruction gets the same verdict wherever it does not fail for want
of a line that can be written. -/
theorem change_sameVerdict (hb : i.opcode ≠ .b) (hm : i.change m program ≠ .error .unwritable)
    (hm' : i.change m' program' ≠ .error .unwritable) :
    SameVerdict (i.change m program) (i.change m' program') := by
  cases hline : i.namesLine with
  | false => exact (SameText.refl i).change hb hline m m' program program'
  | true =>
    by_cases hsufficient : i.Sufficient
    · rw [Ne, change_eq_unwritable_iff hb, not_and_not_right] at hm hm'
      obtain ⟨c, hc⟩ := (exists_change_iff_canTell hb).2 ⟨hsufficient, hm hsufficient⟩
      obtain ⟨c', hc'⟩ := (exists_change_iff_canTell hb).2 ⟨hsufficient, hm' hsufficient⟩
      rw [hc, hc']
      exact .ok c c'
    · have hmissing (n : Machine) (within : Program) : i.change n within =
          .error (.missingOperand i.mnemonic 0 i.operands.length) := by
        rcases change_of_namesLine hline n within with ⟨h, _⟩ | ⟨_, h⟩
        · exact absurd h hsufficient
        · exact h
      rw [hmissing m program, hmissing m' program']
      exact .error _

/-- Operands beyond those that are read make no difference. -/
theorem change_append_sameVerdict (hb : i.opcode ≠ .b)
    (hcount : i.opcode.roles.length ≤ i.operands.length) (extra : List Operand) :
    SameVerdict (i.change m program)
      ({ i with operands := i.operands ++ extra }.change m program) := by
  cases hline : i.namesLine with
  | false => exact (SameText.append hcount extra).change hb hline m m program program
  | true =>
    have hcount' : i.opcode.roles.length ≤ (i.operands ++ extra).length := by
      rw [List.length_append]
      omega
    have hlonger : { i with operands := i.operands ++ extra }.namesLine = true := hline
    rcases change_of_namesLine hline m program with ⟨_, c, hc⟩ | ⟨hlacks, _⟩
    · rcases change_of_namesLine hlonger m program with ⟨_, c', hc'⟩ | ⟨hlacks, _⟩
      · rw [hc, hc']
        exact Change.naming_sameVerdict program m.pc c c'
      · exact absurd ((sufficient_iff_of_namesLine hlonger).2 hcount') hlacks
    · exact absurd ((sufficient_iff_of_namesLine hline).2 hcount) hlacks

end Instruction

/-- How an attempt came out, apart from what it has done. -/
def Attempt.verdict : Attempt → Except Fault Unit
  | .ok _ _ => .ok ()
  | .error fault _ => .error fault

namespace Machine

variable {m m' : Machine} {program program' : Program} {i i' : Instruction}

theorem verdict_execute :
    (m.execute program i).verdict = (i.change m program).map fun _ => () := by
  rw [execute_eq]
  cases i.change m program with
  | ok c => rfl
  | error fault => rfl

theorem verdict_execute_eq_ok_iff :
    (m.execute program i).verdict = .ok () ↔ ∃ c, i.change m program = .ok c := by
  rw [verdict_execute]
  cases i.change m program with
  | ok c => simp [Except.map]
  | error fault => simp [Except.map]

theorem verdict_execute_eq_error_iff {fault : Fault} :
    (m.execute program i).verdict = .error fault ↔ i.change m program = .error fault := by
  rw [verdict_execute]
  cases i.change m program with
  | ok c => simp [Except.map]
  | error cause => simp [Except.map]

theorem verdict_execute_congr (h : SameVerdict (i.change m program) (i'.change m' program')) :
    (m'.execute program' i').verdict = (m.execute program i).verdict := by
  rw [verdict_execute, verdict_execute]
  revert h
  generalize i.change m program = x
  generalize i'.change m' program' = y
  rintro (⟨c, c'⟩ | fault)
  · rfl
  · rfl

end Machine

/-- Whether an instruction that is no branch fails, and with which fault, is decided by its text:
it is the same on all machines and in all programs, except where the instruction would succeed but
has to tell a line that cannot be written. It succeeds exactly if its operands are sufficient and
it can tell the line if it has to. Otherwise the fault is about an operand, or some operand starts
with more digits than are read, or it is the one exception. Operands beyond those that the
operation reads make no difference. -/
theorem text_decides_failure {i : Instruction} (hb : i.opcode ≠ .b) :
    (∀ m m' : Machine, ∀ program program' : Program,
      (m.execute program i).verdict ≠ .error .unwritable →
      (m'.execute program' i).verdict ≠ .error .unwritable →
      (m'.execute program' i).verdict = (m.execute program i).verdict) ∧
    ∀ (m : Machine) (program : Program),
      ((m.execute program i).verdict = .ok () ↔ i.Sufficient ∧ i.CanTell m program) ∧
      ((m.execute program i).verdict = .error .unwritable ↔
        i.Sufficient ∧ ¬ i.CanTell m program) ∧
      (∀ fault, (m.execute program i).verdict = .error fault →
        fault.blamesOperand = true ∨
          (∃ digits, fault = .numeralTooLong digits ∧ Numeral.digitLimit < digits ∧
            ∃ o ∈ i.operands, (o.raw.toList.takeWhile Char.isDigit).length = digits) ∨
          fault = .unwritable) ∧
      (i.opcode.roles.length ≤ i.operands.length → ∀ extra : List Operand,
        (m.execute program { i with operands := i.operands ++ extra }).verdict =
          (m.execute program i).verdict) := by
  simp only [Machine.verdict_execute_eq_ok_iff, Machine.verdict_execute_eq_error_iff, ne_eq]
  refine ⟨fun m m' program program' hm hm' => ?_, fun m program => ⟨?_, ?_, ?_, ?_⟩⟩
  · exact Machine.verdict_execute_congr (Instruction.change_sameVerdict hb hm hm')
  · exact Instruction.exists_change_iff_canTell hb
  · exact Instruction.change_eq_unwritable_iff hb
  · exact fun fault hfault => Instruction.fault_of_change hb hfault
  · intro hcount extra
    exact Machine.verdict_execute_congr (Instruction.change_append_sameVerdict hb hcount extra)

/-- Puts out the number that is written as a name, and has an operand to spare. -/
def spared : Instruction := ⟨.out, none, [⟨.label, "7"⟩, ⟨.register, "99"⟩]⟩

/-- Loads from the first address beyond the memory. -/
def misaimed : Instruction := ⟨.ldr, none, [⟨.register, "12"⟩, ⟨.address, "255"⟩]⟩

/-- A machine that has halted far from any program. -/
def stranded : Machine := { Machine.new with pc := -40, halted := true, steps := 9 }

theorem text_decides_failure_misaimed :
    spared.opcode ≠ .b ∧ misaimed.opcode ≠ .b ∧ spared.Sufficient ∧ ¬ misaimed.Sufficient ∧
      (stranded.execute #[spared] spared).verdict = .ok () ∧
      (stranded.execute #[spared] misaimed).verdict = .error (.noAddress 255) := by
  have hspared : spared.opcode ≠ .b := by decide
  have hmisaimed : misaimed.opcode ≠ .b := by decide
  have hsufficient : spared.Sufficient := by decide
  have hnew : (Machine.new.execute #[] misaimed).verdict = .error (.noAddress 255) := rfl
  obtain ⟨hsame, hverdict⟩ := text_decides_failure hmisaimed
  refine ⟨hspared, hmisaimed, hsufficient, fun h => ?_, ?_, ?_⟩
  · have hok := (hverdict Machine.new #[]).1.2 ⟨h, by decide⟩
    simp [hnew] at hok
  · exact ((text_decides_failure hspared).2 stranded #[spared]).1.2 ⟨hsufficient, by decide⟩
  · rw [← hnew]
    refine hsame Machine.new stranded #[] #[spared] (by simp [hnew]) fun h => ?_
    exact ((hverdict stranded #[spared]).2.1.1 h).2 (by decide)

/-- A machine on a line that cannot be written. -/
def Machine.lost : Machine := { Machine.new with pc := -10 ^ Numeral.digitLimit }

theorem Machine.writableLine_lost : Numeral.writableLine 0 lost.pc = false := by
  have hten : (10 : Int).natAbs = 10 := rfl
  have hpc : lost.pc = -10 ^ Numeral.digitLimit := rfl
  rw [Numeral.writableLine_eq_false_iff, hpc, Int.natAbs_neg, Int.natAbs_pow, hten]
  exact ⟨Nat.pow_pos (by decide), Nat.le_refl _⟩

theorem Instruction.change_defineLabel (name : String) (m : Machine) (program : Program) :
    (defineLabel name).change m program = Change.naming program m.pc (.label name m.pc) := rfl

/-- A label can be defined on a new machine, and not on a lost one. -/
theorem verdict_differs_of_lost :
    (Machine.new.execute #[] (.defineLabel "y")).verdict = .ok () ∧
      (Machine.lost.execute #[] (.defineLabel "y")).verdict = .error .unwritable ∧
      ∀ o ∈ (Instruction.defineLabel "y").operands, o.Bounded := by
  refine ⟨rfl, ?_, by decide⟩
  rw [Machine.verdict_execute_eq_error_iff, Instruction.change_defineLabel,
    Change.naming_eq_error_iff]
  exact ⟨Machine.writableLine_lost, rfl⟩

end ByteMachine
