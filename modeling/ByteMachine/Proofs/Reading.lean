import ByteMachine.Proofs.Origin

/-!
# What an instruction reads

An instruction looks at no more of the storage than its operands name: the
registers behind the mark of a register, and the cells of memory whose address
is an operand. Where two machines hold the same there, it makes the same change
on both or fails on both in the same way, as long as they also have the same
flags, the same labels and the same line.
-/
namespace ByteMachine

/-- The rest of a sequence matters only for what its first part gives. -/
theorem bind_congr_of_ok {ε α β : Type} {x : Except ε α} {f g : α → Except ε β}
    (h : ∀ a, x = .ok a → f a = g a) : x >>= f = x >>= g := by
  cases x with
  | error fault => rfl
  | ok a => exact h a rfl

/-- What an operand stands for on a machine: the contents of a register, or the number itself,
which need not be a byte. -/
inductive Operand.Denotes (o : Operand) (m : Machine) : Nat → Prop where
  | contents {n : Nat} {byte : UInt8} (kind : o.kind = .register)
      (number : Numeral.parse o.raw = .ok n) (read : m.readRegister n = .ok byte) :
      Denotes o m byte.toNat
  | literal {n : Nat} (kind : o.kind = .immediate) (number : Numeral.parse o.raw = .ok n) :
      Denotes o m n

theorem Operand.Denotes.unique {o : Operand} {m : Machine} {a b : Nat} (ha : o.Denotes m a)
    (hb : o.Denotes m b) : a = b := by
  cases ha <;> cases hb <;> simp_all

namespace Instruction

/-- An operand of the kind has the number. -/
def Names (i : Instruction) (kind : OperandKind) (n : Nat) : Prop :=
  ∃ o ∈ i.operands, o.kind = kind ∧ Numeral.parse o.raw = .ok n

/-- The second machine holds what the first one does, wherever the instruction may look. -/
structure ReadsAlike (i : Instruction) (m m' : Machine) : Prop where
  registers : ∀ n : Nat, i.Names .register n → m'.readRegister n = m.readRegister n
  memory : ∀ n : Nat, i.Names .address n → m'.readMemory n = m.readMemory n

variable {i : Instruction} {m m' : Machine} {program : Program} {index n : Nat}

/-- Machines with the same storage. -/
theorem ReadsAlike.of_storage (hregisters : m'.registers = m.registers)
    (hmemory : m'.memory = m.memory) : i.ReadsAlike m m' where
  registers n _ := by rw [Machine.readRegister, Machine.readRegister, hregisters]
  memory n _ := by rw [Machine.readMemory, Machine.readMemory, hmemory]

theorem kindAmong_eq_ok_iff {expected : List OperandKind} {kind : OperandKind} :
    i.kindAmong index expected = .ok kind ↔
      ∃ o, i.operands[index]? = some o ∧ o.kind = kind ∧ kind ∈ expected := by
  simp only [kindAmong, bind_eq_ok_iff, operand_eq_ok_iff]
  refine exists_congr fun o => and_congr_right fun _ => ?_
  by_cases hkind : o.kind ∈ expected
  · simp only [hkind, if_true, pure_eq_ok, Except.ok.injEq]
    constructor
    · rintro rfl
      exact ⟨rfl, hkind⟩
    · exact And.left
  · simp only [hkind, if_false, throw_eq_error, reduceCtorEq, false_iff]
    rintro ⟨rfl, hmem⟩
    exact hkind hmem

/-- An operand of one kind, and the number in it. -/
theorem number_of_kind_eq_ok_iff {kind : OperandKind} :
    (do let _ ← i.kindAmong index [kind]; i.number index) = .ok n ↔
      ∃ o, i.operands[index]? = some o ∧ o.kind = kind ∧ Numeral.parse o.raw = .ok n := by
  simp only [bind_eq_ok_iff, kindAmong_eq_ok_iff, number_eq_ok_iff, List.mem_singleton]
  constructor
  · rintro ⟨_, ⟨o, ho, rfl, hkind⟩, o', ho', hn⟩
    obtain rfl := Option.some.inj (ho.symm.trans ho')
    exact ⟨o, ho, hkind, hn⟩
  · rintro ⟨o, ho, hkind, hn⟩
    exact ⟨kind, ⟨o, ho, hkind, rfl⟩, o, ho, hn⟩

theorem register_eq_ok_iff :
    i.register index = .ok n ↔
      ∃ o, i.operands[index]? = some o ∧ o.kind = .register ∧ Numeral.parse o.raw = .ok n :=
  number_of_kind_eq_ok_iff

theorem address_eq_ok_iff :
    i.address index = .ok n ↔
      ∃ o, i.operands[index]? = some o ∧ o.kind = .address ∧ Numeral.parse o.raw = .ok n :=
  number_of_kind_eq_ok_iff

/-- A value is what the operand stands for. -/
theorem value_eq_ok_iff {v : Nat} :
    i.value m index = .ok v ↔ ∃ o, i.operands[index]? = some o ∧ o.Denotes m v := by
  rw [value, bind_eq_ok_iff]
  constructor
  · rintro ⟨kind, hkind, h⟩
    obtain ⟨o, ho, rfl, hmem⟩ := kindAmong_eq_ok_iff.1 hkind
    refine ⟨o, ho, ?_⟩
    have hnumber {n : Nat} (hn : i.number index = .ok n) : Numeral.parse o.raw = .ok n := by
      obtain ⟨o', ho', hparse⟩ := number_eq_ok_iff.1 hn
      rwa [Option.some.inj (ho.symm.trans ho')]
    rcases List.mem_pair.1 hmem with hkind | hkind
    · simp only [hkind, bind_eq_ok_iff] at h
      obtain ⟨n, hn, byte, hbyte, hv⟩ := h
      obtain rfl := Except.ok.inj hv
      exact .contents hkind (hnumber hn) hbyte
    · simp only [hkind] at h
      exact .literal hkind (hnumber h)
  · rintro ⟨o, ho, h⟩
    refine ⟨o.kind, kindAmong_eq_ok_iff.2 ⟨o, ho, rfl, ?_⟩, ?_⟩
    · cases h with
      | contents hkind => simp [hkind]
      | literal hkind => simp [hkind]
    · cases h with
      | contents hkind hn hread =>
        simp only [hkind, bind_eq_ok_iff]
        exact ⟨_, number_eq_ok_iff.2 ⟨o, ho, hn⟩, _, hread, rfl⟩
      | literal hkind hn =>
        simp only [hkind]
        exact number_eq_ok_iff.2 ⟨o, ho, hn⟩

theorem names_of_number {kind : OperandKind} {o : Operand} (ho : i.operands[index]? = some o)
    (hkind : o.kind = kind) (hn : i.number index = .ok n) : i.Names kind n := by
  obtain ⟨o', ho', hparse⟩ := number_eq_ok_iff.1 hn
  obtain rfl := Option.some.inj (ho.symm.trans ho')
  exact ⟨o, List.mem_of_getElem? ho, hkind, hparse⟩

theorem names_of_register (h : i.register index = .ok n) : i.Names .register n := by
  obtain ⟨o, ho, hkind, hn⟩ := register_eq_ok_iff.1 h
  exact ⟨o, List.mem_of_getElem? ho, hkind, hn⟩

theorem names_of_address (h : i.address index = .ok n) : i.Names .address n := by
  obtain ⟨o, ho, hkind, hn⟩ := address_eq_ok_iff.1 h
  exact ⟨o, List.mem_of_getElem? ho, hkind, hn⟩

variable (i)

theorem value_congr (h : i.ReadsAlike m m') (index : Nat) : i.value m' index = i.value m index := by
  refine bind_congr_of_ok fun kind hkind => ?_
  obtain ⟨o, ho, hsame, _⟩ := kindAmong_eq_ok_iff.1 hkind
  cases kind with
  | register =>
    refine bind_congr_of_ok fun n hn => ?_
    rw [h.registers n (names_of_number ho hsame hn)]
  | immediate | address | label => rfl

theorem shown_congr (h : i.ReadsAlike m m') : i.shown m' = i.shown m := by
  refine bind_congr_of_ok fun o ho => ?_
  have hhead := (@operand_eq_ok_iff i 0 o).1 ho
  cases hkind : o.kind with
  | register =>
    refine bind_congr_of_ok fun n hn => ?_
    rw [h.registers n (names_of_number hhead hkind hn)]
  | address =>
    refine bind_congr_of_ok fun n hn => ?_
    rw [h.memory n (names_of_number hhead hkind hn)]
  | immediate | label => rfl

theorem target_congr (h : i.ReadsAlike m m') (hlabels : m'.labels = m.labels)
    (hpc : m'.pc = m.pc) : i.target m' program = i.target m program := by
  have hlabel (name : String) : m'.label? name = m.label? name := by
    rw [Machine.label?, Machine.label?, hlabels]
  simp only [target, seek, value_congr i h, hlabel, hpc]

/-- An instruction reads the storage that it names. Only a branch looks at the flags and the labels,
and nothing looks at the step counter. -/
theorem change_congr (h : i.ReadsAlike m m') (hflags : m'.flags = m.flags) (hpc : m'.pc = m.pc)
    (htarget : i.opcode = .b → i.target m' program = i.target m program) :
    i.change m' program = i.change m program := by
  unfold change
  cases hopcode : i.opcode with
  | arith op =>
    refine bind_congr_of_ok fun target _ => bind_congr_of_ok fun source hsource => ?_
    rw [h.registers source (names_of_register hsource), value_congr i h]
  | ldr =>
    refine bind_congr_of_ok fun target _ => bind_congr_of_ok fun source hsource => ?_
    rw [h.memory source (names_of_address hsource)]
  | str =>
    refine bind_congr_of_ok fun source hsource => ?_
    rw [h.registers source (names_of_register hsource)]
  | cmp =>
    refine bind_congr_of_ok fun source hsource => ?_
    rw [h.registers source (names_of_register hsource), value_congr i h]
  | mov | mvn => simp only [value_congr i h]
  | b => simp only [hflags, htarget hopcode]
  | out => simp only [shown_congr i h]
  | label | unknown => simp only [hpc]
  | halt | nop => rfl

end Instruction

end ByteMachine
