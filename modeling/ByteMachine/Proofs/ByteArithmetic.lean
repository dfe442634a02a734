import ByteMachine.Proofs.Comparison

/-!
# Arithmetic on words of eight bits

The machine computes with integers of any size, some of them negative, and only
the byte that it stores wraps around. The result is the one that arithmetic on
words of eight bits gives: sums, differences and bitwise operations may be
reduced first, and a shift clears the word where the machine does not shift at
all. A comparison is different. It reduces nothing, so a number beyond the bytes
is never equal to the register that it was moved to.
-/
namespace ByteMachine

/-- The operations on words of eight bits. The second value is reduced to a word, unless it counts
the places of a shift. -/
def ArithOp.onWords (op : ArithOp) (a : BitVec 8) (n : Nat) : BitVec 8 :=
  match op with
  | .add => a + .ofNat 8 n
  | .sub => a - .ofNat 8 n
  | .and => a &&& .ofNat 8 n
  | .orr => a ||| .ofNat 8 n
  | .xor => a ^^^ .ofNat 8 n
  | .lsl => .ofNat 8 (a.toNat * 2 ^ n)
  | .lsr => .ofNat 8 (a.toNat / 2 ^ n)

theorem toBitVec_wrap (value : Int) : (wrap value).toBitVec = BitVec.ofInt 8 value := by
  apply BitVec.eq_of_toNat_eq
  have hwrap := toNat_wrap value
  rw [BitVec.toNat_ofInt, UInt8.toNat_toBitVec]
  omega

theorem ofInt_shiftLeft (a : BitVec 8) (n : Nat) :
    BitVec.ofInt 8 (shiftLeft a.toNat n) = .ofNat 8 (a.toNat * 2 ^ n) := by
  unfold shiftLeft
  split
  · rw [Nat.one_shiftLeft, ← Int.natCast_mul, BitVec.ofInt_natCast]
  · next hlong =>
    have hword : 2 ^ byteBits ∣ a.toNat * 2 ^ n :=
      Dvd.dvd.mul_left (Nat.pow_dvd_pow 2 (Nat.not_lt.1 hlong)) a.toNat
    apply BitVec.eq_of_toNat_eq
    simpa [byteBits] using (Nat.mod_eq_zero_of_dvd hword).symm

theorem ofInt_shiftRight (a : BitVec 8) (n : Nat) :
    BitVec.ofInt 8 (shiftRight a.toNat n) = .ofNat 8 (a.toNat / 2 ^ n) := by
  unfold shiftRight
  split
  · rw [Nat.one_shiftLeft, ← Int.natCast_ediv, BitVec.ofInt_natCast]
  · next hlong =>
    have hsmall : a.toNat < 2 ^ n :=
      a.isLt.trans_le (Nat.pow_le_pow_right (by decide) (Nat.not_lt.1 hlong))
    rw [Nat.div_eq_of_lt hsmall]
    rfl

/-- The result of an operation, reduced to a word, is the result on words. -/
theorem ArithOp.ofInt_eval (op : ArithOp) (a : BitVec 8) (n : Nat) :
    BitVec.ofInt 8 (op.eval a.toNat n) = op.onWords a n := by
  have hword : BitVec.ofNat 8 a.toNat = a := by rw [BitVec.ofNat_toNat, BitVec.setWidth_eq]
  cases op with
  | add =>
    rw [eval, BitVec.ofInt_add, BitVec.ofInt_natCast, BitVec.ofInt_natCast, hword]
    rfl
  | sub =>
    rw [eval, Int.sub_eq_add_neg, BitVec.ofInt_add, BitVec.ofInt_neg, BitVec.ofInt_natCast,
      BitVec.ofInt_natCast, hword, ← BitVec.sub_eq_add_neg]
    rfl
  | and =>
    rw [eval, BitVec.ofInt_natCast, BitVec.ofNat_and, hword]
    rfl
  | orr =>
    rw [eval, BitVec.ofInt_natCast, BitVec.ofNat_or, hword]
    rfl
  | xor =>
    rw [eval, BitVec.ofInt_natCast, BitVec.ofNat_xor, hword]
    rfl
  | lsl => exact ofInt_shiftLeft a n
  | lsr => exact ofInt_shiftRight a n

theorem ofInt_complement (n : Nat) : BitVec.ofInt 8 (complement n) = ~~~ BitVec.ofNat 8 n := by
  apply BitVec.eq_of_toNat_eq
  rw [BitVec.toNat_ofInt, BitVec.toNat_not, BitVec.toNat_ofNat, complement]
  omega

namespace Machine

/-- The contents of a register, as a word. -/
def word (m : Machine) (p : Fin registerCount) : BitVec 8 := (m.registers.get p).toBitVec

/-- The machine with another word in a register, and everything else as it was. -/
def setWord (m : Machine) (p : Fin registerCount) (w : BitVec 8) : Machine :=
  { m with registers := m.registers.set p ⟨w⟩ p.isLt }

variable (m : Machine) (p q : Fin registerCount) (w : BitVec 8)

@[simp] theorem word_setWord : (m.setWord p w).word q = if p = q then w else m.word q := by
  rw [word, setWord, get_set]
  split <;> rfl

theorem readRegister_val : m.readRegister p.val = .ok (m.registers.get p) :=
  readRegister_eq_ok_iff.2 ⟨p, rfl, rfl⟩

theorem apply_register (value : Int) :
    (Change.register p value).apply m = { machine := m.setWord p (.ofInt 8 value) } := by
  rw [Change.apply, setWord, ← toBitVec_wrap]

end Machine

namespace Instruction

/-- The operand at the index is the register. -/
def HasRegister (i : Instruction) (index : Nat) (p : Fin registerCount) : Prop :=
  ∃ o, i.operands[index]? = some o ∧ o.kind = .register ∧ Numeral.parse o.raw = .ok p.val

/-- The operand at the index is the immediate value. -/
def HasLiteral (i : Instruction) (index n : Nat) : Prop :=
  ∃ o, i.operands[index]? = some o ∧ o.kind = .immediate ∧ Numeral.parse o.raw = .ok n

/-- The operand at the index stands for the number on the machine. -/
def HasValue (i : Instruction) (m : Machine) (index n : Nat) : Prop :=
  ∃ o, i.operands[index]? = some o ∧ o.Denotes m n

variable {i : Instruction} {m : Machine} {program : Program} {index n : Nat}
  {target source : Fin registerCount}

theorem HasLiteral.hasValue (h : i.HasLiteral index n) (m : Machine) : i.HasValue m index n := by
  obtain ⟨o, ho, hkind, hn⟩ := h
  exact ⟨o, ho, .literal hkind hn⟩

theorem HasRegister.register (h : i.HasRegister index target) :
    i.register index = .ok target.val :=
  register_eq_ok_iff.2 h

theorem HasValue.value (h : i.HasValue m index n) : i.value m index = .ok n :=
  value_eq_ok_iff.2 h

end Instruction

namespace Machine

variable (m : Machine) (program : Program) {i : Instruction} {n : Nat}
  {target source : Fin registerCount}

theorem execute_register {value : Int} (h : i.change m program = .ok (.register target value)) :
    m.execute program i = .ok () { machine := m.setWord target (.ofInt 8 value) } := by
  rw [execute_eq, h, settle, apply_register]

theorem execute_arith {op : ArithOp} (hopcode : i.opcode = .arith op)
    (htarget : i.HasRegister 0 target) (hsource : i.HasRegister 1 source)
    (hvalue : i.HasValue m 2 n) :
    m.execute program i =
      .ok () { machine := m.setWord target (op.onWords (m.word source) n) } := by
  rw [← op.ofInt_eval]
  apply execute_register
  rw [Instruction.change, hopcode]
  simp only [htarget.register, hsource.register, hvalue.value, bind, Except.bind,
    readRegister_val, registerCell_eq_ok_iff.2 rfl]
  rfl

theorem execute_mov (hopcode : i.opcode = .mov) (htarget : i.HasRegister 0 target)
    (hvalue : i.HasValue m 1 n) :
    m.execute program i = .ok () { machine := m.setWord target (.ofNat 8 n) } := by
  rw [← BitVec.ofInt_natCast]
  apply execute_register
  rw [Instruction.change, hopcode]
  simp only [htarget.register, hvalue.value, bind, Except.bind, registerCell_eq_ok_iff.2 rfl]
  rfl

theorem execute_mvn (hopcode : i.opcode = .mvn) (htarget : i.HasRegister 0 target)
    (hvalue : i.HasValue m 1 n) :
    m.execute program i = .ok () { machine := m.setWord target (~~~ .ofNat 8 n) } := by
  rw [← ofInt_complement]
  apply execute_register
  rw [Instruction.change, hopcode]
  simp only [htarget.register, hvalue.value, bind, Except.bind, registerCell_eq_ok_iff.2 rfl]
  rfl

theorem execute_cmp (hopcode : i.opcode = .cmp) (hsource : i.HasRegister 0 source)
    (hvalue : i.HasValue m 1 n) :
    m.execute program i =
      .ok () { machine := m.setFlags (Execution.comparison (m.word source).toNat n) } := by
  rw [execute_eq, Instruction.change, hopcode]
  simp only [hsource.register, hvalue.value, bind, Except.bind, readRegister_val]
  rfl

end Machine

/-- A byte compared with the number that it was made of. -/
theorem comparison_ofNat (n : Nat) :
    Execution.comparison (BitVec.ofNat 8 n).toNat n = if n ≤ 255 then [.eq] else [.ne, .lt] := by
  rw [BitVec.toNat_ofNat, Execution.comparison]
  by_cases hbyte : n ≤ 255
  · have hsame : n % 2 ^ 8 = n := by omega
    rw [if_pos hsame, if_pos hbyte]
  · have hless : n % 2 ^ 8 < n := by omega
    rw [if_neg hless.ne, if_pos hless, if_neg hbyte]

/-- The machine computes as words of eight bits do, whatever size the second value has and
whichever of the registers coincide: the words on the right are those of the machine before the
instruction. Comparisons do not reduce the second value, so that a number which has been moved to a
register is equal to the register only if it is a byte. -/
theorem byte_arithmetic_is_exact (m : Machine) (program : Program) (target : Fin registerCount) :
    (∀ (i : Instruction) (op : ArithOp) (source : Fin registerCount) (n : Nat),
      i.opcode = .arith op → i.HasRegister 0 target → i.HasRegister 1 source → i.HasValue m 2 n →
        m.execute program i =
          .ok () { machine := m.setWord target (op.onWords (m.word source) n) }) ∧
      (∀ (i : Instruction) (n : Nat),
        i.opcode = .mov → i.HasRegister 0 target → i.HasValue m 1 n →
          m.execute program i = .ok () { machine := m.setWord target (.ofNat 8 n) }) ∧
      (∀ (i : Instruction) (n : Nat),
        i.opcode = .mvn → i.HasRegister 0 target → i.HasValue m 1 n →
          m.execute program i = .ok () { machine := m.setWord target (~~~ .ofNat 8 n) }) ∧
      (∀ (i : Instruction) (n : Nat),
        i.opcode = .cmp → i.HasRegister 0 target → i.HasValue m 1 n →
          ∃ raised, m.execute program i = .ok () { machine := m.setFlags raised } ∧
            ∀ flag, flag ∈ raised ↔ flag.Holds (m.word target).toNat n) ∧
      ∀ (move compare : Instruction) (n : Nat),
        move.opcode = .mov → move.HasRegister 0 target → move.HasLiteral 1 n →
          compare.opcode = .cmp → compare.HasRegister 0 target → compare.HasLiteral 1 n →
            ∃ moved compared, m.execute program move = .ok () moved ∧
              moved.machine.execute program compare = .ok () compared ∧
              compared.machine.flags = .ofList (if n ≤ 255 then [.eq] else [.ne, .lt]) := by
  refine ⟨?_, ?_, ?_, ?_, ?_⟩
  · intro i op source n hopcode htarget hsource hvalue
    exact m.execute_arith program hopcode htarget hsource hvalue
  · intro i n hopcode htarget hvalue
    exact m.execute_mov program hopcode htarget hvalue
  · intro i n hopcode htarget hvalue
    exact m.execute_mvn program hopcode htarget hvalue
  · intro i n hopcode htarget hvalue
    exact ⟨_, m.execute_cmp program hopcode htarget hvalue, fun _ => Execution.mem_comparison_iff⟩
  · intro move compare n hmov hmoveTarget hmoveValue hcmp hcompareTarget hcompareValue
    have hmoved := m.execute_mov program hmov hmoveTarget (hmoveValue.hasValue m)
    have hcompared := (m.setWord target (.ofNat 8 n)).execute_cmp program hcmp hcompareTarget
      (hcompareValue.hasValue _)
    refine ⟨_, _, hmoved, hcompared, ?_⟩
    rw [Machine.word_setWord, if_pos rfl, comparison_ofNat]
    rfl

/-- The second register. -/
def accumulator : Fin registerCount := ⟨1, by decide⟩

/-- A machine with something in this register. -/
def laden : Machine := Machine.new.setWord accumulator 200#8

/-- A difference that goes below zero and replaces its own first part, and a number beyond the bytes
that is moved and then compared. -/
theorem byte_arithmetic_is_exact_laden :
    laden.execute #[]
          ⟨.arith .sub, none, [⟨.register, "1"⟩, ⟨.register, "01"⟩, ⟨.immediate, "300"⟩]⟩ =
        .ok () { machine := laden.setWord accumulator 156#8 } ∧
      ∃ moved compared,
        laden.execute #[] ⟨.mov, none, [⟨.register, "1"⟩, ⟨.immediate, "300"⟩]⟩ = .ok () moved ∧
        moved.machine.execute #[] ⟨.cmp, none, [⟨.register, "1"⟩, ⟨.immediate, "300"⟩]⟩ =
          .ok () compared ∧
        compared.machine.flags = .ofList [.ne, .lt] := by
  obtain ⟨harith, _, _, _, hcompare⟩ := byte_arithmetic_is_exact laden #[] accumulator
  have hwords : ArithOp.sub.onWords (laden.word accumulator) 300 = 156#8 := by
    rw [laden, Machine.word_setWord, if_pos rfl]
    rfl
  rw [← hwords]
  exact ⟨harith _ .sub accumulator 300 rfl ⟨_, rfl, rfl, rfl⟩ ⟨_, rfl, rfl, rfl⟩
      ⟨_, rfl, .literal rfl rfl⟩,
    hcompare _ _ 300 rfl ⟨_, rfl, rfl, rfl⟩ ⟨_, rfl, rfl, rfl⟩ rfl ⟨_, rfl, rfl, rfl⟩
      ⟨_, rfl, rfl, rfl⟩⟩

end ByteMachine
