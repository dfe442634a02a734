import ByteMachine.Proofs.Verdict
import ByteMachine.Proofs.WrappedSearch

/-!
# Where a branch goes

A branch whose condition is not met does not even look at its operand. Any other
branch goes to the line that the operand leads to: what a register holds, a
number, or the place of a label. The line is not compared with the program then;
if it lies outside, it is the next step that fails, and it finds the machine on
that line. A branch tells where it goes, so it fails if a label was recorded at a
line that cannot be written; no machine comes to such a record by itself.
-/
namespace ByteMachine

/-- The line that an operand leads a branch to. -/
inductive Operand.LeadsTo (o : Operand) (program : Program) (m : Machine) : Int → Prop where
  /-- What a register holds, or a number behind the mark of a value. -/
  | value {n : Nat} (denotes : o.Denotes m n) : LeadsTo o program m n
  /-- An address that is a number is meant as a line. -/
  | numeral {n : Nat} (kind : o.kind = .address) (number : Numeral.parse o.raw = .ok n) :
      LeadsTo o program m n
  /-- Anything else is a label, recorded or searched. -/
  | label {line : Int} {t : Transition} (name : o.IsName)
      (found : m.findLabel program o.raw = .ok line t) : LeadsTo o program m line

theorem Operand.Denotes.writable {o : Operand} {m : Machine} {n : Nat} (h : o.Denotes m n) :
    Numeral.writable n = true := by
  cases h with
  | contents _ _ hbyte => exact Numeral.writable_byte _
  | literal _ hn => exact Numeral.writable_of_parse hn

/-- The line can be written, unless the machine holds one that cannot. -/
theorem Operand.LeadsTo.writableLine {o : Operand} {program : Program} {m : Machine} {line : Int}
    (h : o.LeadsTo program m line) (hm : ¬ m.HoldsUnwritable program) :
    Numeral.writableLine program.size line = true := by
  cases h with
  | value hdenotes => exact Numeral.writableLine_of_writable _ hdenotes.writable
  | numeral _ hn => exact Numeral.writableLine_of_writable _ (Numeral.writable_of_parse hn)
  | label _ hfound =>
    rcases Machine.findLabel_eq_ok_iff.1 hfound with ⟨hrecorded, _⟩ | ⟨_, hlocate, _⟩
    · rw [← Bool.not_eq_false]
      exact fun hunwritable => hm ⟨line, hunwritable, .inr ⟨_, hrecorded⟩⟩
    · exact LabelSearch.writableLine_of_locate hlocate

theorem Operand.Denotes.kind {o : Operand} {m : Machine} {n : Nat} (h : o.Denotes m n) :
    o.kind = .register ∨ o.kind = .immediate := by
  cases h with
  | contents hkind => exact .inl hkind
  | literal hkind => exact .inr hkind

/-- How a branch takes its operand. -/
theorem Operand.branch_cases (o : Operand) :
    (o.kind = .register ∨ o.kind = .immediate) ∨
      (∃ n, o.kind = .address ∧ Numeral.parse o.raw = .ok n) ∨ o.IsName ∨
      ∃ digits, o.kind = .address ∧ Numeral.parse o.raw = .error (.tooLong digits) := by
  cases hkind : o.kind with
  | register => exact .inl (.inl rfl)
  | immediate => exact .inl (.inr rfl)
  | label => exact .inr (.inr (.inl (.inl hkind)))
  | address =>
    cases hraw : Numeral.parse o.raw with
    | ok n => exact .inr (.inl ⟨n, rfl, rfl⟩)
    | error fault =>
      cases fault with
      | malformed => exact .inr (.inr (.inl (.inr ⟨hkind, hraw⟩)))
      | tooLong digits => exact .inr (.inr (.inr ⟨digits, rfl, rfl⟩))

namespace Instruction

/-- The instruction has a condition, and its flag is not set. -/
def Unmet (i : Instruction) (m : Machine) : Prop :=
  ∃ flag, i.branch = some (.when flag) ∧ m.flags.has flag = false

variable {i : Instruction} {m : Machine} {program : Program} {o : Operand} {line : Int}

theorem taken_eq_false_iff : Execution.taken m.flags i.branch = false ↔ i.Unmet m := by
  unfold Execution.taken Unmet
  split
  · next flag hbranch => simp [hbranch]
  · next hbranch => simp [hbranch]
  · next hbranch => simp [hbranch]

theorem change_of_met (hopcode : i.opcode = .b) (hmet : ¬ i.Unmet m) :
    i.change m program = i.target m program := by
  rw [← taken_eq_false_iff, Bool.not_eq_false] at hmet
  exact change_of_taken hopcode hmet

theorem target_of_tooLong {digits : Nat} (hoperand : i.operand 0 = .ok o)
    (hkind : o.kind = .address) (hlong : Numeral.parse o.raw = .error (.tooLong digits)) :
    i.target m program = .error (.numeralTooLong digits) := by
  unfold target
  rw [hoperand]
  simp only [bind, Except.bind, hkind, hlong, throw_eq_error]

/-- A branch seeks a label where a lookup finds it, if it can tell the line. -/
theorem exists_seek_iff {name : String} :
    (∃ c, i.seek m program name = .ok c ∧ c.destination? = some line) ↔
      (∃ t, m.findLabel program name = .ok line t) ∧
        Numeral.writableLine program.size line = true := by
  simp only [seek_eq_ok_iff, Machine.findLabel_eq_ok_iff]
  constructor
  · rintro ⟨c, ⟨l, hl, hwritable, rfl⟩ | ⟨hnew, l, hl, rfl⟩, hline⟩
    · obtain rfl := Option.some.inj hline
      exact ⟨⟨_, .inl ⟨hl, rfl⟩⟩, hwritable⟩
    · obtain rfl := Option.some.inj hline
      exact ⟨⟨_, .inr ⟨hnew, hl, rfl⟩⟩, LabelSearch.writableLine_of_locate hl⟩
  · rintro ⟨⟨t, ⟨hline, _⟩ | ⟨hnew, hline, _⟩⟩, hwritable⟩
    · exact ⟨_, .inl ⟨line, hline, hwritable, rfl⟩, rfl⟩
    · exact ⟨_, .inr ⟨hnew, line, hline, rfl⟩, rfl⟩

/-- A branch that is taken goes to a line, which it may have to discover. -/
theorem target_leads {c : Change} (h : i.target m program = .ok c) :
    (∃ line, c = .jump i.mnemonic line) ∨ ∃ name line, c = .discover i.mnemonic name line := by
  obtain ⟨operand, _, ⟨n, _, rfl⟩ | ⟨_, hseek⟩⟩ := target_cases h
  · exact .inl ⟨n, rfl⟩
  · rcases seek_eq_ok_iff.1 hseek with ⟨line, _, _, rfl⟩ | ⟨_, line, _, rfl⟩
    · exact .inl ⟨line, rfl⟩
    · exact .inr ⟨operand.raw, line, rfl⟩

/-- The target of a branch is the line that its first operand leads to, if it can be told. -/
theorem exists_target_iff (ho : i.operands.head? = some o) :
    (∃ c, i.target m program = .ok c ∧ c.destination? = some line) ↔
      o.LeadsTo program m line ∧ Numeral.writableLine program.size line = true := by
  have hoperand := operand_zero_eq_ok_iff.2 ho
  have hvalue (n : Nat) : i.value m 0 = .ok n ↔ o.Denotes m n := by
    rw [value_eq_ok_iff, ← List.head?_eq_getElem?, ho]
    simp
  constructor
  · rintro ⟨c, hc, hline⟩
    rcases o.branch_cases with hkind | ⟨n, hkind, hn⟩ | hname | ⟨digits, hkind, hlong⟩
    · rw [target_of_value hoperand hkind, bind_eq_ok_iff] at hc
      obtain ⟨n, hn, hjump⟩ := hc
      obtain rfl := Except.ok.inj hjump
      obtain rfl := Option.some.inj hline
      have hdenotes := (hvalue n).1 hn
      exact ⟨.value hdenotes, Numeral.writableLine_of_writable _ hdenotes.writable⟩
    · rw [target_of_numeral hoperand hkind hn] at hc
      obtain rfl := Except.ok.inj hc
      obtain rfl := Option.some.inj hline
      exact ⟨.numeral hkind hn,
        Numeral.writableLine_of_writable _ (Numeral.writable_of_parse hn)⟩
    · rw [target_of_name hoperand hname] at hc
      obtain ⟨⟨t, ht⟩, hwritable⟩ := exists_seek_iff.1 ⟨c, hc, hline⟩
      exact ⟨.label hname ht, hwritable⟩
    · -- A number with too many digits is a fault and not a name.
      simp [target_of_tooLong hoperand hkind hlong] at hc
  · rintro ⟨hleads, hwritable⟩
    cases hleads with
    | @value n hdenotes =>
      refine ⟨.jump i.mnemonic n, ?_, rfl⟩
      rw [target_of_value hoperand hdenotes.kind, (hvalue n).2 hdenotes]
      rfl
    | numeral hkind hn => exact ⟨_, target_of_numeral hoperand hkind hn, rfl⟩
    | label hname hfound =>
      rw [target_of_name hoperand hname]
      exact exists_seek_iff.2 ⟨⟨_, hfound⟩, hwritable⟩

/-- A branch to an address or a label does not fail for its operand: what is no number is a
name. -/
theorem blamesOperand_of_target {fault : Fault} (hi : program.at? m.pc = some i)
    (ho : i.operands.head? = some o)
    (hkind : o.kind = .address ∨ o.kind = .label) (h : i.target m program = .error fault) :
    fault.blamesOperand = false := by
  have hoperand := operand_zero_eq_ok_iff.2 ho
  rcases o.branch_cases with hvalue | ⟨n, haddress, hn⟩ | hname | ⟨digits, haddress, hlong⟩
  · rcases hkind with hkind | hkind <;> simp [hkind] at hvalue
  · simp [target_of_numeral hoperand haddress hn] at h
  · rw [target_of_name hoperand hname] at h
    rcases fault_of_seek hi h with ⟨rfl, _⟩ | ⟨rfl, _⟩ | ⟨rfl, _⟩
    · rfl
    · rfl
    · rfl
  · rw [target_of_tooLong hoperand haddress hlong] at h
    obtain rfl := Except.error.inj h
    rfl

end Instruction

namespace Machine

variable {m : Machine} {program : Program} {i : Instruction}

theorem next_of_nop (hi : program.at? m.pc = some i) (hopcode : i.opcode = .nop) :
    m.next program = .ok () { machine := m.advance } := by
  refine next_eq_ok_iff.2 ⟨i, .skip, hi, ?_, rfl⟩
  rw [Instruction.change, hopcode]

/-- A branch that is not taken is passed over. -/
theorem next_of_unmet (hi : program.at? m.pc = some i) (hopcode : i.opcode = .b)
    (hunmet : i.Unmet m) : m.next program = .ok () { machine := m.advance } := by
  refine next_eq_ok_iff.2 ⟨i, .skip, hi, ?_, rfl⟩
  rw [Instruction.change, hopcode]
  simp [Instruction.taken_eq_false_iff.2 hunmet]

/-- A branch that is taken steps to the line that its operand leads to, and to no other. -/
theorem next_leads_iff (hi : program.at? m.pc = some i) (hopcode : i.opcode = .b)
    (hmet : ¬ i.Unmet m) (line : Int) :
    (∃ t, m.next program = .ok () t ∧ t.machine.pc = line) ↔
      ∃ o, i.operands.head? = some o ∧ o.LeadsTo program m line ∧
        Numeral.writableLine program.size line = true := by
  constructor
  · rintro ⟨t, hnext, rfl⟩
    obtain ⟨j, c, hj, hc, rfl⟩ := next_eq_ok_iff.1 hnext
    obtain rfl := Option.some.inj (hi.symm.trans hj)
    rw [Instruction.change_of_met hopcode hmet] at hc
    obtain ⟨o, hoperand, _⟩ := Instruction.target_cases hc
    have ho := Instruction.operand_zero_eq_ok_iff.1 hoperand
    refine ⟨o, ho, (Instruction.exists_target_iff ho).1 ⟨c, hc, ?_⟩⟩
    -- The jump is to the line before the target, and the step to the next line makes up for it.
    rw [Change.pc_carryOut]
    rcases Instruction.target_leads hc with ⟨line, rfl⟩ | ⟨name, line, rfl⟩
    · rfl
    · rfl
  · rintro ⟨o, ho, hleads⟩
    obtain ⟨c, hc, hline⟩ := (Instruction.exists_target_iff ho).2 hleads
    rw [← Instruction.change_of_met hopcode hmet] at hc
    refine ⟨_, next_eq_ok_iff.2 ⟨i, c, hi, hc, rfl⟩, ?_⟩
    rw [Change.pc_carryOut, hline]
    rfl

/-- A branch that is taken logs the line that it steps to, and no other branch does. -/
theorem log_iff_met {t : Transition} (hi : program.at? m.pc = some i) (hopcode : i.opcode = .b)
    (hnext : m.next program = .ok () t) :
    .branchTaken i.mnemonic t.machine.pc ∈ t.log ↔ ¬ i.Unmet m := by
  by_cases hunmet : i.Unmet m
  · rw [next_of_unmet hi hopcode hunmet] at hnext
    simp only [EStateM.Result.ok.injEq, true_and] at hnext
    simp [← hnext, hunmet]
  · refine iff_of_true ?_ hunmet
    obtain ⟨j, c, hj, hc, rfl⟩ := next_eq_ok_iff.1 hnext
    obtain rfl := Option.some.inj (hi.symm.trans hj)
    rw [Instruction.change_of_met hopcode hunmet] at hc
    rw [Change.pc_carryOut]
    rcases Instruction.target_leads hc with ⟨line, rfl⟩ | ⟨name, line, rfl⟩
    · simp [Change.carryOut, Change.apply, Change.destination?]
    · simp [Change.carryOut, Change.apply, Change.destination?]

/-- A step finds no instruction exactly if the machine stands outside the program. -/
theorem next_eq_overrun_iff {line : Int} {size : Nat} {left : Transition}
    (hpc : Numeral.writableLine program.size m.pc = true) :
    m.next program = .error (.overrun line size) left ↔
      (m.pc < 0 ∨ program.size ≤ m.pc) ∧ line = m.pc ∧ size = program.size ∧
        left = { machine := m } := by
  have htold : (Fault.overrun m.pc program.size).told = .overrun m.pc program.size := if_pos hpc
  rw [← Program.at?_eq_none_iff]
  constructor
  · intro h
    obtain ⟨hleft, _⟩ := next_eq_error_iff.1 h
    rcases fault_of_next h with ⟨hnone, hfault⟩ | ⟨_, _, hfalse⟩
    · obtain ⟨rfl, rfl⟩ := Fault.overrun.inj (hfault.trans htold)
      exact ⟨hnone, rfl, rfl, hleft⟩
    · exact hfalse.elim
  · rintro ⟨hnone, rfl, rfl, rfl⟩
    exact next_eq_error_iff.2 ⟨rfl, .inl ⟨hnone, htold.symm⟩⟩

end Machine

/-- A branch from end to end. If it has a condition that is not met, it does what an instruction
without effect does, whatever its operands are. Otherwise it goes to a line exactly if its first
operand leads there and the line can be written. An address or a label in front is never the reason
for a failure as an operand. Nothing is said of the line before the next step, which fails for want
of an instruction exactly if the line is outside the program, and leaves the machine as it is. -/
theorem branch_goes_to_target {program : Program} {m : Machine} {i : Instruction}
    (hi : program.at? m.pc = some i) (hopcode : i.opcode = .b) :
    (i.Unmet m →
        m.next program = .ok () { machine := m.advance } ∧
          ∀ (idle : Program) (j : Instruction), idle.at? m.pc = some j → j.opcode = .nop →
            m.next program = m.next idle) ∧
      (¬ i.Unmet m → ∀ line : Int,
        (∃ t, m.next program = .ok () t ∧ t.machine.pc = line) ↔
          ∃ o, i.operands.head? = some o ∧ o.LeadsTo program m line ∧
            Numeral.writableLine program.size line = true) ∧
      (∀ o fault left, i.operands.head? = some o → o.kind = .address ∨ o.kind = .label →
        m.next program = .error fault left → fault.blamesOperand = false) ∧
      ∀ t, m.next program = .ok () t → ∀ line size left,
        t.machine.next program = .error (.overrun line size) left ↔
          (t.machine.pc < 0 ∨ program.size ≤ t.machine.pc) ∧ line = t.machine.pc ∧
            size = program.size ∧ left = { machine := t.machine } := by
  have hskip (hunmet : i.Unmet m) := Machine.next_of_unmet hi hopcode hunmet
  refine ⟨fun hunmet => ⟨hskip hunmet, fun idle j hj hnop => ?_⟩,
    Machine.next_leads_iff hi hopcode, fun o fault left ho hkind hfault => ?_,
    fun t hnext line size left =>
      Machine.next_eq_overrun_iff (Machine.writableLine_of_next hnext)⟩
  · rw [hskip hunmet, Machine.next_of_nop hj hnop]
  · by_cases hunmet : i.Unmet m
    · simp [hskip hunmet] at hfault
    · obtain ⟨_, ⟨hnone, _⟩ | ⟨j, hj, hraised⟩⟩ := Machine.next_eq_error_iff.1 hfault
      · simp [hi] at hnone
      · obtain rfl := Option.some.inj (hi.symm.trans hj)
        rw [Instruction.change_of_met hopcode hunmet] at hraised
        exact Instruction.blamesOperand_of_target hi ho hkind hraised

/-- A branch that waits for a comparison and has no operand, and one that leaves the program. -/
def astray : Program :=
  #[⟨.b, some (.when .eq), []⟩, ⟨.b, some .always, [⟨.address, "7"⟩]⟩]

theorem branch_goes_to_target_astray :
    Machine.new.next astray = .ok () { machine := Machine.new.advance } ∧
      ∃ t, (Machine.new.jump 1).next astray = .ok () t ∧ t.machine.pc = 7 ∧
        t.machine.next astray = .error (.overrun 7 2) { machine := t.machine } := by
  obtain ⟨hidle, _⟩ := @branch_goes_to_target astray .new _ rfl rfl
  obtain ⟨_, hleads, _, hoverrun⟩ := @branch_goes_to_target astray (Machine.new.jump 1) _ rfl rfl
  have hmet : ¬ Instruction.Unmet ⟨.b, some .always, [⟨.address, "7"⟩]⟩ (Machine.new.jump 1) := by
    simp [Instruction.Unmet]
  obtain ⟨t, hnext, hpc⟩ := (hleads hmet 7).2 ⟨_, rfl, .numeral rfl rfl, by decide⟩
  refine ⟨(hidle ⟨.eq, rfl, rfl⟩).1, t, hnext, hpc, ?_⟩
  exact (hoverrun t hnext 7 2 _).2 ⟨.inr (by rw [hpc]; decide), hpc.symm, rfl, rfl⟩

end ByteMachine
