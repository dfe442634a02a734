import ByteMachine.Proofs.Configuration
import ByteMachine.Proofs.Raising
import ByteMachine.Proofs.NumeralGrammar

/-!
# The faults of a run

A run that fails has come to its limit, has left the program, or has met an
instruction with a fault that is true of it. Most faults say what is wrong with
an operand, or that a label is unknown. Three do not: an instruction whose
numeral has too many digits fails with the fault of the numeral, a search that
meets a definition without a name fails with the fault of an index, and whatever
has to tell a number with too many digits fails to write it. From a new machine
the last takes more instructions than can be counted in writing.
-/
namespace ByteMachine

/-- The faults that are meant to end a run. The others come from below, from reading a numeral,
from indexing and from writing a number. -/
def Fault.declared : Fault → Bool
  | .numeralTooLong _ | .badIndex _ | .unwritable => false
  | _ => true

/-- Why a run fails. -/
theorem Run.fault_cases {program : Program} {limit : Option Int} {m : Machine} {run : Run}
    {fault : Fault} (hrun : m.run program { limit } = run) (hfailed : run.ending = .failed fault) :
    (fault = .stepLimit run.machine.steps ∧ ∃ n, limit = some n ∧ n ≤ run.machine.steps) ∨
      (fault = (Fault.overrun run.machine.pc program.size).told ∧
        program.at? run.machine.pc = none) ∨
      (∃ i, program.at? run.machine.pc = some i ∧ fault.TrueOf program run.machine i) ∨
      (fault = .unwritable ∧ Numeral.writable run.machine.steps = false) := by
  subst hrun
  rcases ending_cases program limit m with ⟨hhalted, _⟩ | ⟨hendless, _⟩ | ⟨hlimit, hreached⟩ |
    ⟨huntold, hsteps, _⟩ | ⟨raised, hraised, hnext⟩
  · simp [hhalted] at hfailed
  · simp [hendless] at hfailed
  · obtain rfl := Ending.failed.inj (hlimit.symm.trans hfailed)
    exact .inl ⟨rfl, hreached⟩
  · obtain rfl := Ending.failed.inj (huntold.symm.trans hfailed)
    exact .inr (.inr (.inr ⟨rfl, hsteps⟩))
  · obtain rfl := Ending.failed.inj (hraised.symm.trans hfailed)
    rcases Machine.fault_of_next hnext with ⟨houtside, hoverrun⟩ | htrue
    · exact .inr (.inl ⟨hoverrun, houtside⟩)
    · exact .inr (.inr (.inl htrue))

/-- A run that leaves a machine with a line that cannot be written did not start on a new one. -/
theorem Run.not_new_of_holdsUnwritable {program : Program} {limit : Option Int} {m : Machine}
    (h : (m.run program { limit }).machine.HoldsUnwritable program) :
    m ≠ .new ∧ m.HoldsUnwritable program := by
  obtain ⟨events, htrace⟩ := Run.exists_trace program limit m
  refine ⟨?_, htrace.holdsUnwritable h⟩
  rintro rfl
  exact htrace.not_holdsUnwritable h

/-- A run fails with a declared fault, unless the program has a definition without a name or an
operand with too many digits, or a number cannot be written: that of the executed instructions, or
that of a line which the machine has held from the start and which no new machine holds. -/
theorem fault_of_failed_run {program : Program} {limit : Option Int} {m : Machine} {fault : Fault}
    (h : (m.run program { limit }).ending = .failed fault) :
    fault.declared = true ∨
      (fault = .badIndex .outOfRange ∧ ∃ i ∈ program, i.opcode = .label ∧ i.operands = []) ∨
      (∃ digits, fault = .numeralTooLong digits ∧ Numeral.digitLimit < digits ∧
        ∃ i ∈ program, ∃ o ∈ i.operands,
          (o.raw.toList.takeWhile Char.isDigit).length = digits) ∨
      (fault = .unwritable ∧
        (Numeral.writable (m.run program { limit }).machine.steps = false ∨
          (m ≠ .new ∧ m.HoldsUnwritable program))) := by
  rcases Run.fault_cases rfl h with ⟨rfl, _⟩ | ⟨rfl, _⟩ | ⟨i, hi, htrue⟩ | hsteps
  · exact .inl rfl
  · unfold Fault.told
    split_ifs with hline
    · exact .inl rfl
    · have hholds : (m.run program { limit }).machine.HoldsUnwritable program :=
        ⟨_, Bool.not_eq_true _ ▸ hline, .inl rfl⟩
      exact .inr (.inr (.inr ⟨rfl, .inr (Run.not_new_of_holdsUnwritable hholds)⟩))
  · cases fault with
    | numeralTooLong digits =>
      obtain ⟨o, ho, hlong⟩ := htrue
      obtain ⟨hdigits, hlength⟩ := Numeral.parse_eq_tooLong_iff.1 hlong
      exact .inr (.inr (.inl ⟨digits, rfl, hdigits, i, Program.mem_of_at? hi, o, ho, hlength⟩))
    | badIndex cause =>
      obtain ⟨rfl, hunnamed⟩ := htrue
      refine .inr (.inl ⟨rfl, ?_⟩)
      simpa [Program.LabelsNamed] using hunnamed
    | overrun line size => exact htrue.elim
    | stepLimit steps => exact htrue.elim
    | unwritable =>
      exact .inr (.inr (.inr ⟨rfl, .inr (Run.not_new_of_holdsUnwritable htrue)⟩))
    | missingOperand | wrongKind | notNumeral | noRegister | noAddress | unknownLabel =>
      exact .inl rfl
  · exact .inr (.inr (.inr ⟨hsteps.1, .inl hsteps.2⟩))

/-- A branch over a definition without a name. -/
def nameless : Program :=
  #[⟨.b, some .always, [⟨.address, "x"⟩]⟩, ⟨.label, none, []⟩, .defineLabel "x"]

theorem fault_of_failed_run_nameless :
    (Machine.new.run nameless {}).ending = .failed (.badIndex .outOfRange) ∧
      ∃ i ∈ nameless, i.opcode = .label ∧ i.operands = [] := by
  have hending : (Machine.new.run nameless {}).ending = .failed (.badIndex .outOfRange) := rfl
  rcases fault_of_failed_run hending with hdeclared | ⟨_, hnameless⟩ | ⟨_, hlong, _⟩ | ⟨hlong, _⟩
  · simp [Fault.declared] at hdeclared
  · exact ⟨hending, hnameless⟩
  · simp at hlong
  · simp at hlong

section

variable {numeral : String} (hdigits : ∀ c ∈ numeral.toList, c.isDigit = true)

include hdigits

/-- A line that puts out a numeral is read, whatever the length of the numeral. -/
theorem SourceLine.parse_out_numeral :
    SourceLine.parse ("OUT #" ++ numeral) = .ok ⟨.out, none, [⟨.immediate, numeral⟩]⟩ := by
  have hword : ("#" ++ numeral).toList = '#' :: numeral.toList := by simp
  have hvisible (c : Char) (hc : c ∈ ("#" ++ numeral).toList) :
      0x21 ≤ c.toNat ∧ c.toNat ≤ 0x39 := by
    rw [hword, List.mem_cons] at hc
    rcases hc with rfl | hc
    · decide
    · have hbounds := Text.isDigit_iff.1 (hdigits c hc)
      omega
  have hline : '\n' ∉ ("#" ++ numeral).toList := fun hmem => absurd (hvisible _ hmem) (by decide)
  have hspace : ' ' ∉ ("#" ++ numeral).toList := fun hmem => absurd (hvisible _ hmem) (by decide)
  have ho : Operand.parse? ("#" ++ numeral) = some ⟨.immediate, numeral⟩ := by
    rw [Operand.parse?_of_newline_not_mem hline, hword]
    simp [Operand.ofHead]
  have htext : "OUT #" ++ numeral =
      Instruction.mnemonic ⟨.out, none, [⟨.immediate, numeral⟩]⟩ ++ " " ++ ("#" ++ numeral) := by
    rw [← String.append_assoc]
    rfl
  rw [htext]
  refine parse_word (by decide) (by decide) ho hspace hline (by simp) fun c hc => ?_
  obtain ⟨hlow, hhigh⟩ := hvisible c (List.mem_of_getLast? hc)
  refine ⟨?_, Text.isBlank_of_visible hlow (by omega)⟩
  rintro rfl
  exact absurd hhigh (by decide)

/-- A numeral of too many digits fails when it is put out. -/
theorem interpret_out_numeral (hlong : Numeral.digitLimit < numeral.toList.length) :
    (interpret ["OUT #" ++ numeral] {}).map Run.ending =
      .ok (.failed (.numeralTooLong numeral.toList.length)) := by
  have hnumeral : Numeral.parse numeral = .error (.tooLong numeral.toList.length) := by
    rw [Numeral.parse_eq_tooLong_iff, List.takeWhile_eq_self_iff.2 hdigits]
    exact ⟨hlong, rfl⟩
  have hparse : Program.parse ["OUT #" ++ numeral] =
      .ok #[⟨.out, none, [⟨.immediate, numeral⟩]⟩] := by
    rw [Program.parse_eq_ok_iff]
    exact .cons (SourceLine.parse_out_numeral hdigits) .nil
  have hnext : Machine.new.next #[⟨.out, none, [⟨.immediate, numeral⟩]⟩] =
      .error (.numeralTooLong numeral.toList.length) { machine := .new } := by
    refine Machine.next_eq_error_iff.2 ⟨rfl, .inr ⟨_, rfl, ?_⟩⟩
    have hoperand : Instruction.operand ⟨.out, none, [⟨.immediate, numeral⟩]⟩ 0 =
        .ok ⟨.immediate, numeral⟩ := rfl
    simp [Instruction.change, Instruction.shown, Instruction.number, hoperand, hnumeral, bind,
      Except.bind]
  rw [interpret, hparse]
  exact congrArg Except.ok (Run.run_of_course ⟨.nil _, by simp, .fault ⟨rfl, rfl⟩ hnext⟩).2.1

end

/-- Both kinds of undeclared faults occur in programs that were read. -/
theorem undeclared_faults_occur :
    (interpret ["B x", "LABEL", "x:"] {}).map Run.ending =
        .ok (.failed (.badIndex .outOfRange)) ∧
      (interpret ["OUT #" ++ String.ofList (List.replicate 4301 '1')] {}).map Run.ending =
        .ok (.failed (.numeralTooLong 4301)) ∧
      (Fault.badIndex .outOfRange).declared = false ∧
      (Fault.numeralTooLong 4301).declared = false := by
  have hones (n : Nat) (hn : Numeral.digitLimit < n) :
      (interpret ["OUT #" ++ String.ofList (List.replicate n '1')] {}).map Run.ending =
        .ok (.failed (.numeralTooLong n)) := by
    have hlong := @interpret_out_numeral (String.ofList (List.replicate n '1'))
    rw [String.toList_ofList, List.length_replicate] at hlong
    refine hlong (fun c hc => ?_) hn
    rw [List.eq_of_mem_replicate hc]
    rfl
  exact ⟨rfl, hones 4301 (by decide), rfl, rfl⟩

end ByteMachine
