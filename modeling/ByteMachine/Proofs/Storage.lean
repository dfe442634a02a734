import ByteMachine.Proofs.Configuration

/-!
# Storage that a program does not name

There is no computed address: a program reads and writes the registers and the
cells of memory that stand in its operands, and no others. So two machines that
differ elsewhere run the program side by side, and what each of them holds
elsewhere is still there at the end.
-/
namespace ByteMachine

/-- An operand of this kind, somewhere in the program, has the number. -/
def Program.Names (program : Program) (kind : OperandKind) (n : Nat) : Prop :=
  ∃ i ∈ program, i.Names kind n

instance (program : Program) (kind : OperandKind) (n : Nat) : Decidable (program.Names kind n) :=
  inferInstanceAs (Decidable (∃ i ∈ program, ∃ o ∈ i.operands,
    o.kind = kind ∧ Numeral.parse o.raw = .ok n))

namespace Machine

/-- The machines are the same, but for registers and cells that the program does not name. -/
structure AgreesFor (program : Program) (m m' : Machine) : Prop where
  registers : ∀ n : Nat, program.Names .register n → m'.readRegister n = m.readRegister n
  memory : ∀ n : Nat, program.Names .address n → m'.readMemory n = m.readMemory n
  flags : m'.flags = m.flags
  labels : m'.labels = m.labels
  pc : m'.pc = m.pc
  halted : m'.halted = m.halted
  steps : m'.steps = m.steps

/-- The registers and cells that the program does not name hold what they held. -/
structure KeepsUnnamed (program : Program) (m last : Machine) : Prop where
  registers : ∀ n : Nat, ¬ program.Names .register n → last.readRegister n = m.readRegister n
  memory : ∀ n : Nat, ¬ program.Names .address n → last.readMemory n = m.readMemory n

end Machine

namespace Change

theorem readRegister_carryOut (m : Machine) (c : Change) (index : Int) :
    (c.carryOut m).machine.readRegister index = match c with
      | .register target value =>
        if (target.val : Int) = index then .ok (wrap value) else m.readRegister index
      | _ => m.readRegister index := by
  cases c with
  | register target value =>
    have hwrite : m.writeRegister target.val value =
        .ok { m with registers := m.registers.set target (wrap value) target.isLt } := by
      rw [Machine.writeRegister, cell?_eq_some_iff.2 rfl]
    exact Machine.readRegister_of_writeRegister hwrite index
  | skip | memory | flags | halt | emit | label | warn | jump | discover => rfl

theorem readMemory_carryOut (m : Machine) (c : Change) (address : Int) :
    (c.carryOut m).machine.readMemory address = match c with
      | .memory target value =>
        if (target.val : Int) = address then .ok (wrap value) else m.readMemory address
      | _ => m.readMemory address := by
  cases c with
  | memory target value =>
    have hwrite : m.writeMemory target.val value =
        .ok { m with memory := m.memory.set target (wrap value) target.isLt } := by
      rw [Machine.writeMemory, cell?_eq_some_iff.2 rfl]
    exact Machine.readMemory_of_writeMemory hwrite address
  | skip | register | flags | halt | emit | label | warn | jump | discover => rfl

/-- What a change does to the rest of a machine, and what it puts out, is no matter of the
storage. -/
theorem carryOut_withStorage (m : Machine) (registers : Vector UInt8 registerCount)
    (memory : Vector UInt8 memorySize) (c : Change) :
    (c.carryOut { m with registers, memory }).emitted = (c.carryOut m).emitted ∧
      (c.carryOut { m with registers, memory }).machine =
        { (c.carryOut m).machine with
          registers := (c.carryOut { m with registers, memory }).machine.registers
          memory := (c.carryOut { m with registers, memory }).machine.memory } := by
  cases c <;> exact ⟨rfl, rfl⟩

end Change

namespace Machine.AgreesFor

variable {program : Program} {m m' : Machine}

theorem eq_withStorage (h : m.AgreesFor program m') :
    m' = { m with registers := m'.registers, memory := m'.memory } := by
  obtain ⟨_, _, hflags, hlabels, hpc, hhalted, hsteps⟩ := h
  cases m
  cases m'
  simp_all

/-- An instruction of the program does not tell the machines apart. -/
theorem change_eq (h : m.AgreesFor program m') {i : Instruction} (hi : i ∈ program) :
    i.change m' program = i.change m program := by
  have hreads : i.ReadsAlike m m' :=
    ⟨fun n hn => h.registers n ⟨i, hi, hn⟩, fun n hn => h.memory n ⟨i, hi, hn⟩⟩
  exact i.change_congr hreads h.flags h.pc fun _ => i.target_congr hreads h.labels h.pc

theorem emitted_carryOut (h : m.AgreesFor program m') (c : Change) :
    (c.carryOut m').emitted = (c.carryOut m).emitted := by
  rw [h.eq_withStorage]
  exact (c.carryOut_withStorage m m'.registers m'.memory).1

/-- The same change keeps machines in agreement. -/
theorem carryOut (h : m.AgreesFor program m') (c : Change) :
    (c.carryOut m).machine.AgreesFor program (c.carryOut m').machine := by
  have hrest : (c.carryOut m').machine =
      { (c.carryOut m).machine with
        registers := (c.carryOut m').machine.registers
        memory := (c.carryOut m').machine.memory } := by
    rw [h.eq_withStorage]
    exact (c.carryOut_withStorage m m'.registers m'.memory).2
  refine ⟨?_, ?_, ?_, ?_, ?_, ?_, ?_⟩
  · intro n hn
    rw [Change.readRegister_carryOut, Change.readRegister_carryOut, h.registers n hn]
  · intro n hn
    rw [Change.readMemory_carryOut, Change.readMemory_carryOut, h.memory n hn]
  all_goals rw [hrest]

end Machine.AgreesFor

/-- Machines that agree on what the program names go side by side. -/
theorem lockstep_agreesFor (program : Program) (limit : Option Int) :
    Lockstep limit program program (Machine.AgreesFor program) where
  halted m m' h := h.halted
  steps _ m m' h := h.steps
  next m m' h := by
    refine Machine.next_alike _ h.pc fun i hi => ?_
    rw [h.change_eq (Program.mem_of_at? hi)]
    cases i.change m program with
    | error fault => exact .inr ⟨fault, rfl, rfl⟩
    | ok c => exact .inl ⟨c, c, rfl, rfl, h.carryOut c, h.emitted_carryOut c⟩

namespace Machine.KeepsUnnamed

variable {program : Program} {m middle last : Machine}

theorem trans (h : m.KeepsUnnamed program middle) (h' : middle.KeepsUnnamed program last) :
    m.KeepsUnnamed program last where
  registers n hn := (h'.registers n hn).trans (h.registers n hn)
  memory n hn := (h'.memory n hn).trans (h.memory n hn)

/-- A step writes only what its instruction names. -/
theorem of_next {t : Transition} (h : m.next program = .ok () t) :
    m.KeepsUnnamed program t.machine := by
  obtain ⟨i, c, hi, hc, rfl⟩ := Machine.next_eq_ok_iff.1 h
  have hmem := Program.mem_of_at? hi
  have horigin := Instruction.origin_of_change hc
  constructor
  · intro n hn
    rw [Change.readRegister_carryOut]
    split
    · next target value =>
      have hnames := Instruction.names_of_register horigin.2
      split_ifs with hsame
      · obtain rfl := Int.ofNat_inj.1 hsame
        exact absurd ⟨i, hmem, hnames⟩ hn
      · rfl
    · rfl
  · intro n hn
    rw [Change.readMemory_carryOut]
    split
    · next target value =>
      have hnames := Instruction.names_of_address horigin.2.1
      split_ifs with hsame
      · obtain rfl := Int.ofNat_inj.1 hsame
        exact absurd ⟨i, hmem, hnames⟩ hn
      · rfl
    · rfl

theorem of_trace {events : List Event} (h : Trace program m events last) :
    m.KeepsUnnamed program last :=
  (h.invariant (fun _ _ hkeeps hnext => hkeeps.trans (of_next hnext))
    ⟨fun _ _ => rfl, fun _ _ => rfl⟩).1

end Machine.KeepsUnnamed

/-- Registers and cells of memory that a program does not name have no influence on it, and it has
none on them. Machines that differ nowhere else put out the same values, end in the same way and
differ nowhere else afterwards; and each of them keeps what it held there. -/
theorem unnamed_storage_is_inert (program : Program) (limit : Option Int) {m m' : Machine}
    (h : m.AgreesFor program m') :
    (m'.run program { limit }).ending = (m.run program { limit }).ending ∧
      ((m.run program { limit }).ending ≠ .endless →
        (m'.run program { limit }).output = (m.run program { limit }).output ∧
          (m.run program { limit }).machine.AgreesFor program
            (m'.run program { limit }).machine) ∧
      m.KeepsUnnamed program (m.run program { limit }).machine ∧
      m'.KeepsUnnamed program (m'.run program { limit }).machine := by
  obtain ⟨hending, hends⟩ :=
    (lockstep_agreesFor program limit).run (fun _ _ hagrees => hagrees.steps) h
  have hkeeps (n : Machine) : n.KeepsUnnamed program (n.run program { limit }).machine := by
    obtain ⟨events, htrace⟩ := Run.exists_trace program limit n
    exact .of_trace htrace
  exact ⟨hending, fun hne => (hends hne).symm, hkeeps m, hkeeps m'⟩

/-- A sum that goes through memory to the output. -/
def carriedSum : Program :=
  #[⟨.arith .add, none, [⟨.register, "1"⟩, ⟨.register, "0"⟩, ⟨.immediate, "3"⟩]⟩,
    ⟨.str, none, [⟨.register, "1"⟩, ⟨.address, "4"⟩]⟩, ⟨.out, none, [⟨.address, "4"⟩]⟩,
    ⟨.halt, none, []⟩]

/-- A machine with something left in a register and in a cell of memory. -/
def littered : Machine :=
  { Machine.new with
    registers := .ofFn fun p => if p.val = 5 then 7 else 0
    memory := .ofFn fun p => if p.val = 9 then 2 else 0 }

theorem unnamed_storage_is_inert_carriedSum :
    Machine.new.AgreesFor carriedSum littered ∧
      (littered.run carriedSum {}).ending = .halted ∧
      (littered.run carriedSum {}).output = #[3] ∧
      (littered.run carriedSum {}).machine.readRegister 5 = .ok 7 ∧
      (littered.run carriedSum {}).machine.readMemory 9 = .ok 2 := by
  have hregister : ¬ carriedSum.Names .register 5 := by decide
  have hcell : ¬ carriedSum.Names .address 9 := by decide
  have hagrees : Machine.new.AgreesFor carriedSum littered := by
    refine ⟨fun n hn => ?_, fun n hn => ?_, rfl, rfl, rfl, rfl, rfl⟩
    · have hne : n ≠ 5 := by
        rintro rfl
        exact hregister hn
      unfold Machine.readRegister
      cases hp : cell? registerCount n with
      | none => rfl
      | some p =>
        have hpn := cell?_eq_some_iff.1 hp
        have hother : p.val ≠ 5 := by omega
        simp [littered, Machine.new, hother]
    · have hne : n ≠ 9 := by
        rintro rfl
        exact hcell hn
      unfold Machine.readMemory
      cases hp : cell? memorySize n with
      | none => rfl
      | some p =>
        have hpn := cell?_eq_some_iff.1 hp
        have hother : p.val ≠ 9 := by omega
        simp [littered, Machine.new, hother]
  have hhalted : (Machine.new.run carriedSum {}).ending = .halted := rfl
  have houtput : (Machine.new.run carriedSum {}).output = #[3] := rfl
  obtain ⟨hending, hends, _, hkeeps⟩ := unnamed_storage_is_inert carriedSum none hagrees
  obtain ⟨hsame, _⟩ := hends (by simp [hhalted])
  have hseven : littered.readRegister 5 = .ok 7 := rfl
  have htwo : littered.readMemory 9 = .ok 2 := by
    rw [Machine.readMemory, show cell? memorySize 9 = some ⟨9, by decide⟩ from rfl]
    simp [littered]
  exact ⟨hagrees, hending.trans hhalted, hsame.trans houtput,
    (hkeeps.registers 5 hregister).trans hseven, (hkeeps.memory 9 hcell).trans htwo⟩

end ByteMachine
