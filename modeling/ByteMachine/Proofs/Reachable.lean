import ByteMachine.Proofs.LabelSearch
import ByteMachine.Proofs.Spelling
import ByteMachine.Proofs.Trace

/-!
# Reachable machines

A new machine that executes a program comes to machines of a certain kind only.
Their flags are those of one comparison, their labels stand where the program
defines them, and their line is never negative, although a branch sets it to the
line before its target. `Machine.Sound` is the part of this that a step keeps;
what has been counted, put out and halted is told by the trace that led there.
-/
namespace ByteMachine

/-- The flags before the first comparison, and those that a comparison leaves. -/
def Flags.outcomes : List Flags := [{}, .ofList [.eq], .ofList [.ne, .lt], .ofList [.ne, .gt]]

theorem Execution.ofList_comparison_mem (a b : Nat) :
    Flags.ofList (comparison a b) ∈ Flags.outcomes := by
  unfold comparison
  split_ifs <;> simp [Flags.outcomes]

namespace Change

theorem flags_carryOut (m : Machine) (c : Change) :
    (c.carryOut m).machine.flags = match c with
      | .flags raised => .ofList raised
      | _ => m.flags := by
  cases c <;> rfl

theorem emitted_carryOut (m : Machine) (c : Change) :
    (c.carryOut m).emitted = match c with
      | .emit value => [value]
      | _ => [] := by
  cases c <;> rfl

end Change

/-- What every machine has in common that a new one can come to. -/
structure Machine.Sound (program : Program) (m : Machine) : Prop where
  flags : m.flags ∈ Flags.outcomes
  labels : ∀ name line, m.label? name = some line → program.DefinesAt name line
  line : 0 ≤ m.pc

theorem Machine.sound_new (program : Program) : Machine.new.Sound program where
  flags := by simp [new, Flags.outcomes]
  labels name line h := by simp [label?, new] at h
  line := by simp [new]

namespace Instruction

variable {i : Instruction} {m : Machine} {program : Program}

/-- A branch that discovers nothing leads to a number or to a recorded label. -/
theorem line_of_target {mnemonic : String} {line : Int}
    (h : i.target m program = .ok (.jump mnemonic line)) :
    (∃ n : Nat, line = n) ∨ ∃ name, m.label? name = some line := by
  obtain ⟨operand, _, ⟨n, _, hjump⟩ | ⟨_, hseek⟩⟩ := target_cases h
  · exact .inl ⟨n, (Change.jump.inj hjump).2⟩
  · rcases seek_eq_ok_iff.1 hseek with ⟨recorded, hname, _, hjump⟩ | ⟨_, _, _, hdiscover⟩
    · obtain ⟨_, rfl⟩ := Change.jump.inj hjump
      exact .inr ⟨_, hname⟩
    · simp at hdiscover

/-- What is put out is a byte, or the number in the operand. -/
theorem shown_eq_ok {value : Nat} (h : i.shown m = .ok value) :
    value < UInt8.size ∨
      ∃ o, i.operands.head? = some o ∧ (o.kind = .immediate ∨ o.kind = .label) ∧
        Numeral.parse o.raw = .ok value := by
  rw [shown, bind_eq_ok_iff] at h
  obtain ⟨o, ho, h⟩ := h
  have hnumber (hkind : o.kind = .immediate ∨ o.kind = .label) (hn : i.number 0 = .ok value) :
      ∃ o, i.operands.head? = some o ∧ (o.kind = .immediate ∨ o.kind = .label) ∧
        Numeral.parse o.raw = .ok value := by
    have hhead := operand_zero_eq_ok_iff.1 ho
    obtain ⟨o', ho', hparse⟩ := number_eq_ok_iff.1 hn
    rw [← List.head?_eq_getElem?, hhead] at ho'
    obtain rfl := Option.some.inj ho'
    exact ⟨o, hhead, hkind, hparse⟩
  cases hkind : o.kind with
  | register | address =>
    simp only [hkind, bind_eq_ok_iff] at h
    obtain ⟨_, _, byte, _, hbyte⟩ := h
    obtain rfl := Except.ok.inj hbyte
    exact .inl byte.toNat_lt
  | immediate =>
    simp only [hkind] at h
    exact .inr (hnumber (.inl hkind) h)
  | label =>
    simp only [hkind] at h
    exact .inr (hnumber (.inr hkind) h)

end Instruction

/-- A branch leads to no negative line. -/
theorem Machine.Sound.destination_nonneg {program : Program} {m : Machine} {i : Instruction}
    {c : Change} {line : Int} (hm : m.Sound program) (hi : program.at? m.pc = some i)
    (hc : i.change m program = .ok c) (hline : c.destination? = some line) : 0 ≤ line := by
  have horigin := Instruction.origin_of_change hc
  cases c with
  | jump mnemonic target =>
    obtain rfl := Option.some.inj hline
    obtain ⟨_, _, _, htarget⟩ := horigin
    rcases Instruction.line_of_target htarget with ⟨n, rfl⟩ | ⟨name, hname⟩
    · omega
    · exact (hm.labels name target hname).bounds.1
  | discover mnemonic name target =>
    obtain rfl := Option.some.inj hline
    obtain ⟨j, hj, _⟩ := Change.site_of_recorded hi hc rfl
    exact (Program.exists_at?_iff.1 ⟨j, hj⟩).1
  | skip | register | memory | flags | halt | emit | label | warn =>
    simp [Change.destination?] at hline

/-- The lines of the labels can be written. -/
theorem Machine.Sound.writableLine {program : Program} {m : Machine} {name : String} {line : Int}
    (hm : m.Sound program) (hline : m.label? name = some line) :
    Numeral.writableLine program.size line = true := by
  obtain ⟨i, hi, _⟩ := hm.labels name line hline
  exact Program.writableLine_of_at? hi

/-- A step of a program whose operations are known keeps a machine sound. -/
theorem Machine.Sound.next {program : Program} {m : Machine} {t : Transition}
    (hknown : program.Known) (hm : m.Sound program) (h : m.next program = .ok () t) :
    t.machine.Sound program := by
  obtain ⟨i, c, hi, hc, rfl⟩ := Machine.next_eq_ok_iff.1 h
  have horigin := Instruction.origin_of_change hc
  refine ⟨?_, ?_, ?_⟩
  · rw [Change.flags_carryOut]
    split
    · obtain ⟨_, _, a, b, _, _, _, rfl⟩ := horigin
      exact Execution.ofList_comparison_mem a.toNat b
    · exact hm.flags
  · intro name line hline
    rw [Change.label?_carryOut] at hline
    split at hline
    · next recorded line' hrecorded =>
      split_ifs at hline with hname
      · obtain rfl := hname
        obtain rfl := Option.some.inj hline
        exact Change.definesAt_of_recorded hknown hi hc hrecorded
      · exact hm.labels name line hline
    · exact hm.labels name line hline
  · rw [Change.pc_carryOut]
    cases hline : c.destination? with
    | none =>
      have := hm.line
      simp only [Option.getD_none]
      omega
    | some line => exact hm.destination_nonneg hi hc hline

theorem Trace.sound {program : Program} {m : Machine} {events : List Event}
    (h : Trace program .new events m) (hknown : program.Known) : m.Sound program :=
  (h.invariant (fun _ _ hm hnext => hm.next hknown hnext) (Machine.sound_new program)).1

/-- The value stands behind the mark of an immediate in an instruction that puts it out. -/
def Program.Shows (program : Program) (value : Nat) : Prop :=
  ∃ i ∈ program, i.opcode = .out ∧ ∃ o, i.operands.head? = some o ∧ o.kind = .immediate ∧
    Numeral.parse o.raw = .ok value

/-- In a program that was read, a step puts out a byte or an immediate value: a label among the
operands is no number. -/
theorem Machine.emitted_of_next {lines : List String} {program : Program} {m : Machine}
    {t : Transition} {value : Nat} (hparse : Program.parse lines = .ok program)
    (h : m.next program = .ok () t) (hvalue : value ∈ t.emitted) :
    value ≤ 255 ∨ program.Shows value := by
  obtain ⟨i, c, hi, hc, rfl⟩ := Machine.next_eq_ok_iff.1 h
  have horigin := Instruction.origin_of_change hc
  rw [Change.emitted_carryOut] at hvalue
  split at hvalue
  · obtain rfl := List.mem_singleton.1 hvalue
    obtain ⟨hout, hshown⟩ := horigin
    rcases Instruction.shown_eq_ok hshown with hbyte | ⟨o, ho, hkind | hkind, hn⟩
    · exact .inl (Nat.le_of_lt_succ hbyte)
    · exact .inr ⟨i, Program.mem_of_at? hi, hout, o, ho, hkind, hn⟩
    · obtain ⟨line, _, hline⟩ := Program.exists_line_of_mem hparse (Program.mem_of_at? hi)
      have hspells := SourceLine.parse_eq_ok_iff.1 hline
      rcases hspells.raw_of_label (List.mem_of_mem_head? ho) hkind with hlabel | hraw
      · simp [hout] at hlabel
      · rw [hraw] at hn
        simp [Numeral.parse, Numeral.valueOf] at hn
  · simp at hvalue

/-- Whatever a new machine does in a program that was read: its flags are those of one comparison
or none, its labels stand at the lines that define them, its line is not negative, it has counted
the instructions, it has put out bytes and immediate values, and it is halted if one of the
instructions halts it. -/
theorem reachable_invariant {lines : List String} {program : Program} {events : List Event}
    {m : Machine} (hparse : Program.parse lines = .ok program)
    (h : Trace program .new events m) :
    m.flags ∈ Flags.outcomes ∧
      (∀ name line, m.label? name = some line →
        0 ≤ line ∧ line < program.size ∧ program.DefinesAt name line) ∧
      0 ≤ m.pc ∧ m.steps = events.length ∧
      (∀ value ∈ emissions events, value ≤ 255 ∨ program.Shows value) ∧
      (m.halted = true ↔ ∃ e ∈ events, e.instruction.opcode = .halt) := by
  have hsound := h.sound (Program.known_of_parse hparse)
  refine ⟨hsound.flags, ?_, hsound.line, ?_, ?_, ?_⟩
  · intro name line hline
    have hdefines := hsound.labels name line hline
    exact ⟨hdefines.bounds.1, hdefines.bounds.2, hdefines⟩
  · simpa [Machine.new] using h.steps_eq
  · intro value hvalue
    obtain ⟨e, he, hemitted⟩ := List.mem_flatMap.1 hvalue
    exact Machine.emitted_of_next hparse (h.of_mem he).2 hemitted
  · rw [h.halted_eq]
    simp [Machine.new]

/-- A value beyond the bytes, and a branch forward to a label that was not met before. -/
def leap : Program :=
  #[⟨.out, none, [⟨.immediate, "300"⟩]⟩, ⟨.cmp, none, [⟨.register, "0"⟩, ⟨.immediate, "1"⟩]⟩,
    ⟨.b, some (.when .lt), [⟨.address, "end"⟩]⟩, .blank, .defineLabel "end", ⟨.halt, none, []⟩]

theorem reachable_invariant_leap :
    ∃ events m, Trace leap .new events m ∧ emissions events = [300] ∧ leap.Shows 300 ∧
      m.label? "end" = some 4 ∧ leap.DefinesAt "end" 4 ∧ m.halted = true ∧
      ∃ e ∈ events, e.instruction.opcode = .halt := by
  have hparse : Program.parse ["OUT #300", "CMP R0, #1", "BLT end", "", "end:", "HALT"] =
      .ok leap := rfl
  have htrace : ∃ events m, Trace leap .new events m ∧ emissions events = [300] ∧
      m.label? "end" = some 4 ∧ m.halted = true :=
    ⟨[_, _, _, _, _], _, .cons rfl rfl (.cons rfl rfl (.cons rfl rfl (.cons rfl rfl
      (.cons rfl rfl (.nil _))))), rfl, rfl, rfl⟩
  obtain ⟨events, m, htrace, hemitted, hlabel, hhalted⟩ := htrace
  obtain ⟨_, hlabels, _, _, hvalues, hhalt⟩ := reachable_invariant hparse htrace
  have hshows := hvalues 300 (by simp [hemitted])
  exact ⟨events, m, htrace, hemitted, hshows.resolve_left (by decide), hlabel,
    (hlabels "end" 4 hlabel).2.2, hhalted, hhalt.1 hhalted⟩

end ByteMachine
