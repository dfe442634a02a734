import ByteMachine.Proofs.Reachable

/-!
# Labels and the history of a run

A label may be defined on several lines. What the machine has recorded of it is
then a matter of history: the line of the definition that was executed last. A
branch to a label of which no definition has been executed yet records the line
that it finds, and goes there. So such a line is recorded ahead of its definition
for one moment only, in which the machine stands on it.
-/
namespace ByteMachine

open LabelSearch

/-- On this machine the instruction is a branch that is taken, and leads to a label. -/
structure Instruction.Seeks (i : Instruction) (m : Machine) (name : String) : Prop where
  branch : i.opcode = .b
  taken : Execution.taken m.flags i.branch = true
  named : ∃ operand, i.operand 0 = .ok operand ∧ operand.IsName ∧ operand.raw = name

/-- The line of the definition of a label that was executed last. -/
def lastDefinition? (events : List Event) (name : String) : Option Int :=
  (events.filter fun e => e.instruction.labelName? = some name).getLast?.map (·.before.pc)

/-- The event is a branch that has searched a label, and the line is the first match. -/
structure Event.Finds (program : Program) (e : Event) (name : String) (line : Int) : Prop where
  seeks : e.instruction.Seeks e.before name
  unrecorded : e.before.label? name = none
  first : FirstFrom e.before.pc (program.DefinesAt name) line

/-- The machine has recorded what the history says: for each label the line of the definition
executed last, or, while there is none, the line to which the last event has gone in search of the
label. -/
def Recalls (program : Program) (events : List Event) (m : Machine) : Prop :=
  ∀ name line, m.label? name = some line ↔
    lastDefinition? events name = some line ∨
      (lastDefinition? events name = none ∧ (∃ e ∈ events.getLast?, e.Finds program name line) ∧
        m.pc = line)

theorem lastDefinition?_concat (events : List Event) (e : Event) (name : String) :
    lastDefinition? (events ++ [e]) name =
      if e.instruction.labelName? = some name then some e.before.pc
      else lastDefinition? events name := by
  by_cases hname : e.instruction.labelName? = some name <;>
    simp [lastDefinition?, hname]

/-- What the search from an instruction finds is the first definition. -/
theorem locate_first {program : Program} {i : Instruction} {name : String} {pc line : Int}
    (hi : program.at? pc = some i) (h : locate program name pc = .ok line) :
    FirstFrom pc (program.DefinesAt name) line := by
  obtain ⟨hpc, hsize⟩ := Program.exists_at?_iff.1 ⟨i, hi⟩
  obtain ⟨hfirst, hdefines⟩ := (locate_eq_ok_iff hpc (Int.le_of_lt hsize)).1 h
  exact hfirst.narrow (fun _ => .inl) hdefines

namespace Instruction

variable {i : Instruction} {m : Machine} {program : Program} {name : String}

theorem Seeks.labelName? (h : i.Seeks m name) : i.labelName? = none := by
  simp [Instruction.labelName?, h.branch]

/-- A branch that leads to a label seeks it. -/
theorem Seeks.change (h : i.Seeks m name) : i.change m program = i.seek m program name := by
  obtain ⟨hopcode, htaken, operand, hoperand, hname, rfl⟩ := h
  rw [change_of_taken hopcode htaken]
  exact target_of_name hoperand hname

/-- Only a branch to a label discovers it. -/
theorem seeks_of_discover {mnemonic : String} {line : Int}
    (h : i.change m program = .ok (.discover mnemonic name line)) : i.Seeks m name := by
  obtain ⟨hopcode, htaken, _⟩ := origin_of_change h
  rw [change_of_taken hopcode htaken] at h
  obtain ⟨operand, hoperand, ⟨n, hjump⟩ | ⟨hname, hseek⟩⟩ := target_cases h
  · simp at hjump
  · rcases seek_eq_ok_iff.1 hseek with ⟨_, _, _, hjump⟩ | ⟨_, _, _, hdiscover⟩
    · simp at hjump
    · exact ⟨hopcode, htaken, operand, hoperand, hname, (Change.discover.inj hdiscover).2.1.symm⟩

/-- A definition records its name at the line of the machine. -/
theorem change_of_label {c : Change} (hopcode : i.opcode = .label)
    (h : i.change m program = .ok c) : ∃ name, i.headName? = some name ∧ c = .label name m.pc := by
  rw [Instruction.change, hopcode] at h
  obtain ⟨o, ho, hc⟩ := bind_eq_ok_iff.1 h
  refine ⟨o.raw, ?_, (Change.naming_eq_ok_iff.1 hc).2⟩
  rw [headName?, operand_zero_eq_ok_iff.1 ho]
  rfl

end Instruction

namespace Machine

variable {m : Machine} {program : Program} {i : Instruction} {t : Transition} {name : String}

/-- A step that does not discover the label records it if it executes a definition of it. -/
theorem label?_of_next (hknown : program.Known) (hi : program.at? m.pc = some i)
    (h : m.next program = .ok () t) (hseeks : i.Seeks m name → m.label? name ≠ none) :
    t.machine.label? name =
      if i.labelName? = some name then some m.pc else m.label? name := by
  obtain ⟨j, c, hj, hc, rfl⟩ := next_eq_ok_iff.1 h
  obtain rfl := Option.some.inj (hi.symm.trans hj)
  rw [Change.label?_carryOut]
  by_cases hopcode : i.opcode = .label
  · obtain ⟨recorded, hname, rfl⟩ := Instruction.change_of_label hopcode hc
    simp [Change.recorded?, Instruction.labelName?, hopcode, hname]
  · simp only [Instruction.labelName?, hopcode, if_false, reduceCtorEq]
    have horigin := Instruction.origin_of_change hc
    cases c with
    | label recorded line =>
      obtain ⟨hlabel | ⟨text, htext⟩, _⟩ := horigin
      · exact absurd hlabel hopcode
      · exact absurd htext (Opcode.mem_known_iff.1 (hknown i (Program.mem_of_at? hi)) text)
    | discover mnemonic recorded line =>
      obtain ⟨_, _, _, _, hnew, _⟩ := horigin
      simp only [Change.recorded?, ite_eq_right_iff]
      rintro rfl
      exact absurd hnew (hseeks (Instruction.seeks_of_discover hc))
    | skip | register | memory | flags | halt | emit | warn | jump => rfl

/-- A step to a label that is recorded, at a line that can be written. -/
theorem next_of_recorded {line : Int} (hi : program.at? m.pc = some i) (hseeks : i.Seeks m name)
    (hline : m.label? name = some line)
    (hwritable : Numeral.writableLine program.size line = true) :
    ∃ t, m.next program = .ok () t ∧ t.machine.pc = line := by
  have hc : i.change m program = .ok (.jump i.mnemonic line) := by
    rw [hseeks.change, Instruction.seek_eq_ok_iff]
    exact .inl ⟨line, hline, hwritable, rfl⟩
  refine ⟨_, next_eq_ok_iff.2 ⟨i, _, hi, hc, rfl⟩, ?_⟩
  rw [Change.pc_carryOut]
  rfl

/-- A step to a label that is not recorded goes to the line that the search finds, and records
it. -/
theorem next_of_unrecorded (hi : program.at? m.pc = some i) (hseeks : i.Seeks m name)
    (hnew : m.label? name = none) :
    m.next program = .ok () t ↔
      ∃ line, locate program name m.pc = .ok line ∧
        t = (Change.discover i.mnemonic name line).carryOut m := by
  rw [next_eq_ok_iff]
  constructor
  · rintro ⟨j, c, hj, hc, rfl⟩
    obtain rfl := Option.some.inj (hi.symm.trans hj)
    rw [hseeks.change, Instruction.seek_eq_ok_iff] at hc
    rcases hc with ⟨line, hline, _⟩ | ⟨_, line, hlocate, rfl⟩
    · simp [hnew] at hline
    · exact ⟨line, hlocate, rfl⟩
  · rintro ⟨line, hlocate, rfl⟩
    refine ⟨i, _, hi, ?_, rfl⟩
    rw [hseeks.change, Instruction.seek_eq_ok_iff]
    exact .inr ⟨hnew, line, hlocate, rfl⟩

end Machine

namespace Recalls

variable {program : Program} {events : List Event} {m : Machine} {i : Instruction} {name : String}

/-- On any other line than a definition of the label, only definitions count. -/
theorem label?_eq (h : Recalls program events m) (hi : program.at? m.pc = some i)
    (hname : i.labelName? ≠ some name) : m.label? name = lastDefinition? events name := by
  apply Option.ext
  intro line
  rw [h name line]
  constructor
  · rintro (hlast | ⟨_, ⟨e, _, hfinds⟩, rfl⟩)
    · exact hlast
    · obtain ⟨j, hj, hdefines⟩ := hfinds.first.1
      obtain rfl := Option.some.inj (hi.symm.trans hj)
      exact absurd hdefines hname
  · exact .inl

theorem new (program : Program) : Recalls program [] .new := by
  intro name line
  simp [lastDefinition?, Machine.new, Machine.label?]

/-- Another step is recalled too. -/
theorem next {t : Transition} (hknown : program.Known) (h : Recalls program events m)
    (hi : program.at? m.pc = some i) (hnext : m.next program = .ok () t) :
    Recalls program (events ++ [⟨m, i, t⟩]) t.machine := by
  intro name line
  rw [lastDefinition?_concat, List.getLast?_concat]
  by_cases hfinds : i.Seeks m name ∧ m.label? name = none
  · -- The label is discovered: the search has just found its line, and the machine stands there.
    obtain ⟨hseeks, hnew⟩ := hfinds
    have hname : i.labelName? ≠ some name := by simp [hseeks.labelName?]
    have hnone : lastDefinition? events name = none := (h.label?_eq hi hname).symm.trans hnew
    obtain ⟨found, hlocate, rfl⟩ := (Machine.next_of_unrecorded hi hseeks hnew).1 hnext
    have hfirst := locate_first hi hlocate
    have hfound : ((Change.discover i.mnemonic name found).carryOut m).machine.label? name =
        some found := by
      simp [Change.label?_carryOut, Change.recorded?]
    have hpc : ((Change.discover i.mnemonic name found).carryOut m).machine.pc = found := by
      rw [Change.pc_carryOut]
      rfl
    rw [if_neg hname, hnone, hfound, hpc]
    constructor
    · intro hline
      obtain rfl := Option.some.inj hline
      exact .inr ⟨rfl, ⟨_, rfl, hseeks, hnew, hfirst⟩, rfl⟩
    · rintro (hline | ⟨_, _, rfl⟩)
      · simp at hline
      · rfl
  · rw [Machine.label?_of_next hknown hi hnext fun hseeks hnew => hfinds ⟨hseeks, hnew⟩]
    by_cases hname : i.labelName? = some name
    · simp [hname]
    · rw [if_neg hname, if_neg hname, h.label?_eq hi hname]
      constructor
      · exact .inl
      · rintro (hlast | ⟨_, ⟨e, he, hfound⟩, _⟩)
        · exact hlast
        · obtain rfl := Option.some.inj he
          exact absurd ⟨hfound.seeks, hfound.unrecorded⟩ hfinds

end Recalls

/-- Of the definitions of a label the one that was executed last counts, and a label of which none
has been executed is recorded only while the machine stands on the line that a branch to it has
just found. So a branch to a label goes to the definition executed last; and while there is none,
to the nearest definition from its own line on, or else to the first one before it, which it
reaches unless a definition without a name comes first. -/
theorem last_definition_wins {lines : List String} {program : Program} {events : List Event}
    {m : Machine} (hparse : Program.parse lines = .ok program)
    (htrace : Trace program .new events m) (name : String) :
    (∀ line, m.label? name = some line ↔
      lastDefinition? events name = some line ∨
        (lastDefinition? events name = none ∧
          (∃ e ∈ events.getLast?, e.Finds program name line) ∧ m.pc = line)) ∧
    ∀ i, program.at? m.pc = some i → i.Seeks m name →
      (∀ line, lastDefinition? events name = some line →
        ∃ t, m.next program = .ok () t ∧ t.machine.pc = line) ∧
      (lastDefinition? events name = none →
        (∀ t, m.next program = .ok () t →
          FirstFrom m.pc (program.DefinesAt name) t.machine.pc) ∧
        ∀ line, FirstFrom m.pc (program.StopsSearch name) line → program.DefinesAt name line →
          ∃ t, m.next program = .ok () t ∧ t.machine.pc = line) := by
  have hknown := Program.known_of_parse hparse
  have hrecalls : Recalls program events m :=
    htrace.history (fun _ _ _ _ h hi hnext => h.next hknown hi hnext) (Recalls.new program)
  refine ⟨hrecalls name, fun i hi hseeks => ?_⟩
  have hlast : m.label? name = lastDefinition? events name :=
    hrecalls.label?_eq hi (by simp [hseeks.labelName?])
  rw [← hlast]
  obtain ⟨hline, hsize⟩ := Program.exists_at?_iff.1 ⟨i, hi⟩
  have hsound := htrace.sound hknown
  refine ⟨fun line hrecorded => ?_, fun hnew => ⟨?_, ?_⟩⟩
  · exact Machine.next_of_recorded hi hseeks hrecorded (hsound.writableLine hrecorded)
  · intro t hnext
    obtain ⟨found, hlocate, rfl⟩ := (Machine.next_of_unrecorded hi hseeks hnew).1 hnext
    rw [Change.pc_carryOut]
    exact locate_first hi hlocate
  · intro line hfirst hdefines
    have hlocate := (locate_eq_ok_iff hline (Int.le_of_lt hsize)).2 ⟨hfirst, hdefines⟩
    refine ⟨_, (Machine.next_of_unrecorded hi hseeks hnew).2 ⟨line, hlocate, rfl⟩, ?_⟩
    rw [Change.pc_carryOut]
    rfl

/-- A label that is defined on two lines, between a branch that finds the first of them and one
that goes back to the second. -/
def twice : Program :=
  #[⟨.b, some .always, [⟨.address, "x"⟩]⟩, ⟨.halt, none, []⟩, .defineLabel "x", .defineLabel "x",
    ⟨.b, some .always, [⟨.address, "x"⟩]⟩]

theorem last_definition_wins_twice :
    Program.parse ["B x", "HALT", "x:", "x:", "B x"] = .ok twice ∧
      (∃ e m, Trace twice .new [e] m ∧ m.label? "x" = some 2 ∧ m.pc = 2 ∧
        e.Finds twice "x" 2) ∧
      ∃ events m, Trace twice .new events m ∧ m.pc = 4 ∧ m.label? "x" = some 3 ∧
        ∃ t, m.next twice = .ok () t ∧ t.machine.pc = 3 := by
  have hparse : Program.parse ["B x", "HALT", "x:", "x:", "B x"] = .ok twice := rfl
  have hseeks (m : Machine) :
      Instruction.Seeks ⟨.b, some .always, [⟨.address, "x"⟩]⟩ m "x" :=
    ⟨rfl, rfl, ⟨.address, "x"⟩, rfl, .inr ⟨rfl, rfl⟩, rfl⟩
  have hfound : ∃ e m, Trace twice .new [e] m ∧ m.label? "x" = some 2 ∧
      lastDefinition? [e] "x" = none := ⟨_, _, .cons rfl rfl (.nil _), rfl, rfl⟩
  have hback : ∃ events m, Trace twice .new events m ∧ m.pc = 4 ∧
      lastDefinition? events "x" = some 3 :=
    ⟨_, _, .cons rfl rfl (.cons rfl rfl (.cons rfl rfl (.nil _))), rfl, rfl⟩
  refine ⟨hparse, ?_, ?_⟩
  · obtain ⟨e, m, htrace, hlabel, hnone⟩ := hfound
    rcases ((last_definition_wins hparse htrace "x").1 2).1 hlabel with
      hsome | ⟨_, ⟨_, he, hfinds⟩, hpc⟩
    · simp [hnone] at hsome
    · obtain rfl := Option.some.inj he
      exact ⟨_, m, htrace, hlabel, hpc, hfinds⟩
  · obtain ⟨events, m, htrace, hpc, hlast⟩ := hback
    obtain ⟨htable, hbranch⟩ := last_definition_wins hparse htrace "x"
    have hi : twice.at? m.pc = some ⟨.b, some .always, [⟨.address, "x"⟩]⟩ := by
      rw [hpc]
      rfl
    exact ⟨events, m, htrace, hpc, (htable 3).2 (.inl hlast),
      (hbranch _ hi (hseeks m)).1 3 hlast⟩

end ByteMachine
