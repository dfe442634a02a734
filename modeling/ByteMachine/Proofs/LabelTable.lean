import ByteMachine.Proofs.Configuration

/-!
# The table of all labels

A machine learns the labels of its program on the way: from the definitions it
executes, and from its searches for those it has not come across. A machine that
has known all of them from the start does the same. The two go side by side, in
each step with the same machine up to the table, as long as every definition is
named and no two give the same name.
-/
namespace ByteMachine

namespace Program

/-- The labels that the lines define, each with its line. -/
def labelSites (program : Program) : List (String × Int) :=
  program.toList.zipIdx.filterMap fun (i, line) => i.labelName?.map fun name => (name, (line : Int))

/-- No two lines define the same label. -/
def LabelsDistinct (program : Program) : Prop := (program.labelSites.map Prod.fst).Nodup

instance (program : Program) : Decidable program.LabelsDistinct :=
  inferInstanceAs (Decidable (program.labelSites.map Prod.fst).Nodup)

/-- Every label at the line of its definition. -/
def labelTable (program : Program) : LabelTable := .ofList program.labelSites

variable {program : Program} {name : String} {line : Int}

theorem mem_labelSites_iff : (name, line) ∈ program.labelSites ↔ program.DefinesAt name line := by
  simp only [labelSites, List.mem_filterMap, Prod.exists, List.mem_zipIdx_iff_getElem?,
    Option.map_eq_some_iff, Prod.mk.injEq, DefinesAt, at?_eq_some_iff, Array.getElem?_toList]
  constructor
  · rintro ⟨i, n, hi, _, hname, rfl, rfl⟩
    exact ⟨i, ⟨n, rfl, hi⟩, hname⟩
  · rintro ⟨i, ⟨n, rfl, hi⟩, hname⟩
    exact ⟨i, n, hi, name, hname, rfl, rfl⟩

theorem getElem?_labelTable_of_definesAt (hdistinct : program.LabelsDistinct)
    (h : program.DefinesAt name line) : program.labelTable[name]? = some line := by
  refine Std.ExtTreeMap.getElem?_ofList_of_mem Std.ReflCmp.compare_self ?_ (mem_labelSites_iff.2 h)
  have hpairwise := List.pairwise_map.1 hdistinct
  exact hpairwise.imp fun hne heq => hne (Std.LawfulEqCmp.eq_of_compare heq)

/-- The table has the labels that are defined, and no others. -/
theorem getElem?_labelTable_eq_some_iff (hdistinct : program.LabelsDistinct) :
    program.labelTable[name]? = some line ↔ program.DefinesAt name line := by
  constructor
  · intro h
    by_cases hname : (program.labelSites.map Prod.fst).contains name
    · obtain ⟨⟨_, line'⟩, hsite, rfl⟩ := List.mem_map.1 (List.contains_iff_mem.1 hname)
      have hdefines := mem_labelSites_iff.1 hsite
      have hline := getElem?_labelTable_of_definesAt hdistinct hdefines
      rwa [Option.some.inj (h.symm.trans hline)]
    · have hnone : program.labelTable[name]? = none :=
        Std.ExtTreeMap.getElem?_ofList_of_contains_eq_false (Bool.eq_false_iff.2 hname)
      exact absurd (h.symm.trans hnone) (by simp)
  · exact getElem?_labelTable_of_definesAt hdistinct

end Program

/-- The machine with another table of labels. -/
def Machine.withLabels (m : Machine) (table : LabelTable) : Machine := { m with labels := table }

/-- What the machine has recorded stands in the table. -/
def Machine.LabelsWithin (m : Machine) (table : LabelTable) : Prop :=
  ∀ name line, m.label? name = some line → table[name]? = some line

/-- The change that is made where there is nothing to discover. -/
def Change.informed : Change → Change
  | .discover mnemonic _ line => .jump mnemonic line
  | c => c

theorem LabelTable.insert_eq_self {table : LabelTable} {name : String} {line : Int}
    (h : table[name]? = some line) : table.insert name line = table := by
  apply Std.ExtTreeMap.ext_getElem?
  intro other
  rw [Std.ExtTreeMap.getElem?_insert]
  split_ifs with hname
  · obtain rfl := Std.LawfulEqCmp.eq_of_compare hname
    exact h.symm
  · rfl

/-- A change does the same to a machine that has the labels in advance. -/
theorem Change.carryOut_informed {c : Change} {m : Machine} {table : LabelTable}
    (h : ∀ name line, c.recorded? = some (name, line) → table[name]? = some line) :
    (c.informed.carryOut (m.withLabels table)).machine =
        (c.carryOut m).machine.withLabels table ∧
      (c.informed.carryOut (m.withLabels table)).emitted = (c.carryOut m).emitted := by
  cases c with
  | label name line =>
    refine ⟨?_, rfl⟩
    have htable := LabelTable.insert_eq_self (h name line rfl)
    simp [informed, carryOut, apply, Machine.withLabels, Machine.recordLabel, Machine.advance,
      htable]
  | skip | register | memory | flags | halt | emit | warn | jump | discover => exact ⟨rfl, rfl⟩

/-- A change that records what stands in the table leaves the labels within it. -/
theorem Machine.LabelsWithin.carryOut {c : Change} {m : Machine} {table : LabelTable}
    (hm : m.LabelsWithin table)
    (h : ∀ name line, c.recorded? = some (name, line) → table[name]? = some line) :
    (c.carryOut m).machine.LabelsWithin table := by
  intro name line hline
  rw [Change.label?_carryOut] at hline
  split at hline
  · split_ifs at hline with hname
    · obtain rfl := hname
      obtain rfl := Option.some.inj hline
      exact h _ _ ‹_›
    · exact hm _ _ hline
  · exact hm _ _ hline

/-- A jump to a recorded line discovers nothing. -/
theorem Change.map_informed_naming_jump (program : Program) (mnemonic : String) (line : Int) :
    (Change.naming program line (.jump mnemonic line)).map Change.informed =
      Change.naming program line (.jump mnemonic line) := by
  unfold naming
  split_ifs <;> rfl

namespace Program

/-- All operations are known, and every label is defined once and by a name. -/
structure WellLabelled (program : Program) : Prop where
  known : program.Known
  named : program.LabelsNamed
  distinct : program.LabelsDistinct

variable {program : Program}

/-- What an instruction records stands in the table. -/
theorem WellLabelled.recorded (h : program.WellLabelled) {i : Instruction} {m : Machine}
    {c : Change} (hi : program.at? m.pc = some i) (hc : i.change m program = .ok c)
    (name : String) (line : Int) (hrecorded : c.recorded? = some (name, line)) :
    program.labelTable[name]? = some line := by
  rw [getElem?_labelTable_eq_some_iff h.distinct]
  exact Change.definesAt_of_recorded h.known hi hc hrecorded

end Program

namespace Instruction

variable {i : Instruction} {m : Machine} {program : Program}

/-- A search finds what stands in the table, and misses what is missing there. -/
theorem seek_withLabels (h : program.WellLabelled) (hm : m.LabelsWithin program.labelTable)
    (hpc : 0 ≤ m.pc) (hsize : m.pc ≤ program.size) (name : String) :
    i.seek (m.withLabels program.labelTable) program name =
      (i.seek m program name).map Change.informed := by
  have htable : (m.withLabels program.labelTable).label? name = program.labelTable[name]? := rfl
  have hline : (m.withLabels program.labelTable).pc = m.pc := rfl
  unfold seek
  rw [htable, hline]
  cases hname : m.label? name with
  | some line =>
    rw [hm name line hname]
    exact (Change.map_informed_naming_jump program i.mnemonic line).symm
  | none =>
    rcases LabelSearch.locate_of_named h.named hpc hsize with
      ⟨line, hlocate⟩ | ⟨hlocate, hnone⟩
    · have hdefines := LabelSearch.definesAt_of_locate hpc hsize hlocate
      rw [(Program.getElem?_labelTable_eq_some_iff h.distinct).2 hdefines, hlocate]
      exact Change.naming_eq_ok_iff.2 ⟨LabelSearch.writableLine_of_locate hlocate, rfl⟩
    · have hmissing : program.labelTable[name]? = none := by
        rw [Option.eq_none_iff_forall_ne_some]
        intro line hfound
        exact hnone line ((Program.getElem?_labelTable_eq_some_iff h.distinct).1 hfound)
      rw [hmissing, hlocate]
      rfl

theorem target_withLabels (h : program.WellLabelled) (hm : m.LabelsWithin program.labelTable)
    (hpc : 0 ≤ m.pc) (hsize : m.pc ≤ program.size) :
    i.target (m.withLabels program.labelTable) program =
      (i.target m program).map Change.informed := by
  have hvalue : i.value (m.withLabels program.labelTable) 0 = i.value m 0 :=
    value_congr i (.of_storage rfl rfl) 0
  unfold target
  cases i.operand 0 with
  | error fault => rfl
  | ok operand =>
    simp only [bind, Except.bind]
    cases operand.kind with
    | register | immediate =>
      simp only [hvalue]
      cases i.value m 0 <;> rfl
    | label => exact seek_withLabels h hm hpc hsize operand.raw
    | address =>
      simp only
      split
      · rfl
      · exact seek_withLabels h hm hpc hsize operand.raw
      · rfl

/-- An instruction makes the same change on a machine that has the labels in advance. -/
theorem change_withLabels (h : program.WellLabelled) (hm : m.LabelsWithin program.labelTable)
    (hi : program.at? m.pc = some i) :
    i.change (m.withLabels program.labelTable) program =
      (i.change m program).map Change.informed := by
  obtain ⟨hpc, hsize⟩ := Program.exists_at?_iff.1 ⟨i, hi⟩
  by_cases hb : i.opcode = .b
  · have hflags : (m.withLabels program.labelTable).flags = m.flags := rfl
    simp only [change, hb, hflags]
    split
    · exact target_withLabels h hm hpc (by omega)
    · rfl
  · have hsame : i.change (m.withLabels program.labelTable) program = i.change m program :=
      change_congr i (.of_storage rfl rfl) rfl rfl fun hb' => absurd hb' hb
    rw [hsame]
    cases hc : i.change m program with
    | error fault => rfl
    | ok c =>
      have horigin := origin_of_change hc
      cases c with
      | discover => exact absurd horigin.1 hb
      | skip | register | memory | flags | halt | emit | label | warn | jump => rfl

end Instruction

/-- The second machine is the first one with all labels of the table, of which the first one has
recorded some. -/
def Machine.Informed (table : LabelTable) (m m' : Machine) : Prop :=
  m.LabelsWithin table ∧ m' = m.withLabels table

/-- One step side by side: both machines go on to the same one up to the table, with the same
values, or both fail in the same way. -/
theorem Program.WellLabelled.lockstep {program : Program} (h : program.WellLabelled)
    (limit : Option Int) :
    Lockstep limit program program (Machine.Informed program.labelTable) where
  halted := by
    rintro m _ ⟨_, rfl⟩
    rfl
  steps := by
    rintro _ m _ ⟨_, rfl⟩
    rfl
  next := by
    rintro m _ ⟨hm, rfl⟩
    refine Machine.next_alike _ rfl fun i hi => ?_
    rw [Instruction.change_withLabels h hm hi]
    cases hc : i.change m program with
    | error fault => exact .inr ⟨fault, rfl, rfl⟩
    | ok c =>
      have hrecorded := h.recorded hi hc
      obtain ⟨hmachine, hemitted⟩ := @Change.carryOut_informed c m _ hrecorded
      exact .inl ⟨c, c.informed, rfl, rfl, ⟨hm.carryOut hrecorded, hmachine⟩, hemitted⟩

theorem Machine.informed_new (table : LabelTable) :
    Machine.Informed table .new (Machine.new.withLabels table) := by
  refine ⟨fun name line hline => ?_, rfl⟩
  simp [label?, new] at hline

/-- A machine that discovers the labels of its program on the way and one that has them all in
advance go side by side. After every step they are the same machine up to the table, with what
has been discovered within it, and have put out the same values; and they end in the same way. -/
theorem discovered_labels_agree {lines : List String} {program : Program}
    (hparse : Program.parse lines = .ok program) (hnamed : program.LabelsNamed)
    (hdistinct : program.LabelsDistinct) :
    (∀ events last, Trace program .new events last →
      last.LabelsWithin program.labelTable ∧
        ∃ events', Trace program (Machine.new.withLabels program.labelTable) events'
            (last.withLabels program.labelTable) ∧
          List.Forall₂ (Event.Alike (Machine.Informed program.labelTable)) events events') ∧
      ∀ (limit : Option Int) (run run' : Run), Machine.new.run program { limit } = run →
        (Machine.new.withLabels program.labelTable).run program { limit } = run' →
        run'.ending = run.ending ∧
          (run.ending ≠ .endless →
            run'.machine = run.machine.withLabels program.labelTable ∧ run'.output = run.output ∧
            ∃ events events' reason, Course program limit .new events run.machine reason ∧
              Course program limit (Machine.new.withLabels program.labelTable) events'
                run'.machine reason ∧
              run.ending = reason.told run.machine.steps ∧
              List.Forall₂ (Event.Alike (Machine.Informed program.labelTable)) events
                events') := by
  have hlabelled : program.WellLabelled := ⟨Program.known_of_parse hparse, hnamed, hdistinct⟩
  have hlockstep (limit : Option Int) := hlabelled.lockstep limit
  have hnew := Machine.informed_new program.labelTable
  constructor
  · intro events last htrace
    obtain ⟨events', _, htrace', ⟨hwithin, rfl⟩, halike⟩ := (hlockstep none).trace hnew htrace
    exact ⟨hwithin, events', htrace', halike⟩
  · rintro limit _ _ rfl rfl
    have hsteps (m m' : Machine) (hm : Machine.Informed program.labelTable m m') :
        m'.steps = m.steps := by
      rw [hm.2]
      rfl
    obtain ⟨hending, hends⟩ := (hlockstep limit).run hsteps hnew
    refine ⟨hending, fun hne => ?_⟩
    obtain ⟨hmachine, houtput⟩ := hends hne
    obtain ⟨events, reason, hcourse, hreason, _⟩ := Run.course_of_run hne
    obtain ⟨events', last', hcourse', _, halike⟩ := (hlockstep limit).course hnew hcourse
    have hlast := (Run.run_of_course hcourse').1
    rw [← hlast] at hcourse'
    exact ⟨hmachine.2, houtput, events, events', reason, hcourse, hcourse', hreason, halike⟩

/-- A branch ahead to one label, and from there back to another that was passed over. -/
def detour : Program :=
  #[⟨.b, some .always, [⟨.address, "start"⟩]⟩, .defineLabel "back", ⟨.halt, none, []⟩,
    .defineLabel "start", ⟨.out, none, [⟨.immediate, "1"⟩]⟩,
    ⟨.b, some .always, [⟨.address, "back"⟩]⟩]

theorem discovered_labels_agree_detour :
    Program.parse ["B start", "back:", "HALT", "start:", "OUT #1", "B back"] = .ok detour ∧
      detour.LabelsNamed ∧ detour.LabelsDistinct ∧
      ((Machine.new.withLabels detour.labelTable).run detour {}).ending = .halted ∧
      ((Machine.new.withLabels detour.labelTable).run detour {}).output = #[1] := by
  have hparse :
      Program.parse ["B start", "back:", "HALT", "start:", "OUT #1", "B back"] = .ok detour := by
    rfl
  have hnamed : detour.LabelsNamed := by decide
  have hdistinct : detour.LabelsDistinct := by decide
  have hhalted : (Machine.new.run detour {}).ending = .halted := rfl
  have houtput : (Machine.new.run detour {}).output = #[1] := rfl
  obtain ⟨hending, hends⟩ := (discovered_labels_agree hparse hnamed hdistinct).2 none _ _ rfl rfl
  obtain ⟨_, hsame, _⟩ := hends (by simp [hhalted])
  exact ⟨hparse, hnamed, hdistinct, hending.trans hhalted, hsame.trans houtput⟩

end ByteMachine
