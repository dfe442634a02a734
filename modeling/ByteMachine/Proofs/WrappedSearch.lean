import ByteMachine.Proofs.LabelSearch

/-!
# The order of the search for a label

A label that is not recorded is searched from the current line to the end of the
program, and then from the first line up to the current one. Written out, this
order has every line of the program once. The first line in it that defines the
label, or that is a definition without a name, decides what comes of the search.
What has been found is recorded, so the label is searched only once.
-/
namespace ByteMachine

open LabelSearch

namespace LabelSearch

/-- The lines of a program, in the order in which a search from line `pc` asks them. -/
def order (size pc : Nat) : List Nat := List.range' pc (size - pc) ++ List.range pc

/-- A search from line `pc` asks the first line before the second: those ahead come before those
behind, and on either side they are asked upwards. -/
def AskedBefore (pc first second : Nat) : Prop :=
  (pc ≤ first ∧ (first < second ∨ second < pc)) ∨ (first < second ∧ second < pc)

/-- The first of the lines, in their order, that has the property. -/
def FirstIn (lines : List Nat) (P : Int → Prop) (line : Nat) : Prop :=
  P line ∧ ∃ passed rest, lines = passed ++ line :: rest ∧ ∀ l ∈ passed, ¬ P l

/-- Every line of the program is asked, and none of them twice. -/
theorem order_perm {size pc : Nat} (h : pc ≤ size) : (order size pc).Perm (List.range size) := by
  have hwhole : List.range pc ++ List.range' pc (size - pc) = List.range size := by
    have hrange := @List.range'_append_1 0 pc (size - pc)
    rwa [Nat.zero_add, Nat.add_sub_cancel' h, ← List.range_eq_range', ← List.range_eq_range']
      at hrange
  rw [order, ← hwhole]
  exact List.perm_append_comm

theorem order_pairwise (size pc : Nat) : (order size pc).Pairwise (AskedBefore pc) := by
  refine List.pairwise_append.2 ⟨?_, ?_, ?_⟩
  · refine List.Pairwise.imp_of_mem ?_ (List.pairwise_lt_range' (s := pc))
    intro first second hfirst _ hlt
    exact .inl ⟨(List.mem_range'_1.1 hfirst).1, .inl hlt⟩
  · refine List.Pairwise.imp_of_mem ?_ List.pairwise_lt_range
    intro first second _ hsecond hlt
    exact .inr ⟨hlt, List.mem_range.1 hsecond⟩
  · intro first hfirst second hsecond
    exact .inl ⟨(List.mem_range'_1.1 hfirst).1, .inr (List.mem_range.1 hsecond)⟩

section

variable {size pc line : Nat} {P : Int → Prop}

/-- Wherever else the property holds is asked later. -/
theorem FirstIn.askedBefore (h : FirstIn (order size pc) P line) (hsize : pc ≤ size) {other : Nat}
    (hother : P other) (hbound : other < size) : other = line ∨ AskedBefore pc line other := by
  obtain ⟨_, passed, rest, horder, hpassed⟩ := h
  have hmem : other ∈ order size pc := (order_perm hsize).mem_iff.2 (List.mem_range.2 hbound)
  have hpairs := order_pairwise size pc
  rw [horder] at hmem hpairs
  rcases List.mem_append.1 hmem with hin | hin
  · exact absurd hother (hpassed other hin)
  · rcases List.mem_cons.1 hin with heq | hrest
    · exact .inl heq
    · exact .inr ((List.pairwise_cons.1 (List.pairwise_append.1 hpairs).2.1).1 other hrest)

/-- The first line in the order of the search is the nearest one ahead, or else the first one
behind. -/
theorem FirstIn.firstFrom (h : FirstIn (order size pc) P line) (hsize : pc ≤ size)
    (hbounds : ∀ l, P l → 0 ≤ l ∧ l < size) : FirstFrom pc P line := by
  have hlater (l : Int) (hl : P l) :
      l = line ∨ (pc ≤ (line : Int) ∧ (line < l ∨ l < pc)) ∨ (line < l ∧ l < pc) := by
    obtain ⟨hlow, hhigh⟩ := hbounds l hl
    obtain ⟨n, rfl⟩ := Int.eq_ofNat_of_zero_le hlow
    have hafter := h.askedBefore hsize hl (by omega)
    unfold AskedBefore at hafter
    omega
  refine ⟨h.1, ?_⟩
  by_cases hahead : pc ≤ line
  · refine .inl ⟨by omega, fun l hl hl' hstop => ?_⟩
    have := hlater l hstop
    omega
  · refine .inr ⟨by omega, fun l hl hstop => ?_, fun l hl hstop => ?_⟩
    · have := hlater l hstop
      omega
    · have := hlater l hstop
      omega

end

section

variable {program : Program} {name : String} {pc line : Int}

/-- A search that comes to a definition without a name before it has found the label. -/
theorem locate_of_nameless (hpc : 0 ≤ pc) (hsize : pc ≤ program.size)
    (hfirst : FirstFrom pc (program.StopsSearch name) line) (hnameless : program.NamelessAt line) :
    locate program name pc = .error (.badIndex .outOfRange) := by
  rcases locate_spec name hpc hsize with
    ⟨found, hfound, ⟨_, hdefines⟩ | ⟨hfault, _⟩⟩ | ⟨_, hnone⟩
  · obtain rfl := hfirst.unique hfound
    exact absurd hdefines hnameless.not_definesAt
  · exact hfault
  · exact absurd hfirst.1 (hnone line)

/-- A label is unknown if no line of the program stops the search for it. -/
theorem locate_eq_unknownLabel_iff (hpc : 0 ≤ pc) (hsize : pc ≤ program.size) :
    locate program name pc = .error (.unknownLabel name) ↔
      ∀ line, ¬ program.StopsSearch name line := by
  rcases locate_spec name hpc hsize with
    ⟨found, hfirst, ⟨hfound, _⟩ | ⟨hfault, _⟩⟩ | ⟨hfault, hnone⟩
  · simp only [hfound, reduceCtorEq, false_iff]
    exact fun hnone => hnone found hfirst.1
  · simp only [hfault, Except.error.injEq, reduceCtorEq, false_iff]
    exact fun hnone => hnone found hfirst.1
  · exact iff_of_true hfault hnone

end

end LabelSearch

theorem Program.LabelsNamed.stopsSearch_iff {program : Program} (h : program.LabelsNamed)
    {name : String} {line : Int} : program.StopsSearch name line ↔ program.DefinesAt name line :=
  or_iff_left fun hnameless => hnameless.not_labelsNamed h

/-- Look up a label on a machine. -/
def Machine.findLabel (m : Machine) (program : Program) (name : String) :
    EStateM.Result Fault Transition Int :=
  Action.findLabel program name { machine := m }

namespace Machine

variable {m : Machine} {program : Program} {name : String} {line : Int}

/-- A recorded label is not searched. -/
theorem findLabel_of_recorded (h : m.label? name = some line) :
    m.findLabel program name = .ok line { machine := m } := by
  rw [findLabel, Action.findLabel, Action.machine_bind]
  dsimp only
  rw [h]
  rfl

/-- Any other label is searched, and recorded if it is found. -/
theorem findLabel_of_unrecorded (h : m.label? name = none) :
    m.findLabel program name =
      match LabelSearch.locate program name m.pc with
      | .ok line =>
        .ok line { machine := m.recordLabel name line, log := [.labelRecorded name line] }
      | .error fault => .error fault { machine := m } := by
  rw [findLabel, Action.findLabel, Action.machine_bind]
  dsimp only
  rw [h]
  change EStateM.bind (Action.demand (LabelSearch.locate program name m.pc)) _ _ = _
  rw [EStateM.bind]
  cases hlocate : LabelSearch.locate program name m.pc with
  | error fault => rfl
  | ok line =>
    -- The line of a search lies in the program, so it can be written.
    change EStateM.bind (Action.recordLabel program name line) _ _ = _
    rw [EStateM.bind, Action.recordLabel_eq_settle, Change.naming,
      if_pos (LabelSearch.writableLine_of_locate hlocate)]
    rfl

theorem findLabel_eq_ok_iff {t : Transition} :
    m.findLabel program name = .ok line t ↔
      (m.label? name = some line ∧ t = { machine := m }) ∨
        (m.label? name = none ∧ LabelSearch.locate program name m.pc = .ok line ∧
          t = { machine := m.recordLabel name line, log := [.labelRecorded name line] }) := by
  cases hname : m.label? name with
  | some recorded =>
    rw [findLabel_of_recorded hname]
    simp [eq_comm]
  | none =>
    rw [findLabel_of_unrecorded hname]
    cases LabelSearch.locate program name m.pc with
    | ok found =>
      simp only [EStateM.Result.ok.injEq, Except.ok.injEq, reduceCtorEq, false_and, true_and,
        false_or]
      refine and_congr_right fun hline => ?_
      rw [hline, eq_comm]
    | error fault => simp

/-- Whatever line has been found for a label is found again, in any program and from any line. -/
theorem findLabel_again {t : Transition} (h : m.findLabel program name = .ok line t)
    (program' : Program) (pc : Int) :
    (t.machine.jump pc).findLabel program' name = .ok line { machine := t.machine.jump pc } := by
  apply findLabel_of_recorded
  rcases findLabel_eq_ok_iff.1 h with ⟨hrecorded, rfl⟩ | ⟨_, _, rfl⟩
  · exact hrecorded
  · change (m.recordLabel name line).label? name = some line
    rw [label?_recordLabel, if_pos rfl]

end Machine

/-- Looking up a label is a complete search in a circle. A recorded label is where the record says.
For any other one the lines are asked from the current one on, and then from the first one, so that
each line of the program is asked once. The first definition of the label in this order is found and
recorded, unless a definition without a name comes before it, which is a fault of its own; and if
neither is there, the label is unknown. Where all definitions have names, the label is unknown
exactly if no line defines it. Once it has been found, it is found again from everywhere. -/
theorem lookup_is_circular_search {program : Program} {m : Machine} {pc : Nat} (name : String)
    (hpc : m.pc = pc) (hsize : pc ≤ program.size) :
    (∀ line, m.label? name = some line →
        m.findLabel program name = .ok line { machine := m }) ∧
      (order program.size pc).Perm (List.range program.size) ∧
      (m.label? name = none →
        (∀ line, FirstIn (order program.size pc) (program.StopsSearch name) line →
          (program.DefinesAt name line →
            m.findLabel program name = .ok line
              { machine := m.recordLabel name line, log := [.labelRecorded name line] }) ∧
          (program.NamelessAt line →
            m.findLabel program name = .error (.badIndex .outOfRange) { machine := m })) ∧
        ((∀ line ∈ order program.size pc, ¬ program.StopsSearch name line) →
          m.findLabel program name = .error (.unknownLabel name) { machine := m }) ∧
        (program.LabelsNamed →
          ((∃ left, m.findLabel program name = .error (.unknownLabel name) left) ↔
            ∀ line, ¬ program.DefinesAt name line))) ∧
      ∀ line t, m.findLabel program name = .ok line t → ∀ (program' : Program) (pc' : Int),
        (t.machine.jump pc').findLabel program' name =
          .ok line { machine := t.machine.jump pc' } := by
  have hlow : 0 ≤ m.pc := by omega
  have hhigh : m.pc ≤ program.size := by omega
  refine ⟨fun line => Machine.findLabel_of_recorded, order_perm hsize, fun hnew => ⟨?_, ?_, ?_⟩,
    fun line t hfound => Machine.findLabel_again hfound⟩
  · intro line hline
    have hfirst := hline.firstFrom hsize fun l hl => hl.bounds
    rw [← hpc] at hfirst
    rw [Machine.findLabel_of_unrecorded hnew]
    constructor
    · intro hdefines
      rw [(locate_eq_ok_iff hlow hhigh).2 ⟨hfirst, hdefines⟩]
    · intro hnameless
      rw [locate_of_nameless hlow hhigh hfirst hnameless]
  · intro hnone
    have hunknown : ∀ line, ¬ program.StopsSearch name line := by
      intro line hstop
      obtain ⟨hline, hbound⟩ := hstop.bounds
      obtain ⟨n, rfl⟩ := Int.eq_ofNat_of_zero_le hline
      exact hnone n ((order_perm hsize).mem_iff.2 (List.mem_range.2 (by omega))) hstop
    rw [Machine.findLabel_of_unrecorded hnew, (locate_eq_unknownLabel_iff hlow hhigh).2 hunknown]
  · intro hnamed
    simp only [← hnamed.stopsSearch_iff, ← locate_eq_unknownLabel_iff hlow hhigh]
    rw [Machine.findLabel_of_unrecorded hnew]
    cases locate program name m.pc with
    | ok line => simp
    | error fault => simp

/-- Two labels, with a definition between them that has no name. -/
def gapped : Program := #[.defineLabel "x", ⟨.label, none, []⟩, .defineLabel "y"]

theorem lookup_is_circular_search_gapped :
    (Machine.new.jump 2).findLabel gapped "x" = .ok 0
        { machine := (Machine.new.jump 2).recordLabel "x" 0, log := [.labelRecorded "x" 0] } ∧
      (((Machine.new.jump 2).recordLabel "x" 0).jump 1).findLabel gapped "x" =
        .ok 0 { machine := ((Machine.new.jump 2).recordLabel "x" 0).jump 1 } ∧
      (Machine.new.jump 1).findLabel gapped "x" =
        .error (.badIndex .outOfRange) { machine := Machine.new.jump 1 } := by
  have hbehind : FirstIn (order gapped.size 2) (gapped.StopsSearch "x") 0 :=
    ⟨by decide, [2], [1], by decide, by decide⟩
  have hnameless : FirstIn (order gapped.size 1) (gapped.StopsSearch "x") 1 :=
    ⟨by decide, [], [2, 0], by decide, by decide⟩
  obtain ⟨_, _, hsearch, hagain⟩ :=
    @lookup_is_circular_search gapped (Machine.new.jump 2) 2 "x" rfl (by decide)
  obtain ⟨_, _, hsearch', _⟩ :=
    @lookup_is_circular_search gapped (Machine.new.jump 1) 1 "x" rfl (by decide)
  have hfound := ((hsearch rfl).1 0 hbehind).1 (by decide)
  exact ⟨hfound, hagain 0 _ hfound gapped 1, ((hsearch' rfl).1 1 hnameless).2 (by decide)⟩

end ByteMachine
