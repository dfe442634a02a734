import ByteMachine.Proofs.Origin
import Mathlib.Tactic.SplitIfs

/-!
# What the search for a label finds

The search asks line after line whether it defines the label, and stops at the
first answer other than no. Seen from a line of the program it asks every line
once, so it finds the label if any line defines it, and only then.
-/
namespace ByteMachine

/-- The name of the label that an instruction defines. -/
def Instruction.labelName? (i : Instruction) : Option String :=
  if i.opcode = .label then i.headName? else none

theorem Instruction.labelName?_eq_some_iff {i : Instruction} {name : String} :
    i.labelName? = some name ↔ i.opcode = .label ∧ i.headName? = some name := by
  simp [labelName?]

namespace Program

theorem at?_eq_some_iff {program : Program} {line : Int} {i : Instruction} :
    program.at? line = some i ↔ ∃ n : Nat, line = n ∧ program[n]? = some i := by
  unfold at?
  split_ifs with h
  · constructor
    · exact fun hi => ⟨line.toNat, by omega, hi⟩
    · rintro ⟨n, rfl, hi⟩
      exact hi
  · constructor
    · exact fun hi => absurd hi (by simp)
    · rintro ⟨n, rfl, _⟩
      omega

/-- There is an instruction exactly at the lines of the program. -/
theorem exists_at?_iff {program : Program} {line : Int} :
    (∃ i, program.at? line = some i) ↔ 0 ≤ line ∧ line < program.size := by
  constructor
  · rintro ⟨i, hi⟩
    exact bounds_of_at? hi
  · rintro ⟨hline, hsize⟩
    refine ⟨program[line.toNat], at?_eq_some_iff.2 ⟨line.toNat, by omega, ?_⟩⟩
    exact Array.getElem?_eq_getElem (by omega)

/-- The lines of the program can be written. -/
theorem writableLine_of_at? {program : Program} {line : Int} {i : Instruction}
    (h : program.at? line = some i) : Numeral.writableLine program.size line = true := by
  have hbounds := bounds_of_at? h
  exact Numeral.writableLine_of_le (by omega)

theorem at?_eq_none_iff {program : Program} {line : Int} :
    program.at? line = none ↔ line < 0 ∨ program.size ≤ line := by
  rw [← Option.not_isSome_iff_eq_none, Option.isSome_iff_exists, exists_at?_iff]
  omega

theorem mem_of_at? {program : Program} {line : Int} {i : Instruction}
    (h : program.at? line = some i) : i ∈ program := by
  obtain ⟨n, _, hn⟩ := at?_eq_some_iff.1 h
  exact Array.mem_of_getElem? hn

theorem exists_at?_of_mem {program : Program} {i : Instruction} (h : i ∈ program) :
    ∃ line, program.at? line = some i := by
  obtain ⟨n, hn⟩ := Array.mem_iff_getElem?.1 h
  exact ⟨n, at?_eq_some_iff.2 ⟨n, rfl, hn⟩⟩

/-- Within the program, a signed line number is a plain one. -/
theorem fetch_of_at? {program : Program} {line : Int} {i : Instruction}
    (h : program.at? line = some i) : program.fetch line = .ok i := by
  obtain ⟨n, rfl, hn⟩ := at?_eq_some_iff.1 h
  obtain ⟨hsize, rfl⟩ := Array.getElem?_eq_some_iff.1 hn
  rw [fetch, place_val ⟨n, hsize⟩]
  rfl

/-- The line defines the label. -/
def DefinesAt (program : Program) (name : String) (line : Int) : Prop :=
  ∃ i, program.at? line = some i ∧ i.labelName? = some name

instance (program : Program) (name : String) (line : Int) :
    Decidable (program.DefinesAt name line) :=
  decidable_of_iff ((program.at? line).bind Instruction.labelName? = some name)
    Option.bind_eq_some_iff

theorem DefinesAt.bounds {program : Program} {name : String} {line : Int}
    (h : program.DefinesAt name line) : 0 ≤ line ∧ line < program.size := by
  obtain ⟨i, hi, _⟩ := h
  exact exists_at?_iff.1 ⟨i, hi⟩

/-- Every definition of a label names it. -/
def LabelsNamed (program : Program) : Prop := ∀ i ∈ program, i.opcode = .label → i.operands ≠ []

instance (program : Program) : Decidable program.LabelsNamed :=
  inferInstanceAs (Decidable (∀ i ∈ program, i.opcode = .label → i.operands ≠ []))

/-- The line is a definition without a name. -/
def NamelessAt (program : Program) (line : Int) : Prop :=
  ∃ i, program.at? line = some i ∧ i.opcode = .label ∧ i.operands = []

instance (program : Program) (line : Int) : Decidable (program.NamelessAt line) :=
  inferInstanceAs (Decidable (∃ i ∈ program.at? line, i.opcode = .label ∧ i.operands = []))

theorem NamelessAt.not_labelsNamed {program : Program} {line : Int}
    (h : program.NamelessAt line) : ¬ program.LabelsNamed := by
  obtain ⟨i, hi, hopcode, hoperands⟩ := h
  exact fun hnamed => hnamed i (mem_of_at? hi) hopcode hoperands

theorem NamelessAt.not_definesAt {program : Program} {name : String} {line : Int}
    (h : program.NamelessAt line) : ¬ program.DefinesAt name line := by
  obtain ⟨i, hi, _, hoperands⟩ := h
  rintro ⟨j, hj, hname⟩
  obtain rfl := Option.some.inj (hi.symm.trans hj)
  simp [Instruction.labelName?, Instruction.headName?, hoperands] at hname

/-- The line stops a search for the label: it defines it, or it has no name to compare. -/
def StopsSearch (program : Program) (name : String) (line : Int) : Prop :=
  program.DefinesAt name line ∨ program.NamelessAt line

instance (program : Program) (name : String) (line : Int) :
    Decidable (program.StopsSearch name line) :=
  inferInstanceAs (Decidable (program.DefinesAt name line ∨ program.NamelessAt line))

theorem StopsSearch.bounds {program : Program} {name : String} {line : Int}
    (h : program.StopsSearch name line) : 0 ≤ line ∧ line < program.size := by
  rcases h with hdefines | ⟨i, hi, _⟩
  · exact hdefines.bounds
  · exact exists_at?_iff.1 ⟨i, hi⟩

end Program

namespace LabelSearch

variable {program : Program} {name : String}

/-- Whether a line defines the label. -/
def ask (program : Program) (name : String) (line : Int) : Except Fault Bool := do
  defines (← program.fetch line) name

theorem scan_succ (line : Int) (count : Nat) :
    scan program name line (count + 1) =
      match ask program name line with
      | .ok true => .ok (some line)
      | .ok false => scan program name (line + 1) count
      | .error fault => .error fault := by
  rw [scan, ask]
  cases program.fetch line with
  | error fault => rfl
  | ok i =>
    simp only [bind, Except.bind]
    cases defines i name with
    | error fault => rfl
    | ok answer => cases answer <;> rfl

theorem ask_of_at? {line : Int} {i : Instruction} (h : program.at? line = some i) :
    ask program name line = defines i name := by
  rw [ask, Program.fetch_of_at? h]
  rfl

theorem defines_eq_true_iff {i : Instruction} :
    defines i name = .ok true ↔ i.labelName? = some name := by
  rw [defines.eq_def, Instruction.labelName?_eq_some_iff, Instruction.headName?]
  cases hopcode : i.opcode <;> cases hoperands : i.operands <;> simp

theorem defines_eq_error_iff {i : Instruction} {fault : Fault} :
    defines i name = .error fault ↔
      i.opcode = .label ∧ i.operands = [] ∧ fault = .badIndex .outOfRange := by
  rw [defines.eq_def]
  cases hopcode : i.opcode <;> cases hoperands : i.operands <;> simp [eq_comm]

/-- What a line of the program answers. -/
theorem ask_cases (name : String) {line : Int} (hline : 0 ≤ line) (hsize : line < program.size) :
    (ask program name line = .ok false ∧ ¬ program.StopsSearch name line) ∨
      (ask program name line = .ok true ∧ program.DefinesAt name line) ∨
      (ask program name line = .error (.badIndex .outOfRange) ∧ program.NamelessAt line) := by
  obtain ⟨i, hi⟩ := Program.exists_at?_iff.2 ⟨hline, hsize⟩
  rw [ask_of_at? hi]
  cases hdefines : defines i name with
  | error fault =>
    obtain ⟨hopcode, hoperands, rfl⟩ := defines_eq_error_iff.1 hdefines
    exact .inr (.inr ⟨rfl, i, hi, hopcode, hoperands⟩)
  | ok answer =>
    cases answer with
    | true => exact .inr (.inl ⟨rfl, i, hi, defines_eq_true_iff.1 hdefines⟩)
    | false =>
      refine .inl ⟨rfl, ?_⟩
      rintro (⟨j, hj, hname⟩ | ⟨j, hj, hopcode, hoperands⟩)
      · obtain rfl := Option.some.inj (hi.symm.trans hj)
        have hyes := defines_eq_true_iff.2 hname
        simp [hdefines] at hyes
      · obtain rfl := Option.some.inj (hi.symm.trans hj)
        have hfault := (@defines_eq_error_iff name _ _).2 ⟨hopcode, hoperands, rfl⟩
        simp [hdefines] at hfault

/-- A scan within the program is decided by the first line that stops it. -/
theorem scan_cases (program : Program) (name : String) (line : Int) (count : Nat)
    (hline : 0 ≤ line) (hsize : line + count ≤ program.size) :
    (scan program name line count = .ok none ∧
        ∀ l, line ≤ l → l < line + count → ¬ program.StopsSearch name l) ∨
      ∃ found, line ≤ found ∧ found < line + count ∧
        (∀ l, line ≤ l → l < found → ¬ program.StopsSearch name l) ∧
        ((scan program name line count = .ok (some found) ∧ program.DefinesAt name found) ∨
          (scan program name line count = .error (.badIndex .outOfRange) ∧
            program.NamelessAt found)) := by
  induction count generalizing line with
  | zero => exact .inl ⟨rfl, fun l hl hl' => by omega⟩
  | succ count ih =>
    rw [scan_succ]
    rcases @ask_cases program name line hline (by omega) with
      ⟨hask, hno⟩ | ⟨hask, hstop⟩ | ⟨hask, hstop⟩
    · rw [hask]
      -- The line itself and those that the rest of the scan has passed.
      have hpassed {last : Int}
          (hrest : ∀ l, line + 1 ≤ l → l < last → ¬ program.StopsSearch name l) (l : Int)
          (hl : line ≤ l) (hl' : l < last) : ¬ program.StopsSearch name l := by
        by_cases heq : l = line
        · rwa [heq]
        · exact hrest l (by omega) hl'
      rcases ih (line + 1) (by omega) (by omega) with
        ⟨hnone, hrest⟩ | ⟨found, hle, hlt, hrest, hfound⟩
      · exact .inl ⟨hnone, hpassed fun l hl hl' => hrest l hl (by omega)⟩
      · exact .inr ⟨found, by omega, by omega, hpassed hrest, hfound⟩
    · rw [hask]
      exact .inr ⟨line, by omega, by omega, fun l hl hl' => by omega, .inl ⟨rfl, hstop⟩⟩
    · rw [hask]
      exact .inr ⟨line, by omega, by omega, fun l hl hl' => by omega, .inr ⟨rfl, hstop⟩⟩

theorem locate_eq (pc : Int) :
    locate program name pc =
      match scan program name pc (program.size - pc).toNat with
      | .error fault => .error fault
      | .ok (some line) => .ok line
      | .ok none =>
        match scan program name 0 pc.toNat with
        | .error fault => .error fault
        | .ok (some line) => .ok line
        | .ok none => .error (.unknownLabel name) := by
  unfold locate
  cases scan program name pc (program.size - pc).toNat with
  | error fault => rfl
  | ok ahead =>
    cases ahead with
    | some line => rfl
    | none =>
      simp only [bind, Except.bind]
      cases scan program name 0 pc.toNat with
      | error fault => rfl
      | ok behind => cases behind <;> rfl

/-- The first line with a property, seen from line `pc`: the nearest one from there on, or else
the first one before it. -/
def FirstFrom (pc : Int) (P : Int → Prop) (line : Int) : Prop :=
  P line ∧
    ((pc ≤ line ∧ ∀ l, pc ≤ l → l < line → ¬ P l) ∨
      (line < pc ∧ (∀ l, pc ≤ l → ¬ P l) ∧ ∀ l, l < line → ¬ P l))

theorem FirstFrom.unique {pc : Int} {P : Int → Prop} {line line' : Int}
    (h : FirstFrom pc P line) (h' : FirstFrom pc P line') : line = line' := by
  obtain ⟨hline, hfirst⟩ := h
  obtain ⟨hline', hfirst'⟩ := h'
  by_contra hne
  rcases hfirst with ⟨hpc, hleast⟩ | ⟨hpc, hahead, hleast⟩ <;>
    rcases hfirst' with ⟨hpc', hleast'⟩ | ⟨hpc', hahead', hleast'⟩
  · rcases Int.lt_or_gt_of_ne hne with hlt | hgt
    · exact hleast' line hpc hlt hline
    · exact hleast line' hpc' hgt hline'
  · exact hahead' line hpc hline
  · exact hahead line' hpc' hline'
  · rcases Int.lt_or_gt_of_ne hne with hlt | hgt
    · exact hleast' line hlt hline
    · exact hleast line' hgt hline'

/-- The first line with a property is also the first one with a narrower property that it has. -/
theorem FirstFrom.narrow {pc : Int} {P Q : Int → Prop} {line : Int} (h : FirstFrom pc P line)
    (hQ : ∀ l, Q l → P l) (hline : Q line) : FirstFrom pc Q line := by
  obtain ⟨_, ⟨hpc, hleast⟩ | ⟨hpc, hahead, hleast⟩⟩ := h
  · exact ⟨hline, .inl ⟨hpc, fun l hl hl' hl'' => hleast l hl hl' (hQ l hl'')⟩⟩
  · exact ⟨hline, .inr ⟨hpc, fun l hl hl' => hahead l hl (hQ l hl'), fun l hl hl' =>
      hleast l hl (hQ l hl')⟩⟩

/-- The search from a line of the program asks every line, ahead first, and the first line that
stops it decides. -/
theorem locate_spec (name : String) {pc : Int} (hpc : 0 ≤ pc) (hsize : pc ≤ program.size) :
    (∃ line, FirstFrom pc (program.StopsSearch name) line ∧
        ((locate program name pc = .ok line ∧ program.DefinesAt name line) ∨
          (locate program name pc = .error (.badIndex .outOfRange) ∧
            program.NamelessAt line))) ∨
      (locate program name pc = .error (.unknownLabel name) ∧
        ∀ line, ¬ program.StopsSearch name line) := by
  rw [locate_eq]
  rcases scan_cases program name pc (program.size - pc).toNat hpc (by omega) with
    ⟨hscan, hpassed⟩ | ⟨found, hle, hlt, hpassed, ⟨hscan, hstop⟩ | ⟨hscan, hstop⟩⟩
  · rw [hscan]
    have hahead (l : Int) (hl : pc ≤ l) : ¬ program.StopsSearch name l := fun hstop =>
      hpassed l hl (by have := hstop.bounds; omega) hstop
    rcases scan_cases program name 0 pc.toNat (by omega) (by omega) with
      ⟨hscan', hpassed'⟩ | ⟨found, hle, hlt, hpassed', hfound⟩
    · rw [hscan']
      refine .inr ⟨rfl, fun line hstop => ?_⟩
      by_cases hside : pc ≤ line
      · exact hahead line hside hstop
      · exact hpassed' line hstop.bounds.1 (by omega) hstop
    · have hbehind (l : Int) (hl : l < found) : ¬ program.StopsSearch name l := fun hstop =>
        hpassed' l hstop.bounds.1 hl hstop
      rcases hfound with ⟨hscan', hstop⟩ | ⟨hscan', hstop⟩
      · rw [hscan']
        exact .inl ⟨found, ⟨.inl hstop, .inr ⟨by omega, hahead, hbehind⟩⟩, .inl ⟨rfl, hstop⟩⟩
      · rw [hscan']
        exact .inl ⟨found, ⟨.inr hstop, .inr ⟨by omega, hahead, hbehind⟩⟩, .inr ⟨rfl, hstop⟩⟩
  · rw [hscan]
    exact .inl ⟨found, ⟨.inl hstop, .inl ⟨hle, hpassed⟩⟩, .inl ⟨rfl, hstop⟩⟩
  · rw [hscan]
    exact .inl ⟨found, ⟨.inr hstop, .inl ⟨hle, hpassed⟩⟩, .inr ⟨rfl, hstop⟩⟩

/-- The search finds a line exactly if it is the first one to stop it and defines the label. -/
theorem locate_eq_ok_iff {pc line : Int} (hpc : 0 ≤ pc) (hsize : pc ≤ program.size) :
    locate program name pc = .ok line ↔
      FirstFrom pc (program.StopsSearch name) line ∧ program.DefinesAt name line := by
  rcases locate_spec name hpc hsize with
    ⟨found, hfirst, ⟨hfound, hdefines⟩ | ⟨hfault, hnameless⟩⟩ | ⟨hfault, hnone⟩
  · rw [hfound, Except.ok.injEq]
    constructor
    · rintro rfl
      exact ⟨hfirst, hdefines⟩
    · exact fun h => hfirst.unique h.1
  · simp only [hfault, reduceCtorEq, false_iff, not_and]
    intro hline
    obtain rfl := hfirst.unique hline
    exact hnameless.not_definesAt
  · simp only [hfault, reduceCtorEq, false_iff, not_and]
    exact fun hline _ => hnone line hline.1

/-- The search from a line of the program finds one that defines the label, or there is none,
unless a definition without a name stands in its way. -/
theorem locate_cases (name : String) {pc : Int} (hpc : 0 ≤ pc) (hsize : pc ≤ program.size) :
    (∃ line, locate program name pc = .ok line ∧ program.DefinesAt name line) ∨
      (locate program name pc = .error (.unknownLabel name) ∧
        ∀ line, ¬ program.DefinesAt name line) ∨
      (locate program name pc = .error (.badIndex .outOfRange) ∧ ¬ program.LabelsNamed) := by
  rcases locate_spec name hpc hsize with
    ⟨line, _, hfound | ⟨hfault, hnameless⟩⟩ | ⟨hfault, hnone⟩
  · exact .inl ⟨line, hfound⟩
  · exact .inr (.inr ⟨hfault, hnameless.not_labelsNamed⟩)
  · exact .inr (.inl ⟨hfault, fun line hdefines => hnone line (.inl hdefines)⟩)

/-- The search from a line of the program finds a line that defines the label. -/
theorem definesAt_of_locate {pc line : Int} (hpc : 0 ≤ pc) (hsize : pc ≤ program.size)
    (h : locate program name pc = .ok line) : program.DefinesAt name line :=
  ((locate_eq_ok_iff hpc hsize).1 h).2

/-- Where definitions are named, the search fails only if no line defines the label. -/
theorem locate_of_named (hnamed : program.LabelsNamed) {pc : Int} (hpc : 0 ≤ pc)
    (hsize : pc ≤ program.size) :
    (∃ line, locate program name pc = .ok line) ∨
      (locate program name pc = .error (.unknownLabel name) ∧
        ∀ line, ¬ program.DefinesAt name line) := by
  rcases locate_cases name hpc hsize with ⟨line, hline, _⟩ | hnone | ⟨_, hunnamed⟩
  · exact .inl ⟨line, hline⟩
  · exact .inr hnone
  · exact absurd hnamed hunnamed

end LabelSearch

/-- A label is recorded at a line of the program that names it. -/
theorem Change.site_of_recorded {program : Program} {i : Instruction} {m : Machine} {c : Change}
    {name : String} {line : Int} (hi : program.at? m.pc = some i)
    (hc : i.change m program = .ok c) (h : c.recorded? = some (name, line)) :
    ∃ j, program.at? line = some j ∧ j.headName? = some name ∧
      (j.opcode = .label ∨ ∃ text, j.opcode = .unknown text) := by
  have horigin := Instruction.origin_of_change hc
  cases c with
  | label recorded line' =>
    obtain ⟨rfl, rfl⟩ := Prod.mk.inj (Option.some.inj h)
    obtain ⟨hopcode, hname, rfl⟩ := horigin
    exact ⟨i, hi, hname, hopcode⟩
  | discover mnemonic recorded line' =>
    obtain ⟨rfl, rfl⟩ := Prod.mk.inj (Option.some.inj h)
    obtain ⟨_, _, _, _, _, hlocate⟩ := horigin
    obtain ⟨hpc, hsize⟩ := Program.exists_at?_iff.1 ⟨i, hi⟩
    obtain ⟨j, hj, hname⟩ := LabelSearch.definesAt_of_locate hpc (by omega) hlocate
    obtain ⟨hopcode, hhead⟩ := Instruction.labelName?_eq_some_iff.1 hname
    exact ⟨j, hj, hhead, .inl hopcode⟩
  | skip | register | memory | flags | halt | emit | warn | jump => simp [recorded?] at h

/-- Where all operations are known, a label is recorded at a line that defines it. -/
theorem Change.definesAt_of_recorded {program : Program} {i : Instruction} {m : Machine}
    {c : Change} {name : String} {line : Int} (hknown : program.Known)
    (hi : program.at? m.pc = some i) (hc : i.change m program = .ok c)
    (h : c.recorded? = some (name, line)) : program.DefinesAt name line := by
  obtain ⟨j, hj, hname, hlabel | ⟨text, htext⟩⟩ := site_of_recorded hi hc h
  · exact ⟨j, hj, Instruction.labelName?_eq_some_iff.2 ⟨hlabel, hname⟩⟩
  · exact absurd htext (Opcode.mem_known_iff.1 (hknown j (Program.mem_of_at? hj)) text)

end ByteMachine
