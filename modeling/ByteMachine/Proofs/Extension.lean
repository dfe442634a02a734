import ByteMachine.Proofs.WellFormed

/-!
# Code after a program

A program that halts never leaves its lines. Code that stands after them is met
all the same, by the search for a label: it goes on to the end of all lines
before it starts again at the first one. If none of the appended lines answers
to a label of the program or stops the search for want of a name, the first
match is the same line as before, and so is every step.
-/
namespace ByteMachine

open LabelSearch

namespace Program

/-- The code may stand after the program: its definitions are named, and by no name that the
program defines as well. -/
structure Appendable (program more : Program) : Prop where
  named : more.LabelsNamed
  fresh : ∀ i ∈ more, ∀ name ∈ i.labelName?, ¬ program.Defines name

variable {program more : Program} {line : Int} {i : Instruction} {name : String}

theorem DefinesAt.defines (h : program.DefinesAt name line) : program.Defines name := by
  obtain ⟨i, hi, hname⟩ := h
  exact ⟨i, mem_of_at? hi, hname⟩

theorem at?_append (h : program.at? line = some i) : (program ++ more).at? line = some i := by
  obtain ⟨n, rfl, hn⟩ := at?_eq_some_iff.1 h
  obtain ⟨hsize, _⟩ := Array.getElem?_eq_some_iff.1 hn
  exact at?_eq_some_iff.2 ⟨n, rfl, (Array.getElem?_append_left hsize).trans hn⟩

theorem size_le_append (program more : Program) : program.size ≤ (program ++ more).size := by
  rw [Array.size_append]
  omega

/-- A line of the whole is one of the program or one of the code after it. -/
theorem at?_append_cases (h : (program ++ more).at? line = some i) :
    program.at? line = some i ∨ i ∈ more := by
  obtain ⟨n, rfl, hn⟩ := at?_eq_some_iff.1 h
  by_cases hsize : n < program.size
  · rw [Array.getElem?_append_left hsize] at hn
    exact .inl (at?_eq_some_iff.2 ⟨n, rfl, hn⟩)
  · rw [Array.getElem?_append_right (by omega)] at hn
    exact .inr (Array.mem_of_getElem? hn)

namespace Appendable

/-- A search for a label of the program is stopped by the same lines. -/
theorem stopsSearch_iff (h : program.Appendable more) (hname : program.Defines name) (line : Int) :
    (program ++ more).StopsSearch name line ↔ program.StopsSearch name line := by
  constructor
  · rintro (⟨i, hi, hlabel⟩ | ⟨i, hi, hopcode, hoperands⟩)
    · rcases at?_append_cases hi with hline | hmore
      · exact .inl ⟨i, hline, hlabel⟩
      · exact absurd hname (h.fresh i hmore name hlabel)
    · rcases at?_append_cases hi with hline | hmore
      · exact .inr ⟨i, hline, hopcode, hoperands⟩
      · exact absurd hoperands (h.named i hmore hopcode)
  · rintro (⟨i, hi, hlabel⟩ | ⟨i, hi, hnameless⟩)
    · exact .inl ⟨i, at?_append hi, hlabel⟩
    · exact .inr ⟨i, at?_append hi, hnameless⟩

/-- What a search in the program finds, a search in the whole finds. -/
theorem locate_eq_ok (h : program.Appendable more) {pc : Int} (hpc : 0 ≤ pc)
    (hsize : pc ≤ program.size) (hline : locate program name pc = .ok line) :
    locate (program ++ more) name pc = .ok line := by
  obtain ⟨hfirst, hdefines⟩ := (locate_eq_ok_iff hpc hsize).1 hline
  have hstops : (program ++ more).StopsSearch name = program.StopsSearch name :=
    funext fun l => propext (h.stopsSearch_iff hdefines.defines l)
  have hwhole : pc ≤ (program ++ more).size := by
    have hgrows := size_le_append program more
    omega
  rw [locate_eq_ok_iff hpc hwhole, hstops]
  obtain ⟨i, hi, hlabel⟩ := hdefines
  exact ⟨hfirst, i, at?_append hi, hlabel⟩

section

variable {m : Machine} {c : Change}

theorem seek_eq_ok (h : program.Appendable more) (hpc : 0 ≤ m.pc) (hsize : m.pc ≤ program.size)
    (hc : i.seek m program name = .ok c) : i.seek m (program ++ more) name = .ok c := by
  rw [Instruction.seek_eq_ok_iff] at hc ⊢
  rcases hc with ⟨line, hrecorded, hwritable, hjump⟩ | ⟨hnew, line, hline, hdiscover⟩
  · exact .inl ⟨line, hrecorded,
      Numeral.writableLine_mono (size_le_append program more) hwritable, hjump⟩
  · exact .inr ⟨hnew, line, h.locate_eq_ok hpc hsize hline, hdiscover⟩

/-- A line that is written in the program is written in the whole. -/
theorem naming_eq_ok {c' : Change} (hc : Change.naming program line c = .ok c') :
    Change.naming (program ++ more) line c = .ok c' := by
  rw [Change.naming_eq_ok_iff] at hc ⊢
  exact hc.imp_left (Numeral.writableLine_mono (size_le_append program more))

theorem target_eq_ok (h : program.Appendable more) (hpc : 0 ≤ m.pc) (hsize : m.pc ≤ program.size)
    (hc : i.target m program = .ok c) : i.target m (program ++ more) = .ok c := by
  obtain ⟨o, ho, hrest⟩ := bind_eq_ok_iff.1 hc
  cases hkind : o.kind with
  | register =>
    rw [Instruction.target_of_value ho (.inl hkind)] at hc ⊢
    exact hc
  | immediate =>
    rw [Instruction.target_of_value ho (.inr hkind)] at hc ⊢
    exact hc
  | label =>
    rw [Instruction.target_of_name ho (.inl hkind)] at hc ⊢
    exact h.seek_eq_ok hpc hsize hc
  | address =>
    cases hraw : Numeral.parse o.raw with
    | ok n =>
      rw [Instruction.target_of_numeral ho hkind hraw] at hc ⊢
      exact hc
    | error fault =>
      cases fault with
      | malformed =>
        rw [Instruction.target_of_name ho (.inr ⟨hkind, hraw⟩)] at hc ⊢
        exact h.seek_eq_ok hpc hsize hc
      | tooLong digits => simp [hkind, hraw] at hrest

/-- An instruction of the program makes the same change in the whole. -/
theorem change_eq_ok (h : program.Appendable more) (hpc : 0 ≤ m.pc) (hsize : m.pc ≤ program.size)
    (hc : i.change m program = .ok c) : i.change m (program ++ more) = .ok c := by
  unfold Instruction.change at hc ⊢
  cases hopcode : i.opcode with
  | b =>
    simp only [hopcode] at hc ⊢
    split at hc
    · next htaken =>
      rw [if_pos htaken]
      exact h.target_eq_ok hpc hsize hc
    · next htaken =>
      rw [if_neg htaken]
      exact hc
  | label =>
    simp only [hopcode, bind_eq_ok_iff] at hc ⊢
    obtain ⟨o, ho, hnaming⟩ := hc
    exact ⟨o, ho, naming_eq_ok hnaming⟩
  | unknown =>
    simp only [hopcode] at hc ⊢
    split at hc
    · exact naming_eq_ok hc
    · exact naming_eq_ok hc
  | arith | ldr | str | mov | mvn | cmp | halt | nop | out =>
    simp only [hopcode] at hc ⊢
    exact hc

/-- A step of the program is a step of the whole. -/
theorem next_eq_ok (h : program.Appendable more) {t : Transition}
    (ht : m.next program = .ok () t) : m.next (program ++ more) = .ok () t := by
  obtain ⟨i, c, hi, hc, hafter⟩ := Machine.next_eq_ok_iff.1 ht
  obtain ⟨hpc, hsize⟩ := exists_at?_iff.1 ⟨i, hi⟩
  exact Machine.next_eq_ok_iff.2
    ⟨i, c, at?_append hi, h.change_eq_ok hpc (Int.le_of_lt hsize) hc, hafter⟩

end

/-- A trace of the program is a trace of the whole. -/
theorem trace (h : program.Appendable more) {m last : Machine} {events : List Event}
    (htrace : Trace program m events last) : Trace (program ++ more) m events last := by
  induction htrace with
  | nil m => exact .nil m
  | cons found executed _ ih => exact .cons (at?_append found) (h.next_eq_ok executed) ih

end Appendable

end Program

/-- A run that halts is not disturbed by code that is appended to the program. It halts under the
same limit, with the same values put out and the same machine, unless the code has a definition
without a name, or one of a label that the program defines. -/
theorem appended_code_is_inert {program more : Program} {m : Machine} {limit : Option Int}
    (happend : program.Appendable more) (hhalted : (m.run program { limit }).ending = .halted) :
    (m.run (program ++ more) { limit }).ending = .halted ∧
      (m.run (program ++ more) { limit }).machine = (m.run program { limit }).machine ∧
      (m.run (program ++ more) { limit }).output = (m.run program { limit }).output := by
  obtain ⟨events, reason, ⟨htrace, hawake, hstops⟩, hreason, houtput⟩ :=
    Run.course_of_run (show (m.run program { limit }).ending ≠ .endless by simp [hhalted])
  obtain ⟨rfl, _⟩ := Ending.of_told_eq_halted (hreason.symm.trans hhalted)
  cases hstops with
  | halted hlast =>
    obtain ⟨hmachine, hending, hwhole⟩ :=
      Run.run_of_course ⟨happend.trace htrace, hawake, .halted hlast⟩
    exact ⟨hending.trans (hreason.symm.trans hhalted), hmachine,
      Array.toList_inj.1 (hwhole.trans houtput.symm)⟩

/-- A branch ahead, and from the last line a branch back to a label that was passed over. -/
def comeback : Program :=
  #[⟨.b, some .always, [⟨.address, "skip"⟩]⟩, .defineLabel "back", ⟨.out, none, [⟨.immediate, "1"⟩]⟩,
    ⟨.halt, none, []⟩, .defineLabel "skip", ⟨.b, some .always, [⟨.address, "back"⟩]⟩]

/-- Code with a label of its own. -/
def epilogue : Program := #[.defineLabel "far", ⟨.out, none, [⟨.immediate, "9"⟩]⟩]

theorem appended_code_is_inert_comeback :
    comeback.Appendable epilogue ∧
      (Machine.new.run comeback { limit := some 6 }).ending = .halted ∧
      (Machine.new.run (comeback ++ epilogue) { limit := some 6 }).ending = .halted ∧
      (Machine.new.run (comeback ++ epilogue) { limit := some 6 }).machine =
        (Machine.new.run comeback { limit := some 6 }).machine ∧
      (Machine.new.run (comeback ++ epilogue) { limit := some 6 }).output = #[1] := by
  have happend : comeback.Appendable epilogue := ⟨by decide, by decide⟩
  have hhalted : (Machine.new.run comeback { limit := some 6 }).ending = .halted := rfl
  have houtput : (Machine.new.run comeback { limit := some 6 }).output = #[1] := rfl
  obtain ⟨hending, hmachine, hsame⟩ := appended_code_is_inert happend hhalted
  exact ⟨happend, hhalted, hending, hmachine, hsame.trans houtput⟩

end ByteMachine
