import ByteMachine.Listing
import Mathlib.Data.List.Forall2
import Mathlib.Tactic.SplitIfs

/-!
# Programs that have been read

A program that was read has one instruction for each line, and each of them is
what its line spells. In particular the machine knows all its operations, since
a line with any other is refused.
-/
namespace ByteMachine

/-- A sequence succeeds exactly when its first part does and the rest does after it. -/
theorem bind_eq_ok_iff {ε α β : Type} {x : Except ε α} {f : α → Except ε β} {b : β} :
    (x >>= f) = .ok b ↔ ∃ a, x = .ok a ∧ f a = .ok b := by
  cases x with
  | error fault => simp [bind, Except.bind]
  | ok a => simp [bind, Except.bind]

namespace Listing

variable {accepted program : Program}

/-- Without a mistake in them, the lines add their instructions one by one. -/
theorem readFrom_program_eq_ok_iff {lines : List String} :
    (readFrom accepted lines).program = .ok program ↔
      ∃ read, program.toList = accepted.toList ++ read ∧
        List.Forall₂ (fun line i => SourceLine.parse line = .ok i) lines read := by
  induction lines generalizing accepted with
  | nil =>
    simp only [readFrom, Listing.program, Except.ok.injEq, List.forall₂_nil_left_iff,
      exists_eq_right, List.append_nil]
    rw [eq_comm, Array.toList_inj]
  | cons line rest ih =>
    unfold readFrom
    cases hline : SourceLine.parse line with
    | error cause => simp [Listing.program, List.forall₂_cons_left_iff, hline]
    | ok i =>
      simp only [ih, Array.toList_push, List.append_assoc, List.forall₂_cons_left_iff, hline,
        Except.ok.injEq]
      constructor
      · rintro ⟨read, hread, hlines⟩
        exact ⟨i :: read, hread, i, read, rfl, hlines, rfl⟩
      · rintro ⟨read, hread, j, more, rfl, hlines, rfl⟩
        exact ⟨more, hread, hlines⟩

/-- The first line that is refused spoils the rest. -/
theorem readFrom_program_eq_error_iff {lines : List String} {rejection : Rejection} :
    (readFrom accepted lines).program = .error rejection ↔
      ∃ before line after cause, lines = before ++ line :: after ∧
        (∀ earlier ∈ before, ∃ i, SourceLine.parse earlier = .ok i) ∧
        SourceLine.parse line = .error cause ∧
        rejection = .locate (accepted.size + before.length) line cause := by
  induction lines generalizing accepted with
  | nil => simp [readFrom, Listing.program]
  | cons first rest ih =>
    unfold readFrom
    cases hfirst : SourceLine.parse first with
    | error cause =>
      simp only [Listing.program, Except.error.injEq]
      constructor
      · rintro rfl
        exact ⟨[], first, rest, cause, rfl, by simp, hfirst, rfl⟩
      · rintro ⟨before, line, after, cause', hlines, hbefore, hline, rfl⟩
        cases before with
        | nil =>
          obtain ⟨rfl, rfl⟩ := List.cons.inj hlines
          obtain rfl := Except.error.inj (hfirst.symm.trans hline)
          rfl
        | cons earlier before =>
          obtain ⟨rfl, rfl⟩ := List.cons.inj hlines
          obtain ⟨i, hi⟩ := hbefore first List.mem_cons_self
          simp [hfirst] at hi
    | ok i =>
      rw [ih]
      constructor
      · rintro ⟨before, line, after, cause, rfl, hbefore, hline, rfl⟩
        refine ⟨first :: before, line, after, cause, rfl, ?_, hline, ?_⟩
        · exact List.forall_mem_cons.2 ⟨⟨i, hfirst⟩, hbefore⟩
        · rw [Array.size_push, List.length_cons, Nat.add_right_comm, Nat.add_assoc]
      · rintro ⟨before, line, after, cause, hlines, hbefore, hline, rfl⟩
        cases before with
        | nil =>
          obtain ⟨rfl, rfl⟩ := List.cons.inj hlines
          simp [hfirst] at hline
        | cons earlier before =>
          obtain ⟨rfl, rfl⟩ := List.cons.inj hlines
          refine ⟨before, line, after, cause, rfl, (List.forall_mem_cons.1 hbefore).2, hline, ?_⟩
          rw [Array.size_push, List.length_cons, Nat.add_right_comm, Nat.add_assoc]

end Listing

namespace Program

variable {program : Program} {lines : List String}

/-- A program is read line by line. -/
theorem parse_eq_ok_iff :
    Program.parse lines = .ok program ↔
      List.Forall₂ (fun line i => SourceLine.parse line = .ok i) lines program.toList := by
  rw [Program.parse, Listing.ofLines, Listing.readFrom_program_eq_ok_iff]
  simp

/-- A program is refused for its first line that is no instruction. -/
theorem parse_eq_error_iff {rejection : Rejection} :
    Program.parse lines = .error rejection ↔
      ∃ before line after cause, lines = before ++ line :: after ∧
        (∀ earlier ∈ before, ∃ i, SourceLine.parse earlier = .ok i) ∧
        SourceLine.parse line = .error cause ∧ rejection = .locate before.length line cause := by
  rw [Program.parse, Listing.ofLines, Listing.readFrom_program_eq_error_iff]
  simp

/-- The instruction with a number is the one of the line with this number. -/
theorem getElem?_of_parse (h : Program.parse lines = .ok program) {n : Nat} {line : String}
    (hline : lines[n]? = some line) :
    ∃ i, program[n]? = some i ∧ SourceLine.parse line = .ok i := by
  have hread := parse_eq_ok_iff.1 h
  obtain ⟨hn, rfl⟩ := List.getElem?_eq_some_iff.1 hline
  have hsize : n < program.toList.length := hread.length_eq ▸ hn
  refine ⟨program.toList[n], ?_, hread.get hn hsize⟩
  rw [← Array.getElem?_toList, List.getElem?_eq_getElem hsize]

/-- Each instruction of a program stands in one of its lines. -/
theorem exists_line_of_mem (h : Program.parse lines = .ok program) {i : Instruction}
    (hi : i ∈ program) : ∃ line ∈ lines, SourceLine.parse line = .ok i := by
  have hlines := parse_eq_ok_iff.1 h
  obtain ⟨n, hn, rfl⟩ := List.getElem_of_mem hi.val
  have hlength := hlines.length_eq
  refine ⟨lines[n], List.getElem_mem _, ?_⟩
  exact hlines.get (by omega) hn

/-- The machine has all the operations of the program. -/
def Known (program : Program) : Prop := ∀ i ∈ program, i.opcode ∈ Opcode.known

instance (program : Program) : Decidable program.Known :=
  inferInstanceAs (Decidable (∀ i ∈ program, i.opcode ∈ Opcode.known))

end Program

theorem Opcode.mem_known_iff {opcode : Opcode} :
    opcode ∈ known ↔ ∀ text, opcode ≠ .unknown text := by
  cases opcode with
  | arith op => cases op <;> simp [known, ArithOp.all]
  | unknown name => simp [known, ArithOp.all]
  | ldr | str | mov | mvn | cmp | b | halt | nop | label | out => simp [known]

namespace SourceLine

/-- A mnemonic stands for an operation that the machine has. -/
theorem known_of_classify {mnemonic : String} {opcode : Opcode} {branch : Option Condition}
    (h : classify mnemonic = .ok (opcode, branch)) : opcode ∈ Opcode.known := by
  unfold classify at h
  split at h
  · dsimp only at h
    split at h
    · obtain ⟨rfl, _⟩ := Prod.mk.inj (Except.ok.inj h)
      simp [Opcode.known]
    · simp at h
  · split at h
    · obtain ⟨rfl, _⟩ := Prod.mk.inj (Except.ok.inj h)
      exact List.mem_of_find?_eq_some ‹_›
    · simp at h

theorem known_of_parse {line : String} {i : Instruction} (h : parse line = .ok i) :
    i.opcode ∈ Opcode.known := by
  unfold parse parseTrimmed at h
  split_ifs at h
  · obtain rfl := Except.ok.inj h
    simp [Instruction.blank, Opcode.known]
  · obtain rfl := Except.ok.inj h
    simp [Instruction.defineLabel, Opcode.known]
  · simp only [bind_eq_ok_iff] at h
    obtain ⟨_, _, _, hclassify, _, _, hi⟩ := h
    obtain rfl := Except.ok.inj hi
    exact known_of_classify hclassify

end SourceLine

theorem Program.known_of_parse {lines : List String} {program : Program}
    (h : Program.parse lines = .ok program) : program.Known := by
  intro i hi
  obtain ⟨line, _, hline⟩ := exists_line_of_mem h hi
  exact SourceLine.known_of_parse hline

end ByteMachine
