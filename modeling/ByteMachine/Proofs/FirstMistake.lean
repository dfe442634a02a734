import ByteMachine.Proofs.Listing

/-!
# The first mistake of a program

Each line is read by itself. A program without a mistake has the instruction of
each line at the number of the line, and any other is refused for its first
mistake, with the place if the mistake is one of the line as a whole. So two
parts of a program can be read one after the other, if the places in the second
are counted from the start of the first.
-/
namespace ByteMachine

namespace Rejection

/-- The rejection when so many lines stand before those that were read. -/
def behind (count : Nat) (rejection : Rejection) : Rejection :=
  { rejection with
    place := rejection.place.map fun place => { place with number := place.number + count } }

theorem behind_locate (count n : Nat) (line : String) (cause : SyntaxFault) :
    (locate n line cause).behind count = locate (n + count) line cause := by
  cases cause <;> rfl

end Rejection

/-- The line with the number is refused for the cause, and none before it is refused. -/
structure FirstMistake (lines : List String) (n : Nat) (line : String) (cause : SyntaxFault) :
    Prop where
  stands : lines[n]? = some line
  refused : SourceLine.parse line = .error cause
  earlier : ∀ k < n, ∀ other, lines[k]? = some other → ∃ i, SourceLine.parse other = .ok i

/-- The first mistake parts the lines that are good so far from the others. -/
theorem firstMistake_iff {lines : List String} {n : Nat} {line : String} {cause : SyntaxFault} :
    FirstMistake lines n line cause ↔
      ∃ before after, lines = before ++ line :: after ∧ before.length = n ∧
        (∀ earlier ∈ before, ∃ i, SourceLine.parse earlier = .ok i) ∧
        SourceLine.parse line = .error cause := by
  constructor
  · rintro ⟨hstands, hrefused, hearlier⟩
    obtain ⟨hn, rfl⟩ := List.getElem?_eq_some_iff.1 hstands
    refine ⟨lines.take n, lines.drop (n + 1), ?_, by simp; omega, fun other hother => ?_, hrefused⟩
    · rw [← List.drop_eq_getElem_cons hn, List.take_append_drop]
    · obtain ⟨k, hk, rfl⟩ := List.mem_take_iff_getElem.1 hother
      exact hearlier k (by omega) _ (List.getElem?_eq_getElem (by omega))
  · rintro ⟨before, after, rfl, rfl, hbefore, hrefused⟩
    refine ⟨by simp, hrefused, fun k hk other hother => ?_⟩
    rw [List.getElem?_append_left hk] at hother
    exact hbefore other (List.mem_of_getElem? hother)

namespace Program

variable {lines more : List String} {program rest : Program} {rejection : Rejection}

theorem parse_eq_error_iff_firstMistake :
    Program.parse lines = .error rejection ↔
      ∃ n line cause, FirstMistake lines n line cause ∧ rejection = .locate n line cause := by
  simp only [parse_eq_error_iff, firstMistake_iff]
  constructor
  · rintro ⟨before, line, after, cause, hlines, hbefore, hline, rfl⟩
    exact ⟨before.length, line, cause, ⟨before, after, hlines, rfl, hbefore, hline⟩, rfl⟩
  · rintro ⟨_, line, cause, ⟨before, after, hlines, rfl, hbefore, hline⟩, rfl⟩
    exact ⟨before, line, after, cause, hlines, hbefore, hline, rfl⟩

theorem exists_parse_eq_ok_iff :
    (∃ program, Program.parse lines = .ok program) ↔
      ∀ line ∈ lines, ∃ i, SourceLine.parse line = .ok i := by
  constructor
  · rintro ⟨program, h⟩ line hline
    obtain ⟨n, hn⟩ := List.getElem?_of_mem hline
    obtain ⟨i, _, hi⟩ := getElem?_of_parse h hn
    exact ⟨i, hi⟩
  · intro hgood
    cases h : Program.parse lines with
    | ok program => exact ⟨program, rfl⟩
    | error rejection =>
      obtain ⟨n, line, cause, hfirst, _⟩ := parse_eq_error_iff_firstMistake.1 h
      obtain ⟨i, hi⟩ := hgood line (List.mem_of_getElem? hfirst.stands)
      simp [hfirst.refused] at hi

theorem parse_append (h : Program.parse lines = .ok program)
    (hmore : Program.parse more = .ok rest) :
    Program.parse (lines ++ more) = .ok (program ++ rest) := by
  rw [parse_eq_ok_iff] at h hmore ⊢
  rw [Array.toList_append]
  exact List.rel_append h hmore

/-- What follows the first mistake does not matter. -/
theorem parse_append_of_error (h : Program.parse lines = .error rejection) :
    Program.parse (lines ++ more) = .error rejection := by
  obtain ⟨before, line, after, cause, rfl, hbefore, hline, rfl⟩ := parse_eq_error_iff.1 h
  refine parse_eq_error_iff.2 ⟨before, line, after ++ more, cause, ?_, hbefore, hline, rfl⟩
  rw [List.append_assoc, List.cons_append]

/-- A mistake in the second part is the first one, if there is none in the first part. -/
theorem parse_append_error (h : Program.parse lines = .ok program)
    (hmore : Program.parse more = .error rejection) :
    Program.parse (lines ++ more) = .error (rejection.behind lines.length) := by
  obtain ⟨before, line, after, cause, rfl, hbefore, hline, rfl⟩ := parse_eq_error_iff.1 hmore
  have hgood := exists_parse_eq_ok_iff.1 ⟨program, h⟩
  refine parse_eq_error_iff.2 ⟨lines ++ before, line, after, cause, ?_, ?_, hline, ?_⟩
  · rw [List.append_assoc]
  · exact List.forall_mem_append.2 ⟨hgood, hbefore⟩
  · rw [Rejection.behind_locate, List.length_append, Nat.add_comm]

end Program

/-- A program is read line by line. It is accepted exactly if each line is, and then it has the
instruction of each line at the line's number. Otherwise it is refused for its first mistake: the
cause is the one that this line is refused for, and the place is the number of the line and the line
as it was given, if the mistake concerns the line, and else there is none. Two parts that are
accepted make one program; a mistake in the first part hides the second, and a mistake in the second
part keeps its cause and has its place behind the first part. -/
theorem program_read_by_lines (lines more : List String) :
    ((∃ program, Program.parse lines = .ok program) ↔
        ∀ line ∈ lines, ∃ i, SourceLine.parse line = .ok i) ∧
      (∀ program, Program.parse lines = .ok program →
        program.size = lines.length ∧
          ∀ (n : Nat) (line : String), lines[n]? = some line →
            ∃ i, program[n]? = some i ∧ SourceLine.parse line = .ok i) ∧
      (∀ rejection, Program.parse lines = .error rejection ↔
        ∃ n line cause, FirstMistake lines n line cause ∧
          rejection = ⟨cause, if cause.concernsLine then some ⟨n, line⟩ else none⟩) ∧
      (∀ program rest, Program.parse lines = .ok program → Program.parse more = .ok rest →
        Program.parse (lines ++ more) = .ok (program ++ rest)) ∧
      (∀ rejection, Program.parse lines = .error rejection →
        Program.parse (lines ++ more) = .error rejection) ∧
      ∀ program rejection, Program.parse lines = .ok program →
        Program.parse more = .error rejection →
          Program.parse (lines ++ more) = .error (rejection.behind lines.length) := by
  refine ⟨Program.exists_parse_eq_ok_iff, fun program h => ⟨?_, fun n line =>
    Program.getElem?_of_parse h⟩, fun rejection => ?_, fun program rest => Program.parse_append,
    fun rejection => Program.parse_append_of_error, fun program rejection =>
    Program.parse_append_error⟩
  · exact (Program.parse_eq_ok_iff.1 h).length_eq.symm
  · exact Program.parse_eq_error_iff_firstMistake

/-- The blanks of the refused line stay in the report, and its number counts from the first part. -/
theorem program_read_by_lines_seam :
    (∃ program, Program.parse ["x:", "B x"] = .ok program) ∧
      Program.parse ["", " MVO R0\t"] = .error ⟨.invalidOpcode "MVO", some ⟨1, " MVO R0\t"⟩⟩ ∧
      Program.parse ["x:", "B x", "", " MVO R0\t"] =
        .error ⟨.invalidOpcode "MVO", some ⟨3, " MVO R0\t"⟩⟩ := by
  have hfront : Program.parse ["x:", "B x"] =
      .ok #[.defineLabel "x", ⟨.b, some .always, [⟨.address, "x"⟩]⟩] := by rfl
  have hback : Program.parse ["", " MVO R0\t"] =
      .error ⟨.invalidOpcode "MVO", some ⟨1, " MVO R0\t"⟩⟩ := by rfl
  obtain ⟨_, _, _, _, _, hseam⟩ := program_read_by_lines ["x:", "B x"] ["", " MVO R0\t"]
  exact ⟨⟨_, hfront⟩, hback, hseam _ _ hfront hback⟩

end ByteMachine
