import ByteMachine.Proofs.Grammar
import ByteMachine.SourceFile
import Mathlib.Data.List.Infix

/-!
# Programs from files

An operand can be malformed only around a newline, and a malformed operand is the
one mistake that is reported without its place. A file is cut at every line end,
so its lines have no newline left: whatever is wrong with a program from a file,
the report says in which line.
-/
namespace ByteMachine

namespace Text

/-- No character of the text ends a line. -/
def Unbroken (cs : List Char) : Prop := ∀ c ∈ cs, isLineEnd c = false

theorem Unbroken.newline_not_mem {cs : List Char} (h : Unbroken cs) : '\n' ∉ cs := by
  intro hmem
  have hend : isLineEnd '\n' = true := rfl
  simp [h _ hmem] at hend

/-- A line that comes to its end is put to the lines before it. -/
theorem Unbroken.ended {done : List String} {line : List Char} (hline : Unbroken line)
    (hdone : ∀ earlier ∈ done, Unbroken earlier.toList) :
    ∀ earlier ∈ String.ofList line.reverse :: done, Unbroken earlier.toList := by
  refine List.forall_mem_cons.2 ⟨fun c hc => ?_, hdone⟩
  rw [String.toList_ofList, List.mem_reverse] at hc
  exact hline c hc

/-- What is cut off is unbroken, if that was so of the lines before it and of the part of a line
that has been read. -/
theorem unbroken_of_mem_linesFrom {done : List String} {line rest : List Char} {read : String}
    (hdone : ∀ earlier ∈ done, Unbroken earlier.toList) (hline : Unbroken line)
    (h : read ∈ linesFrom done line rest) : Unbroken read.toList := by
  fun_induction linesFrom done line rest with
  | case1 done line hempty => exact hdone read (List.mem_reverse.1 h)
  | case2 done line hempty => exact hline.ended hdone read (List.mem_reverse.1 h)
  | case3 done line rest ih => exact ih (hline.ended hdone) (by simp [Unbroken]) h
  | case4 done line c rest hpair hend ih => exact ih (hline.ended hdone) (by simp [Unbroken]) h
  | case5 done line c rest hpair hend ih =>
    exact ih hdone (List.forall_mem_cons.2 ⟨Bool.eq_false_iff.2 hend, hline⟩) h

theorem unbroken_of_mem_lines {text line : String} (h : line ∈ lines text) :
    Unbroken line.toList :=
  unbroken_of_mem_linesFrom (by simp) (by simp [Unbroken]) h

/-- The pieces of a text hold no other characters than it. -/
theorem mem_of_mem_pieces {separator c : Char} {cs piece : List Char}
    (h : piece ∈ pieces separator cs) (hc : c ∈ piece) : c ∈ cs := by
  induction cs generalizing piece with
  | nil =>
    simp only [pieces, splitAt, List.mem_singleton] at h
    simp [h] at hc
  | cons first rest ih =>
    simp only [pieces, splitAt] at h
    split at h
    · rcases List.mem_cons.1 h with rfl | hlater
      · simp at hc
      · exact List.mem_cons_of_mem _ (ih hlater hc)
    · rcases List.mem_cons.1 h with rfl | hlater
      · rcases List.mem_cons.1 hc with rfl | hc
        · exact List.mem_cons_self
        · exact List.mem_cons_of_mem _ (ih List.mem_cons_self hc)
      · exact List.mem_cons_of_mem _ (ih (List.mem_cons_of_mem _ hlater) hc)

end Text

namespace SourceLine

/-- A word is a piece, or the start of one. -/
theorem exists_piece_of_mem_wordsOf {pieces : List (List Char)} {word : List Char}
    (h : word ∈ wordsOf pieces) : ∃ piece ∈ pieces, ∀ c ∈ word, c ∈ piece := by
  rcases List.mem_append.1 h with h | h
  · obtain ⟨piece, hpiece, rfl⟩ := List.mem_map.1 h
    exact ⟨piece, List.mem_of_mem_dropLast hpiece, fun c => List.mem_of_mem_dropLast⟩
  · exact ⟨word, List.mem_of_mem_getLast? (Option.mem_toList.1 h), fun c hc => hc⟩

theorem endsInLayout_of_newline_not_mem {word : List Char} (h : '\n' ∉ word) :
    EndsInLayout word := by
  have hrest : word.dropWhile (· ≠ '\n') = [] := by
    rw [List.dropWhile_eq_nil_iff]
    intro c hc
    exact decide_eq_true fun hsame => h (hsame ▸ hc)
  rw [EndsInLayout, hrest]
  exact List.forall_mem_nil _

/-- Without a newline in the line, no operand is malformed. -/
theorem declared_of_newline_not_mem {line : String} {cause : SyntaxFault}
    (hline : '\n' ∉ line.toList) (h : parse line = .error cause) :
    (∃ piece, cause = .missingComma piece) ∨ (∃ name, cause = .invalidOpcode name) ∨
      ∃ suffix, cause = .invalidBranchFlag suffix := by
  have hne : Text.trim line.toList ≠ [] := by
    intro hempty
    simp [parse, parseTrimmed, hempty] at h
  have hcolon : (Text.trim line.toList).getLast? ≠ some ':' := by
    intro hlast
    simp [parse, parseTrimmed, hne, hlast] at h
  rcases parseTrimmed_cases hne hcolon rfl with ⟨_, piece, hparse⟩ | ⟨_, _, _, suffix, hparse⟩ |
    ⟨_, _, _, name, hparse⟩ | ⟨_, _, hwords, _⟩ | ⟨_, _, _, i, hparse⟩
  · exact .inl ⟨piece, Except.error.inj (h.symm.trans hparse)⟩
  · exact .inr (.inr ⟨suffix, Except.error.inj (h.symm.trans hparse)⟩)
  · exact .inr (.inl ⟨name, Except.error.inj (h.symm.trans hparse)⟩)
  · refine absurd (fun word hword => ?_) hwords
    obtain ⟨piece, hpiece, hpart⟩ := exists_piece_of_mem_wordsOf hword
    refine endsInLayout_of_newline_not_mem fun hnewline => hline ?_
    exact Text.mem_of_mem_trim
      (Text.mem_of_mem_pieces (List.mem_cons_of_mem _ hpiece) (hpart _ hnewline))
  · rw [parse, hparse] at h
    simp at h

end SourceLine

/-- Lines that were loaded are those of a text. -/
theorem SourceFile.unbroken_of_load {path : SourcePath} {content : Content} {lines : List String}
    (h : load path content = .ok lines) : ∀ line ∈ lines, Text.Unbroken line.toList := by
  cases content with
  | file bytes =>
    simp only [load, decodeLines] at h
    split at h
    · obtain rfl := Except.ok.inj h
      intro line hline
      exact Text.unbroken_of_mem_lines hline
    · simp at h
  | absent => simp [load] at h
  | refused found refusal => simp [load] at h

/-- A file either holds a program, with an instruction in each of its lines, or it is refused for
its first line that is no instruction. The report has the number of this line and the line as it
stands in the file, and blames its commas, its mnemonic or the suffix of its branch: no other
mistake is left in a file. -/
theorem file_mistakes_are_located {path : SourcePath} {content : Content} {lines : List String}
    (h : SourceFile.load path content = .ok lines) :
    (∃ program, Program.parse lines = .ok program ∧ program.size = lines.length ∧
        List.Forall₂ (fun line i => SourceLine.parse line = .ok i) lines program.toList) ∨
      ∃ (n : Nat) (line : String) (cause : SyntaxFault),
        Program.parse lines = .error ⟨cause, some ⟨n, line⟩⟩ ∧
        lines[n]? = some line ∧ SourceLine.parse line = .error cause ∧
        (∀ k < n, ∃ earlier i, lines[k]? = some earlier ∧ SourceLine.parse earlier = .ok i) ∧
        ((∃ piece, cause = .missingComma piece) ∨ (∃ name, cause = .invalidOpcode name) ∨
          ∃ suffix, cause = .invalidBranchFlag suffix) := by
  cases hparse : Program.parse lines with
  | ok program =>
    have hread := Program.parse_eq_ok_iff.1 hparse
    exact .inl ⟨program, rfl, hread.length_eq.symm, hread⟩
  | error rejection =>
    obtain ⟨before, line, after, cause, rfl, hbefore, hline, rfl⟩ :=
      Program.parse_eq_error_iff.1 hparse
    have hunbroken := SourceFile.unbroken_of_load h line (by simp)
    have hdeclared := SourceLine.declared_of_newline_not_mem hunbroken.newline_not_mem hline
    refine .inr ⟨before.length, line, cause, ?_, by simp, hline, ?_, hdeclared⟩
    · rcases hdeclared with ⟨_, rfl⟩ | ⟨_, rfl⟩ | ⟨_, rfl⟩ <;> rfl
    · intro k hk
      obtain ⟨i, hi⟩ := hbefore before[k] (List.getElem_mem hk)
      exact ⟨before[k], i, by rw [List.getElem?_append_left hk, List.getElem?_eq_getElem], hi⟩

/-- Two lines, of which the second has no operation that the machine has. -/
def mistyped : ByteArray := "MOV R0, #1\r\n  MVO R0, #2 \n".toUTF8

theorem file_mistakes_are_located_mistyped :
    SourceFile.load (.parse "a.asm") (.file mistyped) = .ok ["MOV R0, #1", "  MVO R0, #2 "] ∧
      Program.parse ["MOV R0, #1", "  MVO R0, #2 "] =
        .error ⟨.invalidOpcode "MVO", some ⟨1, "  MVO R0, #2 "⟩⟩ := by
  have hload : SourceFile.load (.parse "a.asm") (.file mistyped) =
      .ok ["MOV R0, #1", "  MVO R0, #2 "] := by
    simp only [SourceFile.load, SourceFile.decodeLines, mistyped, Text.Utf8.decode_toUTF8]
    rfl
  have hfirst : ∀ cause, SourceLine.parse "MOV R0, #1" ≠ .error cause := by
    intro cause h
    have hok : (SourceLine.parse "MOV R0, #1").isOk = true := rfl
    simp [h, Except.isOk, Except.toBool] at hok
  have hsecond : SourceLine.parse "  MVO R0, #2 " = .error (.invalidOpcode "MVO") := rfl
  refine ⟨hload, ?_⟩
  rcases file_mistakes_are_located hload with ⟨program, _, _, hread⟩ |
    ⟨n, line, cause, hparse, hline, hcause, _⟩
  · obtain ⟨i, _, _, hrest, _⟩ := List.forall₂_cons_left_iff.1 hread
    obtain ⟨j, _, hj, _⟩ := List.forall₂_cons_left_iff.1 hrest
    simp [hsecond] at hj
  · rcases n with _ | _ | n
    · obtain rfl := Option.some.inj hline
      exact absurd hcause (hfirst cause)
    · obtain rfl := Option.some.inj hline
      obtain rfl := Except.error.inj (hsecond.symm.trans hcause)
      exact hparse
    · simp at hline

end ByteMachine
