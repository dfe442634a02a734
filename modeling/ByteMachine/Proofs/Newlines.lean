import ByteMachine.Proofs.Encoding
import ByteMachine.Proofs.Loading

/-!
# Lines of a file, under every convention

Lines that are written to a file are loaded as they were, whichever of the three
terminators stands between them. A carriage return is the one that needs care:
before a newline it is half of a pair, so what follows it must not start with
one, and no line does.
-/
namespace ByteMachine

namespace Text

/-- The characters that end a line wherever they stand. -/
def lineBreaks : List Char :=
  ['\n', '\r', '\x0b', '\x0c', '\x1c', '\x1d', '\x1e', '\u0085', '\u2028', '\u2029']

theorem isLineEnd_iff {c : Char} : isLineEnd c = true ↔ c ∈ lineBreaks := by
  have hcodes : lineEnds.Perm (lineBreaks.map Char.toNat) := by decide
  rw [isLineEnd, List.contains_iff_mem, hcodes.mem_iff, List.mem_map]
  constructor
  · rintro ⟨d, hd, hsame⟩
    rwa [← Char.toNat_inj.1 hsame]
  · intro hc
    exact ⟨c, hc, rfl⟩

theorem unbroken_iff {cs : List Char} : Unbroken cs ↔ ∀ c ∈ cs, c ∉ lineBreaks := by
  simp only [Unbroken, ← isLineEnd_iff, Bool.not_eq_true]

/-- What may stand at the end of a line. -/
def terminators : List String := ["\n", "\r\n", "\r"]

/-- The lines, each with the terminator behind it. -/
def terminated (terminator : String) (lines : List String) : String :=
  String.join (lines.map (· ++ terminator))

theorem terminated_cons (terminator line : String) (more : List String) :
    terminated terminator (line :: more) = line ++ terminator ++ terminated terminator more := by
  apply String.toList_inj.1
  simp [terminated]

/-- A newline and a carriage return end a line. -/
theorem Unbroken.ne_of_mem {cs : List Char} (h : Unbroken cs) {c : Char} (hc : c ∈ cs) :
    c ≠ '\n' ∧ c ≠ '\r' := by
  have hother := unbroken_iff.1 h c hc
  simp only [lineBreaks, List.mem_cons, not_or] at hother
  exact ⟨hother.1, hother.2.1⟩

/-- An unbroken part is put to the line under way. -/
theorem linesFrom_of_unbroken {part : List Char} (h : Unbroken part) (done : List String)
    (line rest : List Char) :
    linesFrom done line (part ++ rest) = linesFrom done (part.reverse ++ line) rest := by
  induction part generalizing line with
  | nil => rfl
  | cons c part ih =>
    obtain ⟨hc, hpart⟩ := List.forall_mem_cons.1 h
    obtain ⟨_, hreturn⟩ := h.ne_of_mem List.mem_cons_self
    rw [List.cons_append, linesFrom.eq_3 _ _ _ _ fun _ hsame => absurd hsame hreturn,
      if_neg (Bool.eq_false_iff.1 hc), ih hpart, List.reverse_cons, List.append_assoc,
      List.singleton_append]

/-- A terminator ends the line under way, unless a newline makes a pair of a carriage return. -/
theorem linesFrom_terminator {terminator : String} (h : terminator ∈ terminators)
    {rest : List Char} (hrest : terminator = "\r" → ∀ c ∈ rest.head?, c ≠ '\n')
    (done : List String) (line : List Char) :
    linesFrom done line (terminator.toList ++ rest) =
      linesFrom (String.ofList line.reverse :: done) [] rest := by
  simp only [terminators, List.mem_cons, List.not_mem_nil, or_false] at h
  rcases h with rfl | rfl | rfl
  · exact (linesFrom.eq_3 done line '\n' rest (by simp)).trans (if_pos rfl)
  · exact linesFrom.eq_2 ..
  · have hpair (more : List Char) (_ : '\r' = '\r') (hnext : rest = '\n' :: more) : False :=
      hrest rfl '\n' (by rw [hnext]; rfl) rfl
    exact (linesFrom.eq_3 _ _ _ _ hpair).trans (if_pos rfl)

section

variable {terminator : String} {lines : List String} {last : List Char}

/-- Behind a carriage return there is no newline, whether the next line is empty or not. -/
theorem ne_newline_of_head? (hlines : ∀ line ∈ lines, Unbroken line.toList) (hlast : Unbroken last)
    {c : Char} (hc : c ∈ ((terminated "\r" lines).toList ++ last).head?) : c ≠ '\n' := by
  cases lines with
  | nil =>
    exact (hlast.ne_of_mem (List.mem_of_mem_head? hc)).1
  | cons line more =>
    obtain ⟨hline, _⟩ := List.forall_mem_cons.1 hlines
    rw [terminated_cons, String.toList_append, String.toList_append] at hc
    cases hcs : line.toList with
    | nil =>
      rw [hcs] at hc
      obtain rfl : '\r' = c := Option.some.inj hc
      decide
    | cons first others =>
      rw [hcs] at hc hline
      obtain rfl : first = c := Option.some.inj hc
      exact (hline.ne_of_mem List.mem_cons_self).1

/-- Lines with a terminator behind each are read one by one, and then one more if anything is
left. -/
theorem linesFrom_terminated (h : terminator ∈ terminators)
    (hlines : ∀ line ∈ lines, Unbroken line.toList) (hlast : Unbroken last) (done : List String) :
    linesFrom done [] ((terminated terminator lines).toList ++ last) =
      done.reverse ++ lines ++ if last = [] then [] else [String.ofList last] := by
  induction lines generalizing done with
  | nil =>
    have hrest := linesFrom_of_unbroken hlast done [] []
    rw [List.append_nil, List.append_nil] at hrest
    refine hrest.trans ?_
    rw [linesFrom]
    split_ifs <;> simp_all
  | cons line more ih =>
    obtain ⟨hline, hmore⟩ := List.forall_mem_cons.1 hlines
    rw [terminated_cons, String.toList_append, String.toList_append, List.append_assoc,
      List.append_assoc, linesFrom_of_unbroken hline, linesFrom_terminator h, ih hmore]
    · simp
    · rintro rfl c hc
      exact ne_newline_of_head? hmore hlast hc

theorem lines_terminated (h : terminator ∈ terminators)
    (hlines : ∀ line ∈ lines, Unbroken line.toList) :
    Text.lines (terminated terminator lines) = lines := by
  have hread := @linesFrom_terminated terminator lines [] h hlines (by simp [Unbroken]) []
  simpa [Text.lines] using hread

theorem intercalate_concat (terminator : String) (front : List String) (last : String) :
    terminator.intercalate (front ++ [last]) = terminated terminator front ++ last := by
  induction front with
  | nil => simp [terminated, String.join]
  | cons line front ih =>
    rw [List.cons_append, String.intercalate_cons_of_ne_nil (by simp), ih, terminated_cons]
    simp [String.append_assoc]

/-- The last line needs no terminator, if it is not empty. -/
theorem lines_intercalate (h : terminator ∈ terminators)
    (hlines : ∀ line ∈ lines, Unbroken line.toList) (hlast : ∀ last ∈ lines.getLast?, last ≠ "") :
    Text.lines (terminator.intercalate lines) = lines := by
  rcases List.eq_nil_or_concat' lines with rfl | ⟨front, last, rfl⟩
  · rfl
  obtain ⟨hfront, hunbroken⟩ := List.forall_mem_append.1 hlines
  have hne : last.toList ≠ [] := fun hempty =>
    hlast last (by simp) (String.toList_eq_nil_iff.1 hempty)
  have hread := linesFrom_terminated h hfront (hunbroken last (by simp)) []
  rw [if_neg hne, String.ofList_toList] at hread
  rw [intercalate_concat, Text.lines, String.toList_append, hread]
  rfl

end

end Text

namespace SourceFile

theorem load_encoded (path : SourcePath) (text : String) :
    load path (.file text.toUTF8) = .ok (Text.lines text) := by
  rw [load, decodeLines, Text.Utf8.decode_toUTF8]

/-- A file is loaded if its bytes are well formed, and they are all that can be wrong with it. -/
theorem load_file_cases (path : SourcePath) (bytes : ByteArray) :
    (Text.Utf8.WellFormed bytes.data.toList ∧ ∃ lines, load path (.file bytes) = .ok lines) ∨
      (¬ Text.Utf8.WellFormed bytes.data.toList ∧
        ∃ fault, load path (.file bytes) = .error (.undecodable fault)) := by
  rw [← Text.Utf8.exists_decode_iff, load, decodeLines]
  cases Text.Utf8.decode bytes with
  | ok text => exact .inl ⟨⟨text, rfl⟩, _, rfl⟩
  | error fault =>
    refine .inr ⟨?_, fault, rfl⟩
    rintro ⟨text, h⟩
    cases h

end SourceFile

open SourceFile Text in
/-- Lines that hold no line end are loaded as they were written, with any of the three terminators
behind each of them; the last line may go without, if it is not empty. Whatever is loaded holds no
line end. A file is loaded exactly if its bytes are well formed, and otherwise it is undecodable. -/
theorem loading_recovers_lines (path : SourcePath) :
    (∀ terminator ∈ terminators, ∀ lines : List String,
        (∀ line ∈ lines, ∀ c ∈ line.toList, c ∉ lineBreaks) →
          load path (.file (terminated terminator lines).toUTF8) = .ok lines ∧
            ((∀ last ∈ lines.getLast?, last ≠ "") →
              load path (.file (terminator.intercalate lines).toUTF8) = .ok lines)) ∧
      (∀ content lines, load path content = .ok lines →
        ∀ line ∈ lines, ∀ c ∈ line.toList, c ∉ lineBreaks) ∧
      ∀ bytes,
        ((∃ lines, load path (.file bytes) = .ok lines) ↔ Utf8.WellFormed bytes.data.toList) ∧
          ((∃ fault, load path (.file bytes) = .error (.undecodable fault)) ↔
            ¬ Utf8.WellFormed bytes.data.toList) := by
  simp only [← unbroken_iff]
  refine ⟨fun terminator h lines hlines => ⟨?_, fun hlast => ?_⟩,
    fun content lines => unbroken_of_load, fun bytes => ?_⟩
  · rw [load_encoded, lines_terminated h hlines]
  · rw [load_encoded, lines_intercalate h hlines hlast]
  · rcases load_file_cases path bytes with ⟨hgood, _, hload⟩ | ⟨hbad, _, hload⟩
    · simp [hload, hgood]
    · simp [hload, hbad]

open SourceFile Text in
/-- An empty line between carriage returns is found, and so is a last line without one. -/
theorem loading_recovers_lines_returns :
    load (.parse "a.asm") (.file "x:\r\r\u2192 é".toUTF8) = .ok ["x:", "", "\u2192 é"] := by
  obtain ⟨hwritten, _⟩ := loading_recovers_lines (.parse "a.asm")
  obtain ⟨_, hopen⟩ := hwritten "\r" (by decide) ["x:", "", "\u2192 é"] (by simp [lineBreaks])
  exact hopen (by decide)

end ByteMachine
