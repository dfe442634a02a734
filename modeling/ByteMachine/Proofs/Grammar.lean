import ByteMachine.Proofs.Spelling

/-!
# The grammar of a line

Whether a line is an instruction can be told from its pieces alone, without
reading it: the commas stand where they should, the first piece is a mnemonic,
and what follows a newline within a word is only layout. These are three
conditions on the pieces, in words of their own. `line_grammar` says that a line
is read exactly when they hold, and that of several that fail the commas are
reported before the mnemonic, and the mnemonic before the operands.
-/
namespace ByteMachine

namespace SourceLine

/-- Every piece but the last ends in a comma. -/
def Divided (pieces : List (List Char)) : Prop :=
  ∀ piece ∈ pieces.dropLast, piece.getLast? = some ','

/-- The words in the pieces: the last one as it is, the others without their last character. -/
def wordsOf (pieces : List (List Char)) : List (List Char) :=
  pieces.dropLast.map List.dropLast ++ pieces.getLast?.toList

/-- What may follow the first letter of a branch. -/
def branchSuffixes : List String := ["", "EQ", "NE", "LT", "GT"]

/-- The names of the operations other than branches. -/
def plainNames : List String :=
  ["LDR", "STR", "MOV", "ADD", "SUB", "CMP", "AND", "ORR", "XOR", "MVN", "LSL", "LSR", "HALT",
    "NOP", "LABEL", "OUT"]

/-- The word names an operation: a `B` with a suffix in the two characters behind it, whatever
follows them, or else one of the other names. -/
def IsMnemonic (word : List Char) : Prop :=
  (word.head? = some 'B' ∧ String.ofList (word.tail.take 2) ∈ branchSuffixes) ∨
    (word.head? ≠ some 'B' ∧ String.ofList word ∈ plainNames)

/-- From its first newline on, the word has only layout. -/
def EndsInLayout (word : List Char) : Prop :=
  ∀ c ∈ word.dropWhile (· ≠ '\n'), c ∈ [' ', '\t', '\n', '\r']

instance (pieces : List (List Char)) : Decidable (Divided pieces) :=
  inferInstanceAs (Decidable (∀ piece ∈ pieces.dropLast, piece.getLast? = some ','))

instance (word : List Char) : Decidable (EndsInLayout word) :=
  List.decidableBAll (· ∈ [' ', '\t', '\n', '\r']) (word.dropWhile (· ≠ '\n'))

/-- A comma is missed at the first piece that should end in one. -/
theorem stripCommas_eq (pieces : List (List Char)) :
    stripCommas pieces =
      match pieces.dropLast.find? (·.getLast? ≠ some ',') with
      | some piece => .error (.missingComma (String.ofList piece))
      | none => .ok (wordsOf pieces) := by
  fun_induction stripCommas pieces with
  | case1 => rfl
  | case2 last => rfl
  | case3 piece rest hrest hcomma ih =>
    obtain ⟨next, more, rfl⟩ := List.exists_cons_of_ne_nil hrest
    rw [ih, List.dropLast_cons_cons, List.find?_cons_of_neg (by simpa using hcomma)]
    cases (next :: more).dropLast.find? (·.getLast? ≠ some ',') with
    | some missed => rfl
    | none => simp [wordsOf, bind, Except.bind, pure, Except.pure]
  | case4 piece rest hrest hcomma =>
    obtain ⟨next, more, rfl⟩ := List.exists_cons_of_ne_nil hrest
    rw [List.dropLast_cons_cons, List.find?_cons_of_pos (by simpa using hcomma)]

theorem stripCommas_cases (pieces : List (List Char)) :
    (Divided pieces ∧ stripCommas pieces = .ok (wordsOf pieces)) ∨
      (¬ Divided pieces ∧ ∃ piece, stripCommas pieces = .error (.missingComma piece)) := by
  have hdivided : Divided pieces ↔ pieces.dropLast.find? (·.getLast? ≠ some ',') = none := by
    simp [Divided, List.find?_eq_none]
  rw [stripCommas_eq, hdivided]
  cases pieces.dropLast.find? (·.getLast? ≠ some ',') with
  | none => exact .inl ⟨rfl, rfl⟩
  | some piece => exact .inr ⟨by simp, _, rfl⟩

/-- An entry of a table is found by its name if one has it. -/
theorem exists_find?_iff {α : Type} {table : List α} {name : α → String} {word : String} :
    (∃ a, table.find? (name · = word) = some a) ↔ word ∈ table.map name := by
  rw [← Option.isSome_iff_exists, List.find?_isSome]
  simp

theorem exists_ofSuffix?_iff {suffix : String} :
    (∃ condition, Condition.ofSuffix? suffix = some condition) ↔ suffix ∈ branchSuffixes := by
  have hall : (Condition.all.map Condition.suffix).Perm branchSuffixes := by decide
  exact exists_find?_iff.trans hall.mem_iff

theorem exists_ofName?_iff {name : String} (h : name ≠ "B") :
    (∃ opcode, Opcode.ofName? name = some opcode) ↔ name ∈ plainNames := by
  have hall : (Opcode.known.map Opcode.name).Perm ("B" :: plainNames) := by decide
  rw [Opcode.ofName?, exists_find?_iff, hall.mem_iff, List.mem_cons, or_iff_right h]

/-- A mnemonic stands for an operation, and any other word is refused: for its suffix if it starts
like a branch, else as a whole. -/
theorem classify_cases (word : List Char) :
    (IsMnemonic word ∧ ∃ form, classify (String.ofList word) = .ok form) ∨
      (¬ IsMnemonic word ∧ word.head? = some 'B' ∧
        ∃ suffix, classify (String.ofList word) = .error (.invalidBranchFlag suffix)) ∨
      (¬ IsMnemonic word ∧ word.head? ≠ some 'B' ∧
        ∃ name, classify (String.ofList word) = .error (.invalidOpcode name)) := by
  by_cases hb : word.head? = some 'B'
  · obtain ⟨rest, rfl⟩ := List.head?_eq_some_iff.1 hb
    have hbranch : IsMnemonic ('B' :: rest) ↔
        ∃ condition, Condition.ofSuffix? (String.ofList (rest.take 2)) = some condition := by
      rw [IsMnemonic, exists_ofSuffix?_iff]
      simp
    rw [hbranch, classify]
    simp only [String.toList_ofList]
    cases Condition.ofSuffix? (String.ofList (rest.take 2)) with
    | some condition => exact .inl ⟨⟨condition, rfl⟩, _, rfl⟩
    | none => exact .inr (.inl ⟨by simp, hb, _, rfl⟩)
  · have hname : String.ofList word ≠ "B" := by
      intro hsame
      obtain rfl : word = ['B'] := by simpa using congrArg String.toList hsame
      exact hb rfl
    have hother : IsMnemonic word ↔
        ∃ opcode, Opcode.ofName? (String.ofList word) = some opcode := by
      rw [IsMnemonic, exists_ofName?_iff hname]
      simp [hb]
    rw [hother, classify, String.toList_ofList]
    split
    · exact absurd rfl hb
    · cases Opcode.ofName? (String.ofList word) with
      | some opcode => exact .inl ⟨⟨opcode, rfl⟩, _, rfl⟩
      | none => exact .inr (.inr ⟨by simp, hb, _, rfl⟩)

theorem exists_parse?_iff {word : List Char} :
    (∃ o, Operand.parse? (String.ofList word) = some o) ↔ EndsInLayout word := by
  have hlayout : EndsInLayout word ↔ (word.dropWhile (· ≠ '\n')).all isLayout = true := by
    simp [EndsInLayout, isLayout, or_assoc]
  rw [hlayout, Operand.parse?_eq, String.toList_ofList]
  split_ifs with hb hrest
  · subst hb
    simp
  · simpa using hrest
  · simpa using hrest

theorem operands_cases (words : List (List Char)) :
    ((∀ word ∈ words, EndsInLayout word) ∧ ∃ os, operands (words.map String.ofList) = .ok os) ∨
      ((¬ ∀ word ∈ words, EndsInLayout word) ∧
        ∃ token, operands (words.map String.ofList) = .error (.malformedOperand token)) := by
  induction words with
  | nil => exact .inl ⟨by simp, [], rfl⟩
  | cons word rest ih =>
    rw [List.map_cons, operands, List.forall_mem_cons]
    cases hword : Operand.parse? (String.ofList word) with
    | none =>
      have hbroken : ¬ EndsInLayout word := by simp [← exists_parse?_iff, hword]
      exact .inr ⟨fun h => hbroken h.1, _, rfl⟩
    | some o =>
      have hfirst : EndsInLayout word := exists_parse?_iff.1 ⟨o, hword⟩
      rcases ih with ⟨hrest, os, hos⟩ | ⟨hrest, token, hfault⟩
      · exact .inl ⟨⟨hfirst, hrest⟩, o :: os, by rw [hos]; rfl⟩
      · exact .inr ⟨fun h => hrest h.2, token, by rw [hfault]; rfl⟩

theorem parseTrimmed_of_pieces {cs mnemonic : List Char} {pieces : List (List Char)}
    (hne : cs ≠ []) (hcolon : cs.getLast? ≠ some ':')
    (hpieces : Text.pieces ' ' cs = mnemonic :: pieces) :
    parseTrimmed cs = do
      let words ← stripCommas pieces
      let (opcode, branch) ← classify (String.ofList mnemonic)
      let os ← operands (words.map String.ofList)
      return ⟨opcode, branch, os⟩ := by
  obtain ⟨hfirst, hrest⟩ := List.cons.inj hpieces
  rw [parseTrimmed, if_neg (by simpa using hne), if_neg hcolon, tokens, String.toList_ofList]
  simp only [hfirst, hrest, bind_assoc, pure_bind]

/-- How a line is read that is neither empty nor a definition with a colon. -/
theorem parseTrimmed_cases {cs mnemonic : List Char} {pieces : List (List Char)} (hne : cs ≠ [])
    (hcolon : cs.getLast? ≠ some ':') (hpieces : Text.pieces ' ' cs = mnemonic :: pieces) :
    (¬ Divided pieces ∧ ∃ piece, parseTrimmed cs = .error (.missingComma piece)) ∨
      (Divided pieces ∧ ¬ IsMnemonic mnemonic ∧ mnemonic.head? = some 'B' ∧
        ∃ suffix, parseTrimmed cs = .error (.invalidBranchFlag suffix)) ∨
      (Divided pieces ∧ ¬ IsMnemonic mnemonic ∧ mnemonic.head? ≠ some 'B' ∧
        ∃ name, parseTrimmed cs = .error (.invalidOpcode name)) ∨
      (Divided pieces ∧ IsMnemonic mnemonic ∧ (¬ ∀ word ∈ wordsOf pieces, EndsInLayout word) ∧
        ∃ token, parseTrimmed cs = .error (.malformedOperand token)) ∨
      (Divided pieces ∧ IsMnemonic mnemonic ∧ (∀ word ∈ wordsOf pieces, EndsInLayout word) ∧
        ∃ i, parseTrimmed cs = .ok i) := by
  rw [parseTrimmed_of_pieces hne hcolon hpieces]
  rcases stripCommas_cases pieces with ⟨hdivided, hstrip⟩ | ⟨hdivided, piece, hstrip⟩
  · rw [hstrip]
    rcases classify_cases mnemonic with ⟨hname, form, hform⟩ | ⟨hname, hb, suffix, hform⟩ |
      ⟨hname, hb, name, hform⟩
    · rcases operands_cases (wordsOf pieces) with ⟨hwords, os, hos⟩ | ⟨hwords, token, hos⟩
      · refine .inr (.inr (.inr (.inr ⟨hdivided, hname, hwords, ⟨form.1, form.2, os⟩, ?_⟩)))
        simp only [hform, hos, bind, Except.bind, pure, Except.pure]
      · refine .inr (.inr (.inr (.inl ⟨hdivided, hname, hwords, token, ?_⟩)))
        simp only [hform, hos, bind, Except.bind]
    · refine .inr (.inl ⟨hdivided, hname, hb, suffix, ?_⟩)
      simp only [hform, bind, Except.bind]
    · refine .inr (.inr (.inl ⟨hdivided, hname, hb, name, ?_⟩))
      simp only [hform, bind, Except.bind]
  · exact .inl ⟨hdivided, piece, by rw [hstrip]; rfl⟩

end SourceLine

open SourceLine in
/-- Which lines are read. Without the blanks around it, a line is empty, or it ends in a colon, or
its pieces meet three conditions: commas divide them, the first is a mnemonic, and the words among
the others end in layout where they hold a newline. If some of the conditions fail, the first of
them in this order is the one that is reported. -/
theorem line_grammar {line : String} {cs mnemonic : List Char} {pieces : List (List Char)}
    (hcs : Text.trim line.toList = cs) (hpieces : Text.pieces ' ' cs = mnemonic :: pieces) :
    ((∃ i, SourceLine.parse line = .ok i) ↔ cs = [] ∨ cs.getLast? = some ':' ∨
        (Divided pieces ∧ IsMnemonic mnemonic ∧ ∀ word ∈ wordsOf pieces, EndsInLayout word)) ∧
      (cs ≠ [] → cs.getLast? ≠ some ':' →
        ((∃ piece, SourceLine.parse line = .error (.missingComma piece)) ↔ ¬ Divided pieces) ∧
        ((∃ suffix, SourceLine.parse line = .error (.invalidBranchFlag suffix)) ↔
          Divided pieces ∧ ¬ IsMnemonic mnemonic ∧ mnemonic.head? = some 'B') ∧
        ((∃ name, SourceLine.parse line = .error (.invalidOpcode name)) ↔
          Divided pieces ∧ ¬ IsMnemonic mnemonic ∧ mnemonic.head? ≠ some 'B') ∧
        ((∃ token, SourceLine.parse line = .error (.malformedOperand token)) ↔
          Divided pieces ∧ IsMnemonic mnemonic ∧
            ¬ ∀ word ∈ wordsOf pieces, EndsInLayout word)) := by
  rw [SourceLine.parse, hcs]
  by_cases hempty : cs = []
  · subst hempty
    exact ⟨by simp [parseTrimmed], fun h => absurd rfl h⟩
  by_cases hcolon : cs.getLast? = some ':'
  · exact ⟨by simp [parseTrimmed, hempty, hcolon], fun _ h => absurd hcolon h⟩
  rcases parseTrimmed_cases hempty hcolon hpieces with ⟨hdivided, _, hline⟩ |
    ⟨hdivided, hname, hb, _, hline⟩ | ⟨hdivided, hname, hb, _, hline⟩ |
    ⟨hdivided, hname, hwords, _, hline⟩ | ⟨hdivided, hname, hwords, _, hline⟩
  · simp [hline, hempty, hcolon, hdivided]
  · simp [hline, hempty, hcolon, hdivided, hname, hb]
  · simp [hline, hempty, hcolon, hdivided, hname, hb]
  · simp [hline, hempty, hcolon, hdivided, hname, hwords]
  · simpa [hline, hempty, hcolon, hdivided, hname] using hwords

/-- A line with all three mistakes is blamed for its commas; one with a newline before a comma is
read. -/
theorem line_grammar_newlines :
    (∃ piece, SourceLine.parse " BXX R0 #1\n2\t" = .error (.missingComma piece)) ∧
      ∃ i, SourceLine.parse "MOV R0\n, #1" = .ok i := by
  have hwrong := @line_grammar " BXX R0 #1\n2\t" _ _ _ rfl rfl
  have hright := @line_grammar "MOV R0\n, #1" _ _ _ rfl rfl
  refine ⟨(hwrong.2 (by decide) (by decide)).1.2 (by decide), hright.1.2 (.inr (.inr ?_))⟩
  exact ⟨by decide, .inr (by decide), by decide⟩

end ByteMachine
