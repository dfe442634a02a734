import ByteMachine.Proofs.Grammar
import ByteMachine.Proofs.Quotation

/-!
# Splitting a line

A line that is split into a mnemonic and words can be put together again from
them, and a line that is put together from such words is split into them. Any
other line has a piece between the first and the last one that does not end in a
comma. It is refused, and the message quotes the first piece of this kind, which
can be read back from the quotation. The pieces are those of `List.splitOn`.
-/
namespace ByteMachine

namespace Text

theorem pieces_eq_splitOn (separator : Char) (cs : List Char) :
    pieces separator cs = cs.splitOn separator := by
  have hsplit : ([separator].intercalate (pieces separator cs)).splitOn separator =
      pieces separator cs :=
    List.splitOn_intercalate separator (fun _ hpiece => not_mem_of_mem_pieces hpiece)
      (List.cons_ne_nil _ _)
  rw [← hsplit, intercalate_pieces]

/-- Each separator has a piece behind it. -/
theorem length_splitAt_snd (separator : Char) (cs : List Char) :
    (splitAt separator cs).2.length = cs.count separator := by
  induction cs with
  | nil => rfl
  | cons c rest ih =>
    by_cases h : c = separator <;> simp [splitAt, h, ih]

end Text

namespace SourceLine

variable {line piece : String} {fault : SyntaxFault}

/-- The line that a mnemonic and words make up. -/
def joined (mnemonic : String) : List String → String
  | [] => mnemonic
  | words => mnemonic ++ " " ++ ", ".intercalate words

/-- The pieces of a line other than the first and the last one. -/
def innerPieces (line : String) : List String :=
  (line.toList.splitOn ' ').tail.dropLast.map String.ofList

theorem toList_joined (mnemonic : String) (words : List String) :
    (joined mnemonic words).toList = join mnemonic.toList (words.map String.toList) := by
  cases words with
  | nil => rfl
  | cons word rest => simp [joined, join]

/-- A line is split into the words that make it up. -/
theorem tokens_eq_ok_iff_joined {mnemonic : String} {words : List String} :
    tokens line = .ok (mnemonic, words) ↔
      (∀ token ∈ mnemonic :: words, ' ' ∉ token.toList) ∧ line = joined mnemonic words := by
  rw [tokens_eq_ok_iff, ← toList_joined, String.toList_inj, List.forall_mem_cons, and_assoc]

theorem innerPieces_eq (line : String) :
    innerPieces line = (Text.splitAt ' ' line.toList).2.dropLast.map String.ofList := by
  rw [innerPieces, ← Text.pieces_eq_splitOn, Text.pieces, List.tail_cons]

/-- A piece between two others has a space on either side. -/
theorem two_le_count_of_mem_innerPieces (h : piece ∈ innerPieces line) :
    2 ≤ line.toList.count ' ' := by
  rw [innerPieces_eq] at h
  have hpos := List.length_pos_of_mem h
  rw [List.length_map, List.length_dropLast, Text.length_splitAt_snd] at hpos
  omega

/-- A line is refused for the first inner piece without a comma. -/
theorem tokens_eq_error_iff_find? :
    tokens line = .error fault ↔
      ∃ piece, (innerPieces line).find? (·.toList.getLast? ≠ some ',') = some piece ∧
        fault = .missingComma piece := by
  rw [innerPieces_eq, List.find?_map, tokens]
  simp only [Function.comp_def, String.toList_ofList, stripCommas_eq]
  cases (Text.splitAt ' ' line.toList).2.dropLast.find? (·.getLast? ≠ some ',') with
  | none => simp [bind, Except.bind, pure, Except.pure]
  | some missed => simp [bind, Except.bind, eq_comm]

/-- All the inner pieces before the one that is blamed end in a comma. -/
theorem exists_first_of_tokens_eq_error (h : tokens line = .error fault) :
    ∃ before piece after, innerPieces line = before ++ piece :: after ∧
      (∀ earlier ∈ before, earlier.toList.getLast? = some ',') ∧
      piece.toList.getLast? ≠ some ',' ∧ fault = .missingComma piece := by
  obtain ⟨piece, hfound, hfault⟩ := tokens_eq_error_iff_find?.1 h
  obtain ⟨hmissed, before, after, hpieces, hbefore⟩ := List.find?_eq_some_iff_append.1 hfound
  exact ⟨before, piece, after, hpieces, by simpa using hbefore, by simpa using hmissed, hfault⟩

theorem exists_missingComma_iff :
    (∃ piece, tokens line = .error (.missingComma piece)) ↔
      ∃ piece ∈ innerPieces line, piece.toList.getLast? ≠ some ',' := by
  simp only [tokens_eq_error_iff_find?, SyntaxFault.missingComma.injEq, exists_eq_right']
  rw [← Option.isSome_iff_exists, List.find?_isSome]
  simp only [decide_eq_true_eq]

end SourceLine

open SourceLine in
/-- Splitting a line loses nothing: its words have no space in them and make up the line, and a line
that is made up of such words is split into them. A line is refused if it has at least two spaces
and some piece other than the first and the last does not end in a comma. The message names the
first such piece, since no other piece is quoted alike. -/
theorem splitting_loses_nothing (line : String) :
    (∀ mnemonic words, tokens line = .ok (mnemonic, words) ↔
        (∀ token ∈ mnemonic :: words, ' ' ∉ token.toList) ∧ line = joined mnemonic words) ∧
      ((∃ piece, tokens line = .error (.missingComma piece)) ↔
        2 ≤ line.toList.count ' ' ∧
          ∃ piece ∈ innerPieces line, piece.toList.getLast? ≠ some ',') ∧
      ∀ fault, tokens line = .error fault →
        ∃ before piece after, innerPieces line = before ++ piece :: after ∧
          (∀ earlier ∈ before, earlier.toList.getLast? = some ',') ∧
          piece.toList.getLast? ≠ some ',' ∧ fault = .missingComma piece ∧
          fault.message? = some ("Comma missing after operand " ++ Text.quoted piece) ∧
          ∀ other, Text.quoted other = Text.quoted piece → other = piece := by
  refine ⟨fun mnemonic words => tokens_eq_ok_iff_joined, ?_, fun fault hfault => ?_⟩
  · rw [exists_missingComma_iff]
    constructor
    · rintro ⟨piece, hpiece, hmissed⟩
      exact ⟨two_le_count_of_mem_innerPieces hpiece, piece, hpiece, hmissed⟩
    · rintro ⟨_, hexists⟩
      exact hexists
  · obtain ⟨before, piece, after, hpieces, hbefore, hmissed, rfl⟩ :=
      exists_first_of_tokens_eq_error hfault
    refine ⟨before, piece, after, hpieces, hbefore, hmissed, rfl, rfl, ?_⟩
    intro other hsame
    exact Text.quoted_injective hsame

open SourceLine in
/-- Of two commas one is kept, and so are an empty word and the comma at the end. Where a space is
doubled the empty piece is blamed, though a later one misses its comma too. -/
theorem splitting_loses_nothing_doubled :
    tokens "ADD R0,, , #1," = .ok ("ADD", ["R0,", "", "#1,"]) ∧
      tokens "ADD R0,  R1 R2" = .error (.missingComma "") := by
  obtain ⟨hwords, _⟩ := splitting_loses_nothing "ADD R0,, , #1,"
  obtain ⟨_, hrefused, hfirst⟩ := splitting_loses_nothing "ADD R0,  R1 R2"
  refine ⟨(hwords _ _).2 ⟨by decide, by decide⟩, ?_⟩
  have hinner : innerPieces "ADD R0,  R1 R2" = ["R0,", "", "R1"] := by decide
  obtain ⟨missed, hmissed⟩ := hrefused.2 ⟨by decide, "", by simp [hinner], by simp⟩
  obtain ⟨before, piece, after, hpieces, hbefore, hpiece, hfault, _⟩ := hfirst _ hmissed
  obtain rfl := SyntaxFault.missingComma.inj hfault
  rw [hmissed]
  rw [hinner] at hpieces
  -- The first inner piece has its comma and the second one has none, so just one stands before it.
  cases before with
  | nil =>
    obtain ⟨rfl, _⟩ := List.cons.inj hpieces
    exact absurd (by decide) hpiece
  | cons first others =>
    obtain ⟨_, hlater⟩ := List.cons.inj hpieces
    cases others with
    | nil =>
      obtain ⟨rfl, _⟩ := List.cons.inj hlater
      rfl
    | cons second more =>
      obtain ⟨rfl, _⟩ := List.cons.inj hlater
      exact absurd (hbefore "" (by simp)) (by decide)

end ByteMachine
