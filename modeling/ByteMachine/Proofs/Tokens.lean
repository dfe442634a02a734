import ByteMachine.Proofs.Listing

/-!
# The words of a line

A line is cut at its spaces, and every word but the last loses a comma. Both
steps lose nothing: `SourceLine.join` puts the comma and the space back, and
`SourceLine.tokens_eq_ok_iff` says that a line has certain words exactly when it
is their join and none of them holds a space.
-/
namespace ByteMachine

namespace Text

variable {separator : Char}

theorem splitAt_of_not_mem {piece : List Char} (h : separator ∉ piece) :
    splitAt separator piece = (piece, []) := by
  induction piece with
  | nil => rfl
  | cons c rest ih =>
    have hc : c ≠ separator := fun hsame => h (by simp [hsame])
    have hrest : separator ∉ rest := fun hmem => h (List.mem_cons_of_mem c hmem)
    simp [splitAt, ih hrest, hc]

theorem splitAt_append {piece : List Char} (h : separator ∉ piece) (rest : List Char) :
    splitAt separator (piece ++ separator :: rest) = (piece, pieces separator rest) := by
  induction piece with
  | nil => simp [splitAt, pieces]
  | cons c more ih =>
    have hc : c ≠ separator := fun hsame => h (by simp [hsame])
    have hmore : separator ∉ more := fun hmem => h (List.mem_cons_of_mem c hmem)
    simp [splitAt, ih hmore, hc]

/-- Pieces that were joined are found again. -/
theorem pieces_intercalate {first : List Char} {more : List (List Char)}
    (h : ∀ piece ∈ first :: more, separator ∉ piece) :
    pieces separator ([separator].intercalate (first :: more)) = first :: more := by
  induction more generalizing first with
  | nil => simp [pieces, splitAt_of_not_mem (h first (by simp))]
  | cons second rest ih =>
    have hrest : ∀ piece ∈ second :: rest, separator ∉ piece :=
      fun piece hpiece => h piece (List.mem_cons_of_mem first hpiece)
    rw [List.intercalate_cons_cons, List.append_assoc, List.singleton_append, pieces,
      splitAt_append (h first (by simp)), ih hrest]

/-- The pieces of a text are the ones that make it up and hold no separator. -/
theorem pieces_eq_iff {cs first : List Char} {more : List (List Char)} :
    pieces separator cs = first :: more ↔
      (∀ piece ∈ first :: more, separator ∉ piece) ∧
        cs = [separator].intercalate (first :: more) := by
  constructor
  · intro h
    rw [← h]
    exact ⟨fun piece hpiece => not_mem_of_mem_pieces hpiece, (intercalate_pieces separator cs).symm⟩
  · rintro ⟨h, rfl⟩
    exact pieces_intercalate h

end Text

namespace SourceLine

/-- The pieces that words stand in: with a comma behind every word but the last. -/
def withCommas : List (List Char) → List (List Char)
  | [] => []
  | [last] => [last]
  | word :: next :: rest => (word ++ [',']) :: withCommas (next :: rest)

/-- A mnemonic and the words behind it, as they stand in a line. -/
def join (mnemonic : List Char) : List (List Char) → List Char
  | [] => mnemonic
  | words => mnemonic ++ ' ' :: [',', ' '].intercalate words

theorem withCommas_ne_nil {words : List (List Char)} (h : words ≠ []) : withCommas words ≠ [] := by
  fun_cases withCommas words <;> simp_all

theorem stripCommas_withCommas (words : List (List Char)) :
    stripCommas (withCommas words) = .ok words := by
  fun_induction withCommas words with
  | case1 => rfl
  | case2 last => rfl
  | case3 word next rest ih =>
    have hrest : withCommas (next :: rest) ≠ [] := withCommas_ne_nil (by simp)
    rw [stripCommas.eq_3 _ _ hrest, ih]
    simp [bind, Except.bind, pure, Except.pure]

theorem eq_withCommas_of_stripCommas {pieces words : List (List Char)}
    (h : stripCommas pieces = .ok words) : pieces = withCommas words := by
  fun_induction stripCommas pieces generalizing words with
  | case1 =>
    obtain rfl := Except.ok.inj h
    rfl
  | case2 last =>
    obtain rfl := Except.ok.inj h
    rfl
  | case3 piece rest hrest hcomma ih =>
    obtain ⟨stripped, hstripped, hwords⟩ := bind_eq_ok_iff.1 h
    obtain rfl := Except.ok.inj hwords
    have hpiece : piece = piece.dropLast ++ [','] := (List.dropLast_append_getLast? _ hcomma).symm
    have hrest' := ih hstripped
    cases stripped with
    | nil => exact absurd hrest' hrest
    | cons next more => rw [withCommas, ← hpiece, ← hrest']
  | case4 piece rest hrest hcomma => simp at h

/-- The commas come off exactly where they were put. -/
theorem stripCommas_eq_ok_iff {pieces words : List (List Char)} :
    stripCommas pieces = .ok words ↔ pieces = withCommas words := by
  constructor
  · exact eq_withCommas_of_stripCommas
  · rintro rfl
    exact stripCommas_withCommas words

theorem intercalate_withCommas (mnemonic : List Char) (words : List (List Char)) :
    [' '].intercalate (mnemonic :: withCommas words) = join mnemonic words := by
  fun_induction withCommas words generalizing mnemonic with
  | case1 => simp [join]
  | case2 last => simp [join]
  | case3 word next rest ih =>
    rw [List.intercalate_cons_cons, ih]
    simp [join, List.intercalate_cons_cons]

theorem space_not_mem_withCommas {words : List (List Char)} :
    (∀ piece ∈ withCommas words, ' ' ∉ piece) ↔ ∀ word ∈ words, ' ' ∉ word := by
  fun_induction withCommas words with
  | case1 => simp
  | case2 last => simp
  | case3 word next rest ih =>
    rw [List.forall_mem_cons, ih, List.forall_mem_cons]
    simp

/-- A line has the words that it is the join of. -/
theorem tokens_eq_ok_iff {line mnemonic : String} {words : List String} :
    tokens line = .ok (mnemonic, words) ↔
      ' ' ∉ mnemonic.toList ∧ (∀ word ∈ words, ' ' ∉ word.toList) ∧
        line.toList = join mnemonic.toList (words.map String.toList) := by
  have hpieces : tokens line = .ok (mnemonic, words) ↔
      Text.pieces ' ' line.toList = mnemonic.toList :: withCommas (words.map String.toList) := by
    simp only [tokens, bind_eq_ok_iff, stripCommas_eq_ok_iff, Text.pieces, List.cons.injEq]
    constructor
    · rintro ⟨stripped, hstripped, hwords⟩
      obtain ⟨rfl, rfl⟩ := Prod.mk.inj (Except.ok.inj hwords)
      simp [hstripped, Function.comp_def]
    · rintro ⟨hmnemonic, hwords⟩
      refine ⟨words.map String.toList, hwords, ?_⟩
      simp [hmnemonic, Function.comp_def, pure, Except.pure]
  rw [hpieces, Text.pieces_eq_iff, intercalate_withCommas, List.forall_mem_cons,
    space_not_mem_withCommas, List.forall_mem_map, and_assoc]

end SourceLine

end ByteMachine
