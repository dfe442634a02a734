/-!
# Splitting at a character

A text is cut at every place where a separator stands, so that joining the pieces
with the separator gives the text back. There is always a first piece.
-/
namespace ByteMachine.Text

/-- The first piece, and the pieces behind the separators. -/
def splitAt (separator : Char) : List Char → List Char × List (List Char)
  | [] => ([], [])
  | c :: rest =>
    let (piece, more) := splitAt separator rest
    if c = separator then ([], piece :: more) else (c :: piece, more)

/-- All the pieces. -/
def pieces (separator : Char) (cs : List Char) : List (List Char) :=
  (splitAt separator cs).1 :: (splitAt separator cs).2

/-- Splitting loses nothing. -/
theorem intercalate_pieces (separator : Char) (cs : List Char) :
    [separator].intercalate (pieces separator cs) = cs := by
  induction cs with
  | nil => rfl
  | cons c rest ih =>
    by_cases h : c = separator
    · subst h
      simpa [pieces, splitAt, List.intercalate] using ih
    · cases more : (splitAt separator rest).2 with
      | nil => simpa [pieces, splitAt, h, more, List.intercalate] using ih
      | cons next others => simpa [pieces, splitAt, h, more, List.intercalate] using ih

/-- No piece holds a separator. -/
theorem not_mem_of_mem_pieces {separator : Char} {cs piece : List Char}
    (h : piece ∈ pieces separator cs) : separator ∉ piece := by
  induction cs generalizing piece with
  | nil =>
    simp only [pieces, splitAt, List.mem_singleton] at h
    simp [h]
  | cons c rest ih =>
    simp only [pieces, splitAt] at h
    split at h
    · rcases List.mem_cons.1 h with rfl | later
      · exact List.not_mem_nil
      · exact ih later
    · rename_i different
      rcases List.mem_cons.1 h with rfl | later
      · have := ih (List.mem_cons_self ..)
        simp [Ne.symm different, this]
      · exact ih (List.mem_cons_of_mem _ later)

end ByteMachine.Text
