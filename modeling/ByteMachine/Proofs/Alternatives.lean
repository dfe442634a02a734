import ByteMachine.Operand
import Mathlib.Data.List.TakeWhile
import Mathlib.Tactic.SplitIfs

/-!
# Reading an operand

An operand is read by trying one kind after the other. Only the first kind can
fail at the end of the text, and then the text is read again as another; the
last kind takes whatever there is. So the line in front of the text decides the
kind, apart from a lone `B`, and what follows the line decides whether there is
an operand at all. `Operand.parse?_eq` says so.
-/
namespace ByteMachine

namespace Text.Reader

variable {α β : Type}

theorem bind_apply (first : Reader α) (second : α → Reader β) (cs : List Char) :
    (first >>= second) cs = (first cs).bind fun found => second found.1 found.2 := rfl

theorem orElse_apply (first second : Reader α) (cs : List Char) :
    (first <|> second) cs = (first cs <|> second cs) := rfl

theorem pure_apply (a : α) (cs : List Char) : (pure a : Reader α) cs = some (a, cs) := rfl

@[simp] theorem char_cons (c first : Char) (rest : List Char) :
    char c (first :: rest) = if first = c then some ((), rest) else none := rfl

/-- After a class of characters has been skipped, the text ends if all of it was of the class. -/
theorem skip_endOfText (p : Char → Bool) (cs : List Char) :
    (do skip p; endOfText : Reader Unit) cs = if cs.all p then some ((), []) else none := by
  rw [bind_apply, skip, Option.bind_some, endOfText]
  by_cases hall : cs.all p = true
  · have hrest : cs.dropWhile p = [] := List.dropWhile_eq_nil_iff.2 (List.all_eq_true.1 hall)
    simp [hrest, hall]
  · have hrest : cs.dropWhile p ≠ [] := fun hnil =>
      hall (List.all_eq_true.2 (List.dropWhile_eq_nil_iff.1 hnil))
    simp [hrest, hall]

end Text.Reader

namespace Operand

open Text.Reader

/-- The kind and the rest of an operand that stands on one line. -/
def ofHead : List Char → Operand
  | 'R' :: raw => ⟨.register, String.ofList raw⟩
  | '#' :: raw => ⟨.immediate, String.ofList raw⟩
  | raw => ⟨.address, String.ofList raw⟩

/-- Printing gives back what the kind was read from. -/
theorem text_ofHead (cs : List Char) : (ofHead cs).text = String.ofList cs := by
  fun_cases ofHead cs <;> simp [text]

/-- Without a mark in front it is a memory address. -/
theorem ofHead_of_unmarked {cs : List Char} (hregister : cs.head? ≠ some 'R')
    (himmediate : cs.head? ≠ some '#') : ofHead cs = ⟨.address, String.ofList cs⟩ := by
  unfold ofHead
  split
  · simp at hregister
  · simp at himmediate
  · rfl

theorem labelReference_apply (cs : List Char) :
    labelReference cs = if cs = ['B'] then some (⟨.label, "B"⟩, []) else none := by
  rw [labelReference, bind_apply]
  cases cs with
  | nil => rfl
  | cons c rest =>
    rw [char_cons]
    by_cases hc : c = 'B'
    · rw [if_pos hc, Option.bind_some, bind_apply, endOfText]
      cases rest with
      | nil => simp [hc, pure_apply]
      | cons d more => simp [hc]
    · simp [hc]

theorem marked_cons (mark : Char) (kind : OperandKind) (c : Char) (rest : List Char) :
    marked mark kind (c :: rest) =
      if c = mark then
        some (⟨kind, String.ofList (rest.takeWhile (· ≠ '\n'))⟩, rest.dropWhile (· ≠ '\n'))
      else none := by
  rw [marked, bind_apply, char_cons]
  split_ifs <;> rfl

/-- The front of a text is an operand in any case, and what is left starts with the newline. -/
theorem reader_apply (cs : List Char) :
    reader cs =
      if cs = ['B'] then some (⟨.label, "B"⟩, [])
      else some (ofHead (cs.takeWhile (· ≠ '\n')), cs.dropWhile (· ≠ '\n')) := by
  rw [reader, orElse_apply, labelReference_apply]
  by_cases hlabel : cs = ['B']
  · rw [if_pos hlabel, if_pos hlabel]
    rfl
  · rw [if_neg hlabel, if_neg hlabel, orElse_apply, orElse_apply]
    cases cs with
    | nil => rfl
    | cons c rest =>
      rw [marked_cons, marked_cons]
      by_cases hregister : c = 'R'
      · subst hregister
        simp [ofHead]
      by_cases himmediate : c = '#'
      · subst himmediate
        simp [ofHead]
      rw [if_neg hregister, if_neg himmediate]
      by_cases hnewline : c = '\n'
      · subst hnewline
        rfl
      · have hhead : (c :: rest).takeWhile (· ≠ '\n') = c :: rest.takeWhile (· ≠ '\n') := by
          simp [hnewline]
        rw [hhead, ofHead_of_unmarked (by simpa using hregister) (by simpa using himmediate),
          ← hhead]
        rfl

/-- What an operand is: a lone `B`, or the line in front if only layout follows it. -/
theorem parse?_eq (token : String) :
    parse? token =
      if token.toList = ['B'] then some ⟨.label, "B"⟩
      else if (token.toList.dropWhile (· ≠ '\n')).all isLayout then
        some (ofHead (token.toList.takeWhile (· ≠ '\n')))
      else none := by
  have hwhole : parse? token =
      ((reader token.toList).bind fun found =>
        ((do skip isLayout; endOfText : Text.Reader Unit) found.2).map fun _ => found.1) := by
    rw [parse?, StateT.run', bind_apply]
    cases reader token.toList with
    | none => rfl
    | some found =>
      simp only [Option.bind_some, bind_apply]
      cases hskip : skip isLayout found.2 with
      | none => rfl
      | some skipped =>
        simp only [Option.bind_some]
        cases endOfText skipped.2 <;> rfl
  rw [hwhole, reader_apply]
  by_cases hlabel : token.toList = ['B']
  · rw [if_pos hlabel, if_pos hlabel]
    rfl
  · rw [if_neg hlabel, if_neg hlabel, Option.bind_some, skip_endOfText]
    split_ifs <;> rfl

end Operand

end ByteMachine
