import ByteMachine.Text.Quoted
import Mathlib.Algebra.Group.Nat.Defs
import Mathlib.Tactic.SplitIfs

/-!
# Reading a quotation back

A quotation tells what text it stands for: no two texts are quoted alike. The
first character is the mark, and with it every escape can be read back, one
character at a time. A backslash says that an escape follows, the next character
says which one, and this fixes the number of its hexadecimal digits.
-/
namespace ByteMachine.Text

/-- The value of a hexadecimal digit in lower case. -/
def hexDigitValue (c : Char) : Nat :=
  if c.isDigit then c.toNat - '0'.toNat else c.toNat - 'a'.toNat + 10

/-- The number that hexadecimal digits stand for. -/
def hexValue (digits : List Char) : Nat :=
  digits.foldl (fun value c => 16 * value + hexDigitValue c) 0

/-- The character whose number stands in the first digits of a text, and what follows them. -/
def readNumber (width : Nat) (cs : List Char) : Char × List Char :=
  (Char.ofNat (hexValue (cs.take width)), cs.drop width)

/-- The character that stands in front between two marks, and what follows it. -/
def unescape : List Char → Option (Char × List Char)
  | [] => none
  | '\\' :: 'n' :: rest => some ('\n', rest)
  | '\\' :: 'r' :: rest => some ('\r', rest)
  | '\\' :: 't' :: rest => some ('\t', rest)
  | '\\' :: 'x' :: rest => some (readNumber 2 rest)
  | '\\' :: 'u' :: rest => some (readNumber 4 rest)
  | '\\' :: 'U' :: rest => some (readNumber 8 rest)
  | '\\' :: c :: rest => some (c, rest)
  | c :: rest => some (c, rest)

theorem hexDigitValue_digitChar {digit : Nat} (h : digit < 16) :
    hexDigitValue digit.digitChar = digit := by
  have hall : ∀ d : Fin 16, hexDigitValue d.val.digitChar = d.val := by decide
  exact hall ⟨digit, h⟩

theorem hexValue_concat (digits : List Char) (c : Char) :
    hexValue (digits ++ [c]) = 16 * hexValue digits + hexDigitValue c := by
  simp [hexValue]

theorem hexValue_toDigits (n : Nat) : hexValue (Nat.toDigits 16 n) = n := by
  induction n using Nat.strongRecOn with
  | ind n ih =>
    rw [Nat.toDigits_eq_if (by decide)]
    split_ifs with hsmall
    · simp [hexValue, hexDigitValue_digitChar hsmall]
    · rw [hexValue_concat, ih (n / 16) (by omega), hexDigitValue_digitChar (by omega)]
      omega

theorem hexValue_zeros (zeros : Nat) (digits : List Char) :
    hexValue (List.replicate zeros '0' ++ digits) = hexValue digits := by
  induction zeros with
  | zero => rfl
  | succ zeros ih => simpa [hexValue, hexDigitValue, List.replicate_succ] using ih

theorem hexValue_hexadecimal (width n : Nat) : hexValue (hexadecimal width n).toList = n := by
  rw [hexadecimal, String.toList_ofList, hexValue_zeros, hexValue_toDigits]

/-- A number that fits is filled up to the width. -/
theorem length_hexadecimal {width n : Nat} (hwidth : 0 < width) (hn : n < 16 ^ width) :
    (hexadecimal width n).toList.length = width := by
  have hdigits := (Nat.length_toDigits_le_iff (by decide) hwidth).2 hn
  rw [hexadecimal, String.toList_ofList, List.length_append, List.length_replicate]
  omega

theorem readNumber_hexadecimal {width : Nat} {c : Char} (hwidth : 0 < width)
    (hc : c.toNat < 16 ^ width) (rest : List Char) :
    readNumber width ((hexadecimal width c.toNat).toList ++ rest) = (c, rest) := by
  have hlength := length_hexadecimal hwidth hc
  rw [readNumber, List.take_left' hlength, List.drop_left' hlength, hexValue_hexadecimal,
    Char.ofNat_toNat]

theorem unescape_numericEscape (c : Char) (rest : List Char) :
    unescape ((numericEscape c).toList ++ rest) = some (c, rest) := by
  rw [numericEscape]
  split_ifs with hbyte hplane
  · have hc : c.toNat < 16 ^ 2 := by omega
    simp [unescape, readNumber_hexadecimal (by decide) hc]
  · have hc : c.toNat < 16 ^ 4 := by omega
    simp [unescape, readNumber_hexadecimal (by decide) hc]
  · have hc : c.toNat < 16 ^ 8 := c.val.toNat_lt
    simp [unescape, readNumber_hexadecimal (by decide) hc]

/-- A character that is no backslash stands for itself. -/
theorem unescape_cons {c : Char} (h : c ≠ '\\') (rest : List Char) :
    unescape (c :: rest) = some (c, rest) := by
  simp [unescape, h]

/-- Each character is read back from its escape, whatever follows it. -/
theorem unescape_escape {mark : Char} (hmark : mark = singleMark ∨ mark = doubleMark) (c : Char)
    (rest : List Char) : unescape ((escape mark c).toList ++ rest) = some (c, rest) := by
  rw [escape]
  split_ifs with hself hnewline hreturn htab hprintable
  · rcases (by simpa using hself : c = mark ∨ c = '\\') with rfl | rfl
    · rcases hmark with rfl | rfl <;> rfl
    · rfl
  · subst hnewline
    rfl
  · subst hreturn
    rfl
  · subst htab
    rfl
  · have hc : c ≠ '\\' := fun hsame => hself (by simp [hsame])
    simpa using unescape_cons hc rest
  · exact unescape_numericEscape c rest

theorem quoteMark_cases (cs : List Char) :
    quoteMark cs = singleMark ∨ quoteMark cs = doubleMark := by
  rw [quoteMark]
  split_ifs
  · exact .inr rfl
  · exact .inl rfl

/-- What stands between the marks. -/
def escaped (mark : Char) (cs : List Char) : List Char := cs.flatMap fun c => (escape mark c).toList

@[simp] theorem escaped_nil (mark : Char) : escaped mark [] = [] := rfl

@[simp] theorem escaped_cons (mark c : Char) (cs : List Char) :
    escaped mark (c :: cs) = (escape mark c).toList ++ escaped mark cs := List.flatMap_cons

/-- Escaped texts are alike only if the texts are the same. -/
theorem eq_of_escaped_eq {mark : Char} (hmark : mark = singleMark ∨ mark = doubleMark)
    {cs ds : List Char} (h : escaped mark cs = escaped mark ds) : cs = ds := by
  induction cs generalizing ds with
  | nil =>
    cases ds with
    | nil => rfl
    | cons d more =>
      have hread := unescape_escape hmark d (escaped mark more)
      rw [← escaped_cons, ← h] at hread
      simp [unescape] at hread
  | cons c rest ih =>
    -- The escape in front is read on both sides, and leaves the same rest.
    have hread := unescape_escape hmark c (escaped mark rest)
    rw [← escaped_cons, h] at hread
    cases ds with
    | nil => simp [unescape] at hread
    | cons d more =>
      rw [escaped_cons, unescape_escape hmark] at hread
      obtain ⟨rfl, hrest⟩ := Prod.mk.inj (Option.some.inj hread)
      rw [ih hrest.symm]

theorem toList_quoted (text : String) :
    (quoted text).toList = quoteMark text.toList ::
      (escaped (quoteMark text.toList) text.toList ++ [quoteMark text.toList]) := by
  simp [quoted, escaped, String.toList_join, List.flatMap_map]

/-- No two texts are quoted alike. -/
theorem quoted_injective : Function.Injective quoted := by
  intro text other h
  have hchars := congrArg String.toList h
  rw [toList_quoted, toList_quoted] at hchars
  obtain ⟨hmark, hrest⟩ := List.cons.inj hchars
  rw [← hmark] at hrest
  have hescaped := List.append_cancel_right hrest
  exact String.toList_inj.1 (eq_of_escaped_eq (quoteMark_cases text.toList) hescaped)

end ByteMachine.Text
