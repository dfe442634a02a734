import ByteMachine.Text.Charset

/-!
# Blank characters

The characters that may stand around a source line without counting: the
Unicode white space together with the four information separators. `trim`
removes them from both ends of a text.
-/
namespace ByteMachine.Text

/-- Code points of the blank characters. -/
def blanks : Charset :=
  [(0x09, 0x0d), (0x1c, 0x20), (0x85, 0x85), (0xa0, 0xa0), (0x1680, 0x1680), (0x2000, 0x200a),
    (0x2028, 0x2029), (0x202f, 0x202f), (0x205f, 0x205f), (0x3000, 0x3000)]

def isBlank (c : Char) : Bool := blanks.contains c

/-- Drop the blanks at the start. -/
def trimStart (cs : List Char) : List Char := cs.dropWhile isBlank

/-- Drop the blanks at the end. -/
def trimEnd (cs : List Char) : List Char := (cs.reverse.dropWhile isBlank).reverse

/-- Drop the blanks at both ends. -/
def trim (cs : List Char) : List Char := trimEnd (trimStart cs)

@[simp] theorem trim_nil : trim [] = [] := rfl

/-- The visible characters of ASCII are not blank. -/
theorem isBlank_of_visible {c : Char} (low : 0x21 ≤ c.toNat) (high : c.toNat ≤ 0x7e) :
    isBlank c = false := by
  have outside (range : Nat × Nat) (h : range ∈ blanks) :
      (decide (range.1 ≤ c.toNat) && decide (c.toNat ≤ range.2)) = false := by
    have apart : ∀ range ∈ blanks, range.2 < 0x21 ∨ 0x7e < range.1 := by decide
    have := apart range h
    simp only [Bool.and_eq_false_iff, decide_eq_false_iff_not]
    omega
  simpa [isBlank, Charset.contains] using outside

theorem dropWhile_isBlank_eq_self {cs : List Char} (first : ∀ c ∈ cs.head?, isBlank c = false) :
    cs.dropWhile isBlank = cs := by
  cases cs with
  | nil => rfl
  | cons c cs => simp [first c (by simp)]

/-- A text without blanks at its ends is its own trimmed form. -/
theorem trim_eq_self {cs : List Char} (first : ∀ c ∈ cs.head?, isBlank c = false)
    (last : ∀ c ∈ cs.getLast?, isBlank c = false) : trim cs = cs := by
  have back := @dropWhile_isBlank_eq_self cs.reverse (by simpa using last)
  rw [trim, trimStart, dropWhile_isBlank_eq_self first, trimEnd, back, List.reverse_reverse]

theorem isBlank_of_head?_trimStart {cs : List Char} {c : Char} (h : c ∈ (trimStart cs).head?) :
    isBlank c = false := by
  have stopped := List.head?_dropWhile_not isBlank cs
  rw [trimStart, Option.mem_def] at h
  simpa only [h] using stopped

/-- What trimming leaves does not end in a blank. -/
theorem isBlank_of_getLast?_trim {cs : List Char} {c : Char} (h : c ∈ (trim cs).getLast?) :
    isBlank c = false := by
  rw [trim, trimEnd, List.getLast?_reverse] at h
  exact isBlank_of_head?_trimStart h

theorem trim_prefix_trimStart (cs : List Char) : trim cs <+: trimStart cs := by
  rw [trim, trimEnd]
  exact List.reverse_suffix.1 (by simpa using List.dropWhile_suffix isBlank)

/-- What trimming leaves does not start with a blank. -/
theorem isBlank_of_head?_trim {cs : List Char} {c : Char} (h : c ∈ (trim cs).head?) :
    isBlank c = false := by
  obtain ⟨dropped, whole⟩ := trim_prefix_trimStart cs
  have first : c ∈ (trimStart cs).head? := by
    rw [← whole, Option.mem_def, List.head?_append, Option.mem_def.1 h, Option.some_or]
  exact isBlank_of_head?_trimStart first

/-- Trimming adds nothing. -/
theorem mem_of_mem_trim {cs : List Char} {c : Char} (h : c ∈ trim cs) : c ∈ cs :=
  (List.dropWhile_suffix isBlank).subset ((trim_prefix_trimStart cs).subset h)

/-- A character that is no blank keeps the blanks before it from being an end. -/
theorem trim_concat {c : Char} (h : isBlank c = false) (cs : List Char) :
    trim (cs ++ [c]) = trimStart cs ++ [c] := by
  have front : trimStart (cs ++ [c]) = trimStart cs ++ [c] := by
    rw [trimStart, trimStart, List.dropWhile_append]
    split
    · simp_all
    · rfl
  rw [trim, front, trimEnd]
  simp [h]

end ByteMachine.Text
