import ByteMachine.Proofs.RoundTrip
import Mathlib.Data.List.Induction

/-!
# The grammar of numerals

A numeral is the decimal form of a number, with any zeros before it and any
layout behind it. Its digits are counted before anything else is looked at, so a
text falls under one of three heads: it is a numeral, it starts with too many
digits, or it is malformed. `Numeral.exists_zeros` is the step from the value of
a run of digits back to the digits.
-/
namespace ByteMachine

theorem isLayout_iff {c : Char} : isLayout c = true ↔ c ∈ [' ', '\t', '\n', '\r'] := by
  simp [isLayout, or_assoc]

/-- A text is cut where a class of characters ends. -/
theorem Text.cut_append {p : Char → Bool} {front rest : List Char}
    (hfront : ∀ c ∈ front, p c = true) (hrest : ∀ c ∈ rest.head?, p c = false) :
    (front ++ rest).takeWhile p = front ∧ (front ++ rest).dropWhile p = rest := by
  rw [List.takeWhile_append_of_pos hfront, List.dropWhile_append_of_pos hfront]
  cases rest with
  | nil => simp
  | cons c more => simp [hrest c rfl]

namespace Numeral

/-- The text is the decimal form of the number between zeros and layout, and it does not have too
many digits. -/
def Written (text : String) (n : Nat) : Prop :=
  ∃ (zeros : Nat) (layout : String),
    text = String.ofList (List.replicate zeros '0') ++ toString n ++ layout ∧
      zeros + (toString n).length ≤ 4300 ∧ ∀ c ∈ layout.toList, c ∈ [' ', '\t', '\n', '\r']

/-- The text starts with too many digits, whatever follows them. -/
def Overlong (text : String) : Prop :=
  ∃ run rest : List Char, text.toList = run ++ rest ∧ 4300 < run.length ∧
    ∀ c ∈ run, c.isDigit = true

theorem isDigit_of_isLayout {c : Char} (h : isLayout c = true) : c.isDigit = false := by
  simp only [isLayout, Bool.or_eq_true, decide_eq_true_eq] at h
  rcases h with ((rfl | rfl) | rfl) | rfl <;> rfl

/-- A digit is the character of its value. -/
theorem digitChar_of_isDigit {c : Char} (h : c.isDigit = true) :
    c.toNat - '0'.toNat < 10 ∧ (c.toNat - '0'.toNat).digitChar = c := by
  have hzero : '0'.toNat = 48 := rfl
  obtain ⟨hlow, hhigh⟩ := Text.isDigit_iff.1 h
  refine ⟨by omega, Char.toNat_inj.1 ?_⟩
  rw [Nat.toNat_digitChar_of_lt_ten (by omega)]
  omega

/-- A run of digits is the decimal form of its value behind zeros. -/
theorem exists_zeros {run : List Char} (hne : run ≠ []) (hrun : ∀ c ∈ run, c.isDigit = true) :
    ∃ zeros, run = List.replicate zeros '0' ++ Nat.toDigits 10 (Nat.ofDigitChars 10 run 0) := by
  induction run using List.reverseRecOn with
  | nil => exact absurd rfl hne
  | append_singleton run c ih =>
    obtain ⟨hlt, hc⟩ := digitChar_of_isDigit (hrun c (by simp))
    have hlast : Nat.toDigits 10 (c.toNat - '0'.toNat) = [c] := by
      rw [Nat.toDigits_of_lt_base hlt, hc]
    rw [Nat.ofDigitChars_append, Nat.ofDigitChars_cons, Nat.ofDigitChars_nil]
    by_cases hempty : run = []
    · subst hempty
      exact ⟨0, by simpa using hlast.symm⟩
    obtain ⟨zeros, hzeros⟩ := ih hempty fun d hd => hrun d (List.mem_append_left _ hd)
    rcases Nat.eq_zero_or_pos (Nat.ofDigitChars 10 run 0) with hzero | hpos
    · -- Nothing but zeros so far: the one that stood for the value is now one of those before it.
      rw [hzero, Nat.toDigits_zero, ← List.replicate_succ'] at hzeros
      refine ⟨zeros + 1, ?_⟩
      rw [hzero, Nat.mul_zero, Nat.zero_add, hlast, ← hzeros]
    · refine ⟨zeros, ?_⟩
      rw [← Nat.toDigits_append_toDigits (by decide) hpos hlt, hlast, ← List.append_assoc, ← hzeros]

theorem toList_decimal (n : Nat) : (toString n).toList = Nat.toDigits 10 n := Nat.toList_repr

/-- A numeral is a run of digits before layout. -/
theorem Written.exists_run {text : String} {n : Nat} (h : Written text n) :
    ∃ run layout : List Char, text.toList = run ++ layout ∧ run ≠ [] ∧
      (∀ c ∈ run, c.isDigit = true) ∧ run.length ≤ digitLimit ∧
      (∀ c ∈ layout, isLayout c = true) ∧ Nat.ofDigitChars 10 run 0 = n := by
  obtain ⟨zeros, layout, rfl, hlength, hlayout⟩ := h
  rw [← String.length_toList, toList_decimal] at hlength
  refine ⟨List.replicate zeros '0' ++ Nat.toDigits 10 n, layout.toList, ?_, by simp, fun c hc => ?_,
    ?_, fun c hc => isLayout_iff.2 (hlayout c hc), ?_⟩
  · rw [String.toList_append, String.toList_append, String.toList_ofList, toList_decimal]
  · rcases List.mem_append.1 hc with hzero | hdigit
    · rw [List.eq_of_mem_replicate hzero]
      rfl
    · exact Nat.isDigit_of_mem_toDigits (by decide) (by decide) hdigit
  · rwa [List.length_append, List.length_replicate]
  · rw [Nat.ofDigitChars_append, Nat.ofDigitChars_replicate_zero, Nat.mul_zero,
      Nat.ofDigitChars_ten_toDigits]

/-- Digits before layout are read as what they stand for. -/
theorem valueOf_append {run layout : List Char} (hne : run ≠ [])
    (hrun : ∀ c ∈ run, c.isDigit = true) (hlength : run.length ≤ digitLimit)
    (hlayout : ∀ c ∈ layout, isLayout c = true) :
    valueOf (run ++ layout) = .ok (Nat.ofDigitChars 10 run 0) := by
  have hstop : ∀ c ∈ layout.head?, c.isDigit = false := fun c hc =>
    isDigit_of_isLayout (hlayout c (List.mem_of_mem_head? hc))
  obtain ⟨hdigits, hrest⟩ := Text.cut_append hrun hstop
  simp only [valueOf, hdigits, hrest]
  rw [if_neg (by simpa using hne), if_neg (Nat.not_lt.2 hlength),
    if_pos (List.all_eq_true.2 hlayout)]

/-- A text has a value if it is a numeral for it. -/
theorem parse_eq_ok_iff {text : String} {n : Nat} : parse text = .ok n ↔ Written text n := by
  constructor
  · intro h
    unfold parse valueOf at h
    dsimp only at h
    split_ifs at h with hempty hlong hrest
    obtain rfl := Except.ok.inj h
    obtain ⟨zeros, hzeros⟩ := exists_zeros (by simpa using hempty) fun c hc =>
      List.mem_takeWhile_imp (l := text.toList) hc
    have hlength := congrArg List.length hzeros
    rw [List.length_append, List.length_replicate] at hlength
    refine ⟨zeros, String.ofList (text.toList.dropWhile Char.isDigit), ?_, ?_, fun c hc => ?_⟩
    · apply String.toList_inj.1
      rw [String.toList_append, String.toList_append, String.toList_ofList, String.toList_ofList,
        toList_decimal, ← hzeros, List.takeWhile_append_dropWhile]
    · rw [← String.length_toList, toList_decimal, ← hlength]
      exact Nat.le_of_not_lt hlong
    · rw [String.toList_ofList] at hc
      exact isLayout_iff.1 (List.all_eq_true.1 hrest c hc)
  · intro h
    obtain ⟨run, layout, htext, hne, hrun, hlength, hlayout, rfl⟩ := h.exists_run
    rw [parse, htext]
    exact valueOf_append hne hrun hlength hlayout

/-- The number of digits is given where there are too many. -/
theorem parse_eq_tooLong_iff {text : String} {digits : Nat} :
    parse text = .error (.tooLong digits) ↔
      digitLimit < digits ∧ (text.toList.takeWhile Char.isDigit).length = digits := by
  unfold parse valueOf
  dsimp only
  split_ifs with hempty hlong hrest
  · rw [List.isEmpty_iff.1 hempty]
    simp only [List.length_nil, Except.error.injEq, reduceCtorEq, false_iff]
    rintro ⟨hdigits, rfl⟩
    exact absurd hdigits (by decide)
  · simp only [Except.error.injEq, Fault.tooLong.injEq]
    constructor
    · rintro rfl
      exact ⟨hlong, rfl⟩
    · exact And.right
  · simp only [false_iff]
    rintro ⟨hdigits, rfl⟩
    exact hlong hdigits
  · simp only [Except.error.injEq, reduceCtorEq, false_iff]
    rintro ⟨hdigits, rfl⟩
    exact hlong hdigits

theorem exists_tooLong_iff {text : String} :
    (∃ digits, parse text = .error (.tooLong digits)) ↔ Overlong text := by
  simp only [parse_eq_tooLong_iff]
  constructor
  · rintro ⟨digits, hlimit, rfl⟩
    exact ⟨_, _, List.takeWhile_append_dropWhile.symm, hlimit, fun c => List.mem_takeWhile_imp⟩
  · rintro ⟨run, rest, htext, hlimit, hrun⟩
    refine ⟨_, ?_, rfl⟩
    rw [htext, List.takeWhile_append_of_pos hrun, List.length_append]
    exact Nat.lt_add_right _ hlimit

/-- There is no third way to fail. -/
theorem parse_eq_malformed_iff {text : String} :
    parse text = .error .malformed ↔ (∀ n, ¬ Written text n) ∧ ¬ Overlong text := by
  simp only [← parse_eq_ok_iff, ← exists_tooLong_iff]
  cases parse text with
  | ok n => simp
  | error fault => cases fault <;> simp

/-- A numeral starts with a digit, and all else in it are digits and layout. -/
theorem Written.head_and_mem {text : String} {n : Nat} (h : Written text n) :
    (∃ c, text.toList.head? = some c ∧ c.isDigit = true) ∧
      ∀ c ∈ text.toList, c.isDigit = true ∨ c ∈ [' ', '\t', '\n', '\r'] := by
  obtain ⟨run, layout, htext, hne, hrun, _, hlayout, _⟩ := h.exists_run
  rw [htext]
  constructor
  · obtain ⟨c, more, rfl⟩ := List.exists_cons_of_ne_nil hne
    exact ⟨c, rfl, hrun c List.mem_cons_self⟩
  · intro c hc
    exact (List.mem_append.1 hc).imp (hrun c) fun hc => isLayout_iff.1 (hlayout c hc)

theorem accepts_eq_true_iff {text : String} :
    accepts text = .ok true ↔ ∃ n, parse text = .ok n := by
  unfold accepts
  cases parse text with
  | ok n => simp
  | error fault => cases fault <;> simp

theorem accepts_eq_false_iff {text : String} :
    accepts text = .ok false ↔ parse text = .error .malformed := by
  unfold accepts
  cases parse text with
  | ok n => simp
  | error fault => cases fault <;> simp

/-- Of the faults of a numeral, only too many digits get through. -/
theorem accepts_eq_error_iff {text : String} {fault : Fault} :
    accepts text = .error fault ↔ parse text = .error fault ∧ fault ≠ .malformed := by
  unfold accepts
  cases parse text with
  | ok n => simp
  | error raised =>
    cases raised with
    | malformed => simp [eq_comm]
    | tooLong digits =>
      simp only [Except.error.injEq, iff_self_and]
      rintro rfl
      simp

end Numeral

open Numeral in
/-- Which texts are numerals. A text has a value exactly if it is the decimal form of this value
between zeros and layout; it is too long exactly if it starts with more digits than are read, and
in every other case it is malformed. Asked whether it is a numeral, the first is told yes and the
last no, and the question fails for a text that is too long as its value does. A numeral has no sign
and no blank in front, and no other digits than those of ASCII. -/
theorem numeral_grammar (text : String) :
    (∀ n, parse text = .ok n ↔ Written text n) ∧
      ((∃ digits, parse text = .error (.tooLong digits)) ↔ Overlong text) ∧
      (parse text = .error .malformed ↔ (∀ n, ¬ Written text n) ∧ ¬ Overlong text) ∧
      (accepts text = .ok true ↔ ∃ n, parse text = .ok n) ∧
      (accepts text = .ok false ↔ parse text = .error .malformed) ∧
      (∀ fault, accepts text = .error fault ↔ parse text = .error fault ∧ fault ≠ .malformed) ∧
      ∀ n, parse text = .ok n →
        (∃ c, text.toList.head? = some c ∧ c.isDigit = true) ∧
          ∀ c ∈ text.toList, c.isDigit = true ∨ c ∈ [' ', '\t', '\n', '\r'] := by
  refine ⟨fun n => parse_eq_ok_iff, exists_tooLong_iff, parse_eq_malformed_iff, accepts_eq_true_iff,
    accepts_eq_false_iff, fun fault => accepts_eq_error_iff, fun n h => ?_⟩
  have hwritten := parse_eq_ok_iff.1 h
  exact hwritten.head_and_mem

open Numeral in
/-- Zeros in front count as digits but not for the value, and what stands behind too many digits
does not matter. -/
theorem numeral_grammar_padded :
    parse "0070\r\n" = .ok 70 ∧
      (∃ digits,
        parse (String.ofList (List.replicate 4301 '0' ++ ['x'])) = .error (.tooLong digits)) ∧
      accepts " 7" = .ok false := by
  obtain ⟨hvalue, _⟩ := numeral_grammar "0070\r\n"
  obtain ⟨_, hlong, _⟩ := numeral_grammar (String.ofList (List.replicate 4301 '0' ++ ['x']))
  obtain ⟨_, _, _, _, hdenied, _⟩ := numeral_grammar " 7"
  refine ⟨(hvalue 70).2 ⟨2, "\r\n", by decide, by decide, by simp⟩, hlong.2 ?_, hdenied.2 rfl⟩
  refine ⟨List.replicate 4301 '0', ['x'], String.toList_ofList, ?_, fun c hc => ?_⟩
  · rw [List.length_replicate]
    omega
  · rw [List.eq_of_mem_replicate hc]
    rfl

end ByteMachine
