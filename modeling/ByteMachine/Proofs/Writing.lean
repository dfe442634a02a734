import ByteMachine.LabelSearch
import ByteMachine.Proofs.Listing
import Mathlib.Algebra.Group.Nat.Defs
import Mathlib.Data.List.TakeWhile

/-!
# Numbers that can be written

A number can be written if it is below a power of ten, so every number that was
read can be written again, and so can every byte. A line number can be written
if it lies in the program; a search for a label finds no other. What is left are
numbers that somebody else has put into a machine.
-/
namespace ByteMachine

namespace Numeral

theorem writable_iff {n : Int} : writable n = true ↔ n.natAbs < 10 ^ digitLimit := by
  rw [writable, decide_eq_true_iff]
  exact Nat.length_toDigits_le_iff (by decide) (by decide)

theorem writable_eq_false_iff {n : Int} : writable n = false ↔ 10 ^ digitLimit ≤ n.natAbs := by
  rw [← Bool.not_eq_true, writable_iff, Nat.not_lt]

/-- The value of a run of digits has no more digits than the run. -/
theorem ofDigitChars_lt {run : List Char} (hrun : ∀ c ∈ run, c.isDigit = true) :
    Nat.ofDigitChars 10 run 0 < 10 ^ run.length := by
  induction run with
  | nil => decide
  | cons c run ih =>
    have hvalue : c.toNat - '0'.toNat ≤ 9 := by
      have hdigit := hrun c List.mem_cons_self
      simp only [Char.isDigit, Bool.and_eq_true, decide_eq_true_eq,
        UInt32.le_iff_toNat_le] at hdigit
      exact Nat.sub_le_sub_right hdigit.2 48
    have hrest := ih fun d hd => hrun d (List.mem_cons_of_mem c hd)
    rw [Nat.ofDigitChars_cons, Nat.mul_zero, Nat.zero_add,
      Nat.ofDigitChars_eq_ofDigitChars_zero, List.length_cons, Nat.pow_succ]
    calc 10 ^ run.length * (c.toNat - '0'.toNat) + Nat.ofDigitChars 10 run 0
        < 10 ^ run.length * 9 + 10 ^ run.length :=
          Nat.add_lt_add_of_le_of_lt (Nat.mul_le_mul_left _ hvalue) hrest
      _ = 10 ^ run.length * 10 := rfl

/-- What was read can be written. -/
theorem writable_of_parse {text : String} {n : Nat} (h : parse text = .ok n) :
    writable n = true := by
  unfold parse valueOf at h
  dsimp only at h
  split_ifs at h with _ hlong _
  obtain rfl := Except.ok.inj h
  have hdigits := ofDigitChars_lt fun c hc => List.mem_takeWhile_imp (l := text.toList) hc
  rw [writable_iff, Int.natAbs_natCast]
  exact Nat.lt_of_lt_of_le hdigits (Nat.pow_le_pow_right (by decide) (Nat.not_lt.1 hlong))

theorem writable_byte (byte : UInt8) : writable byte.toNat = true := by
  have hlimit : (10 : Nat) ^ 3 ≤ 10 ^ digitLimit := Nat.pow_le_pow_right (by decide) (by decide)
  have hbyte := byte.toNat_lt
  rw [writable_iff, Int.natAbs_natCast]
  omega

theorem writableLine_of_writable (size : Nat) {line : Int} (h : writable line = true) :
    writableLine size line = true := by
  rw [writableLine, h, Bool.or_true]

theorem writableLine_of_le {size : Nat} {line : Int} (h : line.natAbs ≤ size) :
    writableLine size line = true := by
  rw [writableLine, decide_eq_true h, Bool.true_or]

theorem writableLine_eq_false_iff {size : Nat} {line : Int} :
    writableLine size line = false ↔ size < line.natAbs ∧ 10 ^ digitLimit ≤ line.natAbs := by
  rw [writableLine, Bool.or_eq_false_iff, decide_eq_false_iff_not, Nat.not_le,
    writable_eq_false_iff]

/-- In a longer program no fewer lines can be written. -/
theorem writableLine_mono {size size' : Nat} (hsize : size ≤ size') {line : Int}
    (h : writableLine size line = true) : writableLine size' line = true := by
  rw [writableLine, Bool.or_eq_true, decide_eq_true_iff] at h
  rcases h with hle | hwritable
  · exact writableLine_of_le (Nat.le_trans hle hsize)
  · exact writableLine_of_writable size' hwritable

end Numeral

/-- An index that names a place is no further away than the ends. -/
theorem natAbs_le_of_place {size : Nat} {index : Int} {p : Fin size}
    (h : place size index = .ok p) : index.natAbs ≤ size := by
  unfold place at h
  by_cases hnegative : index < 0
  · simp only [hnegative, if_true] at h
    split_ifs at h
    omega
  · simp only [hnegative, if_false] at h
    split_ifs at h
    omega

namespace LabelSearch

variable {program : Program} {name : String}

theorem natAbs_le_of_fetch {line : Int} {i : Instruction} (h : program.fetch line = .ok i) :
    line.natAbs ≤ program.size := by
  unfold Program.fetch at h
  split at h
  · next p hp => exact natAbs_le_of_place hp
  · simp at h

/-- A scan finds a line that it has fetched. -/
theorem natAbs_le_of_scan {line found : Int} {count : Nat}
    (h : scan program name line count = .ok (some found)) : found.natAbs ≤ program.size := by
  induction count generalizing line with
  | zero => simp [scan] at h
  | succ count ih =>
    simp only [scan, bind_eq_ok_iff] at h
    obtain ⟨i, hi, answer, _, h⟩ := h
    cases answer with
    | true =>
      obtain rfl := Option.some.inj (Except.ok.inj h)
      exact natAbs_le_of_fetch hi
    | false => exact ih h

/-- The line of a label that was searched can be written. -/
theorem writableLine_of_locate {pc line : Int} (h : locate program name pc = .ok line) :
    Numeral.writableLine program.size line = true := by
  apply Numeral.writableLine_of_le
  rw [locate, bind_eq_ok_iff] at h
  obtain ⟨ahead, hahead, h⟩ := h
  cases ahead with
  | some found =>
    obtain rfl := Except.ok.inj h
    exact natAbs_le_of_scan hahead
  | none =>
    obtain ⟨behind, hbehind, h⟩ := bind_eq_ok_iff.1 h
    cases behind with
    | some found =>
      obtain rfl := Except.ok.inj h
      exact natAbs_le_of_scan hbehind
    | none => simp [throw, throwThe, MonadExceptOf.throw] at h

end LabelSearch

end ByteMachine
