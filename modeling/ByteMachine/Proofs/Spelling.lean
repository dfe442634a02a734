import ByteMachine.Proofs.Alternatives
import ByteMachine.Proofs.Tokens
import Mathlib.Data.List.TakeWhile

/-!
# What a line spells

Without the blanks around it, a line is empty, a definition that ends in a
colon, or a mnemonic with its words. `SourceLine.Spells` has these three cases,
and `SourceLine.parse_eq_ok_iff` says that a line is read as an instruction
exactly when it spells it.
-/
namespace ByteMachine

namespace Operand

variable {token : String} {o : Operand}

/-- A token that stands on one line is a lone `B`, or its first character tells its kind. -/
theorem parse?_of_newline_not_mem (h : '\n' ∉ token.toList) :
    parse? token = some (if token.toList = ['B'] then ⟨.label, "B"⟩ else ofHead token.toList) := by
  have hne (c : Char) (hc : c ∈ token.toList) : decide (c ≠ '\n') = true :=
    decide_eq_true fun hsame => h (hsame ▸ hc)
  have hhead : token.toList.takeWhile (· ≠ '\n') = token.toList := List.takeWhile_eq_self_iff.2 hne
  have hrest : token.toList.dropWhile (· ≠ '\n') = [] := List.dropWhile_eq_nil_iff.2 hne
  simp only [parse?_eq, hhead, hrest, List.all_nil, if_true]
  split_ifs <;> rfl

/-- Such a token is printed as it was read. -/
theorem text_of_parse? (h : '\n' ∉ token.toList) (ho : parse? token = some o) :
    o.text = token := by
  rw [parse?_of_newline_not_mem h] at ho
  obtain rfl := Option.some.inj ho
  split_ifs with hb
  · exact String.toList_inj.1 hb.symm
  · rw [text_ofHead, String.ofList_toList]

theorem kind_ofHead_ne_label (cs : List Char) : (ofHead cs).kind ≠ .label := by
  fun_cases ofHead cs <;> simp

/-- Only a lone `B` is read as a label. -/
theorem raw_of_parse?_label (ho : parse? token = some o) (hkind : o.kind = .label) :
    o.raw = "B" := by
  rw [parse?_eq] at ho
  split_ifs at ho
  · obtain rfl := Option.some.inj ho
    rfl
  · obtain rfl := Option.some.inj ho
    exact absurd hkind (kind_ofHead_ne_label _)

end Operand

namespace SourceLine

/-- Operands are read word by word. -/
theorem operands_eq_ok_iff {words : List String} {os : List Operand} :
    operands words = .ok os ↔ List.Forall₂ (fun word o => Operand.parse? word = some o) words os := by
  induction words generalizing os with
  | nil => simp [operands, eq_comm]
  | cons word rest ih =>
    rw [operands, List.forall₂_cons_left_iff]
    cases hword : Operand.parse? word with
    | none => simp
    | some o =>
      simp only [bind_eq_ok_iff, ih]
      constructor
      · rintro ⟨more, hmore, hos⟩
        exact ⟨o, more, rfl, hmore, (Except.ok.inj hos).symm⟩
      · rintro ⟨o', more, ho, hmore, rfl⟩
        obtain rfl := Option.some.inj ho
        exact ⟨more, hmore, rfl⟩

/-- The operations with the conditions that a mnemonic can stand for. -/
def forms : List (Opcode × Option Condition) :=
  (Condition.all.map fun condition => (Opcode.b, some condition)) ++
    (Opcode.known.filter (· ≠ .b)).map fun opcode => (opcode, none)

theorem mem_forms_of_classify {word : String} {form : Opcode × Option Condition}
    (h : classify word = .ok form) : form ∈ forms := by
  unfold classify at h
  split at h
  · dsimp only at h
    split at h
    · obtain rfl := Except.ok.inj h
      have hcondition := List.mem_of_find?_eq_some ‹_›
      exact List.mem_append_left _ (List.mem_map_of_mem hcondition)
    · simp at h
  · next hother =>
    split at h
    · next opcode hname =>
      obtain rfl := Except.ok.inj h
      have hknown := List.mem_of_find?_eq_some hname
      have hword : opcode.name = word := by simpa using List.find?_some hname
      have hb : opcode ≠ .b := by
        rintro rfl
        exact hother [] (by rw [← hword]; rfl)
      apply List.mem_append_right
      exact List.mem_map_of_mem (List.mem_filter.2 ⟨hknown, by simpa using hb⟩)
    · simp at h

end SourceLine

/-- The mnemonic of an instruction that was read stands for the same operation, and it is made
of capital letters. -/
theorem Instruction.classify_mnemonic {i : Instruction} (h : (i.opcode, i.branch) ∈ SourceLine.forms) :
    SourceLine.classify i.mnemonic = .ok (i.opcode, i.branch) ∧ i.mnemonic.toList ≠ [] ∧
      i.mnemonic.toList.all Char.isUpper = true := by
  have hforms : ∀ form ∈ SourceLine.forms,
      SourceLine.classify (mnemonic ⟨form.1, form.2, []⟩) = .ok form ∧
        (mnemonic ⟨form.1, form.2, []⟩).toList ≠ [] ∧
        (mnemonic ⟨form.1, form.2, []⟩).toList.all Char.isUpper = true := by
    decide +kernel
  have hmnemonic : i.mnemonic = mnemonic ⟨i.opcode, i.branch, []⟩ := rfl
  rw [hmnemonic]
  exact hforms (i.opcode, i.branch) h

namespace SourceLine

/-- What stands in a line between the blanks around it, and the instruction that it spells. -/
inductive Spells : List Char → Instruction → Prop where
  | blank : Spells [] .blank
  | definition (name : List Char) : Spells (name ++ [':']) (.defineLabel (String.ofList name))
  | instruction {mnemonic : String} {words : List String} {i : Instruction}
      (whole : ' ' ∉ mnemonic.toList ∧ ∀ word ∈ words, ' ' ∉ word.toList)
      (plain : (join mnemonic.toList (words.map String.toList)).getLast? ≠ some ':')
      (classified : classify mnemonic = .ok (i.opcode, i.branch))
      (read : List.Forall₂ (fun word o => Operand.parse? word = some o) words i.operands) :
      Spells (join mnemonic.toList (words.map String.toList)) i

theorem join_ne_nil {mnemonic : List Char} (h : mnemonic ≠ []) (words : List (List Char)) :
    join mnemonic words ≠ [] := by
  fun_cases join mnemonic words
  · exact h
  · simp

/-- The mnemonic of an operation other than a branch is its name. -/
theorem eq_name_of_classify {mnemonic : String} {opcode : Opcode} {branch : Option Condition}
    (h : classify mnemonic = .ok (opcode, branch)) (hb : opcode ≠ .b) : mnemonic = opcode.name := by
  unfold classify at h
  split at h
  · dsimp only at h
    split at h
    · obtain ⟨rfl, _⟩ := Prod.mk.inj (Except.ok.inj h)
      exact absurd rfl hb
    · simp at h
  · split at h
    · next hname =>
      obtain ⟨rfl, _⟩ := Prod.mk.inj (Except.ok.inj h)
      exact Eq.symm (by simpa using List.find?_some hname)
    · simp at h

theorem ne_nil_of_classify {mnemonic : String} {form : Opcode × Option Condition}
    (h : classify mnemonic = .ok form) : mnemonic.toList ≠ [] := by
  intro hnil
  obtain rfl : mnemonic = "" := String.toList_inj.1 hnil
  simp [classify, Opcode.ofName?, Opcode.known, ArithOp.all, Opcode.name, ArithOp.name] at h

theorem parseTrimmed_eq_ok_iff {cs : List Char} {i : Instruction} :
    parseTrimmed cs = .ok i ↔ Spells cs i := by
  constructor
  · intro h
    unfold parseTrimmed at h
    split_ifs at h with hempty hcolon
    · obtain rfl := Except.ok.inj h
      obtain rfl := List.isEmpty_iff.1 hempty
      exact .blank
    · obtain rfl := Except.ok.inj h
      have hcs := List.dropLast_append_getLast? ':' hcolon
      nth_rewrite 1 [← hcs]
      exact .definition cs.dropLast
    · simp only [bind_eq_ok_iff] at h
      obtain ⟨⟨mnemonic, words⟩, htokens, ⟨opcode, branch⟩, hclassify, os, hos, hi⟩ := h
      obtain rfl := Except.ok.inj hi
      obtain ⟨hmnemonic, hwords, hcs⟩ := tokens_eq_ok_iff.1 htokens
      rw [String.toList_ofList] at hcs
      subst hcs
      exact .instruction ⟨hmnemonic, hwords⟩ hcolon hclassify (operands_eq_ok_iff.1 hos)
  · intro h
    cases h with
    | blank => rfl
    | definition name => simp [parseTrimmed]
    | @instruction mnemonic words i whole plain classified read =>
      have hne := join_ne_nil (ne_nil_of_classify classified) (words.map String.toList)
      have htokens : tokens (String.ofList (join mnemonic.toList (words.map String.toList))) =
          .ok (mnemonic, words) :=
        tokens_eq_ok_iff.2 ⟨whole.1, whole.2, String.toList_ofList⟩
      rw [parseTrimmed, if_neg (by simpa using hne), if_neg plain, htokens]
      simp only [bind_eq_ok_iff]
      exact ⟨(mnemonic, words), rfl, (i.opcode, i.branch), classified, i.operands,
        operands_eq_ok_iff.2 read, rfl⟩

/-- A line is read as the instruction that it spells. -/
theorem parse_eq_ok_iff {line : String} {i : Instruction} :
    parse line = .ok i ↔ Spells (Text.trim line.toList) i := parseTrimmed_eq_ok_iff

/-- A label among the operands is the name in a definition, or a lone `B`. -/
theorem Spells.raw_of_label {cs : List Char} {i : Instruction} {o : Operand} (h : Spells cs i)
    (ho : o ∈ i.operands) (hkind : o.kind = .label) : i.opcode = .label ∨ o.raw = "B" := by
  cases h with
  | blank => simp [Instruction.blank] at ho
  | definition name => exact .inl rfl
  | instruction whole plain classified read =>
    obtain ⟨n, hn, rfl⟩ := List.getElem_of_mem ho
    have hword := read.get (read.length_eq ▸ hn) hn
    exact .inr (Operand.raw_of_parse?_label hword hkind)

end SourceLine

end ByteMachine
