import ByteMachine.Proofs.RoundTrip
import Mathlib.Data.Set.Function

/-!
# Instructions that are told by their line

An instruction need not come from a line. One that was put together by hand has a
printed form too, but its operands may run into each other there, or be taken for
operands of another kind. `Instruction.Plain` says when nothing of this happens:
every operand is a word of its own that shows its kind, and the line ends in a
character that reading does not take off. Such an instruction is read back from
its line, so no two of them have the same one.
-/
namespace ByteMachine

namespace Operand

/-- The operand is a word of a line, and the word shows its kind: an address starts with no mark
and is not the word for a label, which is the only one that a label has. -/
structure Plain (o : Operand) : Prop where
  word : ' ' ∉ o.text.toList ∧ '\n' ∉ o.text.toList
  address : o.kind = .address →
    o.raw.toList.head? ≠ some 'R' ∧ o.raw.toList.head? ≠ some '#' ∧ o.raw ≠ "B"
  label : o.kind = .label → o.raw = "B"

instance (o : Operand) : Decidable o.Plain :=
  decidable_of_iff ((' ' ∉ o.text.toList ∧ '\n' ∉ o.text.toList) ∧
      (o.kind = .address →
        o.raw.toList.head? ≠ some 'R' ∧ o.raw.toList.head? ≠ some '#' ∧ o.raw ≠ "B") ∧
      (o.kind = .label → o.raw = "B"))
    ⟨fun h => ⟨h.1, h.2.1, h.2.2⟩, fun h => ⟨h.word, h.address, h.label⟩⟩

theorem Plain.parse?_text {o : Operand} (h : o.Plain) : parse? o.text = some o := by
  obtain ⟨kind, raw⟩ := o
  rw [parse?_of_newline_not_mem h.word.2]
  cases kind with
  | register => simp [text, ofHead]
  | immediate => simp [text, ofHead]
  | address =>
    obtain ⟨hregister, himmediate, hlabel⟩ := h.address rfl
    have hb : raw.toList ≠ ['B'] := fun hb => hlabel (String.toList_inj.1 hb)
    simp [text, hb, ofHead_of_unmarked hregister himmediate]
  | label =>
    obtain rfl : raw = "B" := h.label rfl
    rfl

end Operand

theorem Condition.mem_all (condition : Condition) : condition ∈ all := by
  cases condition with
  | always => simp [all]
  | when flag => cases flag <;> simp [all, Flag.all]

/-- There is a mnemonic for every operation of the machine that has a condition exactly if it is a
branch. -/
theorem SourceLine.mem_forms {opcode : Opcode} {branch : Option Condition}
    (hknown : opcode ∈ Opcode.known) (hbranch : branch ≠ none ↔ opcode = .b) :
    (opcode, branch) ∈ forms := by
  cases branch with
  | none =>
    have hother : opcode ≠ .b := fun hb => hbranch.2 hb rfl
    exact List.mem_append_right _
      (List.mem_map_of_mem (List.mem_filter.2 ⟨hknown, by simpa using hother⟩))
  | some condition =>
    obtain rfl := hbranch.1 (by simp)
    exact List.mem_append_left _ (List.mem_map_of_mem condition.mem_all)

namespace Instruction

/-- The instruction can be told from its line: it is the definition of a label whose name starts
with no blank, or another operation of the machine with plain operands, of which the last one is not
empty and ends in neither a colon nor a blank. -/
inductive Plain : Instruction → Prop where
  | definition {name : String} (start : ∀ c ∈ name.toList.head?, Text.isBlank c = false) :
      Plain (.defineLabel name)
  | operation {i : Instruction} (known : i.opcode ∈ Opcode.known) (other : i.opcode ≠ .label)
      (condition : i.branch ≠ none ↔ i.opcode = .b) (operands : ∀ o ∈ i.operands, o.Plain)
      (last : ∀ o ∈ i.operands.getLast?, o.text ≠ "" ∧
        ∀ c ∈ o.text.toList.getLast?, c ≠ ':' ∧ Text.isBlank c = false) : Plain i

/-- The line of an operation ends as its last operand does, or else its mnemonic. -/
theorem last_text {i : Instruction} (hform : (i.opcode, i.branch) ∈ SourceLine.forms)
    (hother : i.opcode ≠ .label)
    (hlast : ∀ o ∈ i.operands.getLast?, o.text ≠ "" ∧
      ∀ c ∈ o.text.toList.getLast?, c ≠ ':' ∧ Text.isBlank c = false) {c : Char}
    (hc : c ∈ i.text.toList.getLast?) : c ≠ ':' ∧ Text.isBlank c = false := by
  rw [SourceLine.toList_text fun h => absurd h hother] at hc
  cases hend : i.operands.getLast? with
  | none =>
    rw [List.getLast?_eq_none_iff.1 hend] at hc
    exact i.last_mnemonic hform hc
  | some o =>
    obtain ⟨hne, hgood⟩ := hlast o hend
    have hword : ((i.operands.map Operand.text).map String.toList).getLast? =
        some o.text.toList := by simp [hend]
    rw [SourceLine.getLast?_join_of_last hword (by simpa using hne)] at hc
    exact hgood c hc

theorem Plain.parse_text {i : Instruction} (h : i.Plain) : SourceLine.parse i.text = .ok i := by
  cases h with
  | definition start => exact SourceLine.parse_colon_of_trimmed start
  | operation known other condition operands last =>
    have hform := SourceLine.mem_forms known condition
    refine SourceLine.parse_text_of_words hform (fun h => absurd h other) ?_ ?_
      fun c hc => last_text hform other last hc
    · intro word hword
      obtain ⟨o, ho, rfl⟩ := List.mem_map.1 hword
      exact (operands o ho).word.1
    · rw [List.forall₂_map_left_iff, List.forall₂_same]
      exact fun o ho => (operands o ho).parse?_text

end Instruction

/-- An instruction that can be told from its line is read back from it, and no other one that can
be told has the same line. -/
theorem plain_reads_back :
    (∀ i : Instruction, i.Plain → SourceLine.parse i.text = .ok i) ∧
      Set.InjOn Instruction.text {i | i.Plain} := by
  refine ⟨fun i hi => hi.parse_text, ?_⟩
  intro i hi j hj hsame
  have hparse := hi.parse_text
  rw [hsame, hj.parse_text] at hparse
  exact (Except.ok.inj hparse).symm

/-- Words that end in a comma, are empty or stand for a label, and a name of two words. -/
theorem plain_reads_back_gaps :
    SourceLine.parse (Instruction.text ⟨.b, some (.when .ne),
        [⟨.register, "1,"⟩, ⟨.address, ""⟩, ⟨.label, "B"⟩]⟩) =
      .ok ⟨.b, some (.when .ne), [⟨.register, "1,"⟩, ⟨.address, ""⟩, ⟨.label, "B"⟩]⟩ ∧
    SourceLine.parse (Instruction.text (.defineLabel "two words")) =
      .ok (.defineLabel "two words") ∧
    Instruction.text (.defineLabel "two words") ≠ Instruction.text (.defineLabel "two") := by
  have hend : Text.isBlank 'B' = false := by decide
  have hbranch : Instruction.Plain ⟨.b, some (.when .ne),
      [⟨.register, "1,"⟩, ⟨.address, ""⟩, ⟨.label, "B"⟩]⟩ :=
    .operation (by decide) (by decide) (by decide) (by decide) (by simp [Operand.text, hend])
  have hstart : Text.isBlank 't' = false := by decide
  have hlong : Instruction.Plain (.defineLabel "two words") := .definition (by simp [hstart])
  have hshort : Instruction.Plain (.defineLabel "two") := .definition (by simp [hstart])
  refine ⟨plain_reads_back.1 _ hbranch, plain_reads_back.1 _ hlong, fun hsame => ?_⟩
  exact absurd (plain_reads_back.2 hlong hshort hsame) (by decide)

end ByteMachine
