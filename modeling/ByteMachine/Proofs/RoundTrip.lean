import ByteMachine.Proofs.Spelling

/-!
# Reading back what was printed

An instruction that was read from a line is printed as a line that spells it
again. The two lines need not be the same: blanks around the line are gone, an
empty line has become an operation without an effect, and a branch has lost what
stood behind its condition. Only a label that was defined by the name of the
operation comes back in another form, as a definition with a colon.
-/
namespace ByteMachine

namespace Text

variable {c : Char}

theorem isUpper_iff : c.isUpper = true ↔ 65 ≤ c.toNat ∧ c.toNat ≤ 90 := by
  have hrange : c.isUpper = true ↔ 'A'.val ≤ c.val ∧ c.val ≤ 'Z'.val := decide_eq_true_iff
  simpa [UInt32.le_iff_toNat_le] using hrange

theorem isLower_iff : c.isLower = true ↔ 97 ≤ c.toNat ∧ c.toNat ≤ 122 := by
  have hrange : c.isLower = (decide ('a'.val ≤ c.val) && decide (c.val ≤ 'z'.val)) := rfl
  simp [hrange, UInt32.le_iff_toNat_le]

theorem isDigit_iff : c.isDigit = true ↔ 48 ≤ c.toNat ∧ c.toNat ≤ 57 := by
  simp [Char.isDigit, UInt32.le_iff_toNat_le]

theorem isBlank_of_isUpper (h : c.isUpper = true) : isBlank c = false := by
  obtain ⟨hlow, hhigh⟩ := isUpper_iff.1 h
  exact isBlank_of_visible (by omega) (by omega)

end Text

/-- A mnemonic ends in a capital letter. -/
theorem Instruction.last_mnemonic {i : Instruction} (h : (i.opcode, i.branch) ∈ SourceLine.forms)
    {c : Char} (hc : c ∈ i.mnemonic.toList.getLast?) : c ≠ ':' ∧ Text.isBlank c = false := by
  obtain ⟨_, _, hupper⟩ := i.classify_mnemonic h
  have hcapital := List.all_eq_true.1 hupper c (List.mem_of_getLast? hc)
  refine ⟨?_, Text.isBlank_of_isUpper hcapital⟩
  rintro rfl
  exact absurd hcapital (by decide)

namespace SourceLine

/-- Whatever stands before a colon at the end of a line is the name of a label, without the
blanks before it. -/
theorem parse_colon (name : String) :
    parse (name ++ ":") = .ok (.defineLabel (String.ofList (Text.trimStart name.toList))) := by
  have htrim : Text.trim (name ++ ":").toList = Text.trimStart name.toList ++ [':'] := by
    rw [String.toList_append]
    exact Text.trim_concat rfl name.toList
  rw [parse_eq_ok_iff, htrim]
  exact .definition _

theorem parse_colon_of_trimmed {name : String}
    (h : ∀ c ∈ name.toList.head?, Text.isBlank c = false) :
    parse (name ++ ":") = .ok (.defineLabel name) := by
  have hcolon := parse_colon name
  rwa [Text.trimStart, Text.dropWhile_isBlank_eq_self h, String.ofList_toList] at hcolon

/-- What stands behind the mnemonic ends the line, whatever the mnemonic is. -/
theorem getLast?_join {words : List (List Char)} (h : words ≠ []) (mnemonic other : List Char) :
    (join mnemonic words).getLast? = (join other words).getLast? := by
  obtain ⟨word, rest, rfl⟩ := List.exists_cons_of_ne_nil h
  simp [join, List.getLast?_append, List.getLast?_cons]

theorem head?_join {mnemonic : List Char} (h : mnemonic ≠ []) (words : List (List Char)) :
    (join mnemonic words).head? = mnemonic.head? := by
  obtain ⟨c, rest, rfl⟩ := List.exists_cons_of_ne_nil h
  fun_cases join <;> simp

/-- A line ends as the last of its words does, unless this is empty. -/
theorem getLast?_join_of_last {words : List (List Char)} {word : List Char}
    (h : words.getLast? = some word) (hne : word ≠ []) (mnemonic : List Char) :
    (join mnemonic words).getLast? = word.getLast? := by
  have hlast := List.getLast?_eq_some_getLast hne
  have hjoined : ([',', ' '].intercalate words).getLast? = word.getLast? := by
    induction words with
    | nil => simp at h
    | cons first rest ih =>
      cases rest with
      | nil =>
        obtain rfl : first = word := by simpa using h
        simp
      | cons second more =>
        have hrest := ih (by simpa using h)
        rw [List.intercalate_cons_cons, List.getLast?_append, hrest]
        simp [hlast]
  fun_cases join mnemonic words
  · simp at h
  · rw [List.getLast?_append, List.getLast?_cons, hjoined]
    simp [hlast]

theorem mem_join_of_mem {mnemonic word : List Char} {words : List (List Char)} (h : word ∈ words)
    {c : Char} (hc : c ∈ word) : c ∈ join mnemonic words := by
  have hjoined : c ∈ [',', ' '].intercalate words := by
    induction words with
    | nil => simp at h
    | cons first rest ih =>
      cases rest with
      | nil =>
        obtain rfl := List.mem_singleton.1 h
        simpa using hc
      | cons second more =>
        rw [List.intercalate_cons_cons]
        rcases List.mem_cons.1 h with rfl | hrest
        · exact List.mem_append_left _ (List.mem_append_left _ hc)
        · exact List.mem_append_right _ (ih hrest)
  fun_cases join mnemonic words
  · simp at h
  · exact List.mem_append_right _ (List.mem_cons_of_mem _ hjoined)

theorem toList_text {i : Instruction} (h : i.opcode = .label → i.operands = []) :
    i.text.toList = join i.mnemonic.toList ((i.operands.map Operand.text).map String.toList) := by
  unfold Instruction.text
  split
  · next hopcode hoperands => simp [h hopcode] at hoperands
  · next hoperands => simp [hoperands, join]
  · next hoperands _ =>
    obtain ⟨o, rest, hcons⟩ := List.exists_cons_of_ne_nil hoperands
    simp [hcons, join, String.toList_intercalate]

/-- An instruction is read back from its words if they can be told apart in the line. -/
theorem parse_text_of_words {i : Instruction} (hform : (i.opcode, i.branch) ∈ forms)
    (hlabel : i.opcode = .label → i.operands = [])
    (hwords : ∀ word ∈ i.operands.map Operand.text, ' ' ∉ word.toList)
    (hread : List.Forall₂ (fun word o => Operand.parse? word = some o)
      (i.operands.map Operand.text) i.operands)
    (hlast : ∀ c ∈ i.text.toList.getLast?, c ≠ ':' ∧ Text.isBlank c = false) :
    parse i.text = .ok i := by
  obtain ⟨hclassify, hne, hupper⟩ := i.classify_mnemonic hform
  rw [List.all_eq_true] at hupper
  have hspace : ' ' ∉ i.mnemonic.toList := fun hmem => absurd (hupper ' ' hmem) (by decide)
  have hfirst : ∀ c ∈ i.text.toList.head?, Text.isBlank c = false := by
    intro c hc
    rw [toList_text hlabel, head?_join hne] at hc
    exact Text.isBlank_of_isUpper (hupper c (List.mem_of_mem_head? hc))
  have htrim : Text.trim i.text.toList = i.text.toList :=
    Text.trim_eq_self hfirst fun c hc => (hlast c hc).2
  have hplain : i.text.toList.getLast? ≠ some ':' := fun hcolon => (hlast ':' hcolon).1 rfl
  rw [parse_eq_ok_iff, htrim]
  rw [toList_text hlabel] at hplain ⊢
  exact .instruction ⟨hspace, hwords⟩ hplain hclassify hread

/-- An instruction with a single operand is read from its mnemonic and the word of the operand. -/
theorem parse_word {opcode : Opcode} {branch : Option Condition} {o : Operand} {word : String}
    (hform : (opcode, branch) ∈ forms) (hlabel : opcode ≠ .label)
    (ho : Operand.parse? word = some o) (hspace : ' ' ∉ word.toList) (hline : '\n' ∉ word.toList)
    (hne : word.toList ≠ [])
    (hlast : ∀ c ∈ word.toList.getLast?, c ≠ ':' ∧ Text.isBlank c = false) :
    parse (Instruction.mnemonic ⟨opcode, branch, [o]⟩ ++ " " ++ word) =
      .ok ⟨opcode, branch, [o]⟩ := by
  have hword := Operand.text_of_parse? hline ho
  have htext : Instruction.text ⟨opcode, branch, [o]⟩ =
      Instruction.mnemonic ⟨opcode, branch, [o]⟩ ++ " " ++ word := by
    apply String.toList_inj.1
    rw [toList_text fun h => absurd h hlabel]
    simp [hword, join]
  rw [← htext]
  refine parse_text_of_words hform (fun h => absurd h hlabel) ?_ ?_ fun c hc => hlast c ?_
  · simpa [hword] using hspace
  · simpa [hword] using ho
  · rwa [htext, String.toList_append, List.getLast?_append_of_ne_nil _ hne] at hc

/-- The line defines a label by the name of the operation and not by a colon. -/
def NamesLabel (line : String) : Prop :=
  (Text.trim line.toList).getLast? ≠ some ':' ∧
    ∃ word rest, tokens (String.ofList (Text.trim line.toList)) = .ok ("LABEL", word :: rest)

/-- Words without a newline are what their operands are printed as. -/
theorem map_text_of_read {words : List String} {os : List Operand}
    (hread : List.Forall₂ (fun word o => Operand.parse? word = some o) words os)
    (hline : ∀ word ∈ words, '\n' ∉ word.toList) : os.map Operand.text = words := by
  induction hread with
  | nil => rfl
  | cons hword _ ih =>
    rw [List.forall_mem_cons] at hline
    rw [List.map_cons, Operand.text_of_parse? hline.1 hword, ih hline.2]

/-- A line that holds a mnemonic and words is printed as one that is read as the same
instruction. The mnemonic may lose its end, but what stands behind it is kept. -/
theorem parse_text_of_join {mnemonic : String} {words : List String} {i : Instruction}
    (hwords : ∀ word ∈ words, ' ' ∉ word.toList)
    (hlast : ∀ c ∈ (join mnemonic.toList (words.map String.toList)).getLast?,
      c ≠ ':' ∧ Text.isBlank c = false)
    (hclassify : classify mnemonic = .ok (i.opcode, i.branch))
    (hread : List.Forall₂ (fun word o => Operand.parse? word = some o) words i.operands)
    (hline : ∀ word ∈ words, '\n' ∉ word.toList)
    (hlabel : i.opcode = .label → i.operands = []) : parse i.text = .ok i := by
  have hform := mem_forms_of_classify hclassify
  have htexts := map_text_of_read hread hline
  refine parse_text_of_words hform hlabel (htexts ▸ hwords) (htexts ▸ hread) fun c hc => ?_
  rw [toList_text hlabel, htexts] at hc
  by_cases hnone : words = []
  · -- Nothing stands behind the mnemonic.
    subst hnone
    exact i.last_mnemonic hform hc
  · have hsame := getLast?_join (by simpa using hnone : words.map String.toList ≠ [])
      i.mnemonic.toList mnemonic.toList
    exact hlast c (hsame ▸ hc)

/-- A definition by the name of the operation is printed as a definition by a colon. -/
theorem parse_text_of_label {word : String} {rest : List String} {i : Instruction}
    (hclassify : classify "LABEL" = .ok (i.opcode, i.branch))
    (hread : List.Forall₂ (fun word o => Operand.parse? word = some o) (word :: rest) i.operands) :
    ∃ o os, i = ⟨.label, none, o :: os⟩ ∧
      parse i.text = .ok (.defineLabel (String.ofList (Text.trimStart o.raw.toList))) := by
  obtain ⟨opcode, branch, operands⟩ := i
  obtain ⟨rfl, rfl⟩ := Prod.mk.inj (Except.ok.inj hclassify)
  obtain ⟨o, os, _, _, rfl⟩ := List.forall₂_cons_left_iff.1 hread
  exact ⟨o, os, rfl, parse_colon o.raw⟩

end SourceLine

open SourceLine in
/-- A line that was read is printed as a line that is read as the same instruction, unless it
defines a label by the name of the operation: then the printed line defines it by a colon, and the
name has no blanks before it any more. -/
theorem printed_line_reads_back {line : String} {i : Instruction} (hline : '\n' ∉ line.toList)
    (h : SourceLine.parse line = .ok i) :
    (¬ NamesLabel line → SourceLine.parse i.text = .ok i) ∧
      (NamesLabel line → ∃ o rest, i = ⟨.label, none, o :: rest⟩ ∧
        SourceLine.parse i.text =
          .ok (.defineLabel (String.ofList (Text.trimStart o.raw.toList)))) := by
  have hfirst (c : Char) := @Text.isBlank_of_head?_trim line.toList c
  have hlast (c : Char) := @Text.isBlank_of_getLast?_trim line.toList c
  have hnewline : '\n' ∉ Text.trim line.toList := fun hmem => hline (Text.mem_of_mem_trim hmem)
  rw [parse_eq_ok_iff] at h
  unfold NamesLabel
  generalize Text.trim line.toList = cs at h hfirst hlast hnewline
  cases h with
  | blank =>
    refine ⟨fun _ => rfl, ?_⟩
    rintro ⟨_, word, rest, htokens⟩
    obtain ⟨_, _, hempty⟩ := tokens_eq_ok_iff.1 htokens
    simp [join] at hempty
  | definition name =>
    refine ⟨fun _ => ?_, fun hnames => absurd (by simp) hnames.1⟩
    refine parse_colon_of_trimmed fun c hc => hfirst c ?_
    rw [String.toList_ofList] at hc
    rw [List.head?_append, Option.mem_def.1 hc]
    rfl
  | @instruction mnemonic words _ whole plain classified read =>
    have htokens : tokens (String.ofList (join mnemonic.toList (words.map String.toList))) =
        .ok (mnemonic, words) :=
      tokens_eq_ok_iff.2 ⟨whole.1, whole.2, String.toList_ofList⟩
    rw [htokens]
    constructor
    · intro hother
      refine parse_text_of_join whole.2 (fun c hc => ⟨?_, hlast c hc⟩) classified read ?_ ?_
      · rintro rfl
        exact plain hc
      · intro word hword hmem
        exact hnewline (mem_join_of_mem (List.mem_map_of_mem hword) hmem)
      · intro hopcode
        rw [hopcode] at classified
        obtain rfl := eq_name_of_classify classified (by simp)
        cases words with
        | nil => exact List.forall₂_nil_left_iff.1 read
        | cons word rest => exact absurd ⟨plain, word, rest, rfl⟩ hother
    · rintro ⟨_, word, rest, hlabel⟩
      obtain ⟨rfl, rfl⟩ := Prod.mk.inj (Except.ok.inj hlabel)
      exact parse_text_of_label classified read

/-- A branch whose condition has a tail, with a word that ends in a comma, an empty one and one
that holds a tab; and a label that is defined by the name of the operation. -/
theorem printed_line_reads_back_tail :
    SourceLine.parse (Instruction.text ⟨.b, some (.when .eq),
        [⟨.register, "1,"⟩, ⟨.address, ""⟩, ⟨.address, "é\t3"⟩]⟩) =
      .ok ⟨.b, some (.when .eq), [⟨.register, "1,"⟩, ⟨.address, ""⟩, ⟨.address, "é\t3"⟩]⟩ ∧
    SourceLine.parse (Instruction.text ⟨.label, none, [⟨.address, "\tend"⟩, ⟨.address, "7"⟩]⟩) =
      .ok (.defineLabel "end") := by
  have hbranch : SourceLine.parse "  BEQUAL R1,, , é\t3" =
      .ok ⟨.b, some (.when .eq), [⟨.register, "1,"⟩, ⟨.address, ""⟩, ⟨.address, "é\t3"⟩]⟩ := rfl
  have hother : ¬ SourceLine.NamesLabel "  BEQUAL R1,, , é\t3" := by
    rintro ⟨_, word, rest, hnames⟩
    have htokens := hnames.symm.trans (rfl : _ = Except.ok ("BEQUAL", ["R1,", "", "é\t3"]))
    simp at htokens
  have hlabel : SourceLine.parse "LABEL \tend, 7" =
      .ok ⟨.label, none, [⟨.address, "\tend"⟩, ⟨.address, "7"⟩]⟩ := rfl
  have hnames : SourceLine.NamesLabel "LABEL \tend, 7" := ⟨by decide, "\tend", ["7"], rfl⟩
  obtain ⟨o, rest, hi, hcolon⟩ := (printed_line_reads_back (by decide) hlabel).2 hnames
  obtain ⟨rfl, rfl⟩ := List.cons.inj (Instruction.mk.inj hi).2.2
  exact ⟨(printed_line_reads_back (by decide) hbranch).1 hother, hcolon⟩

end ByteMachine
