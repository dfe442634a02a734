import ByteMachine.Proofs.Reachable
import ByteMachine.Proofs.RoundTrip

/-!
# Branches to a label by its name

A definition and a branch read the same name in two different ways: the one as
what stands before a colon, the other as an operand, whose first character tells
its kind. They agree on every identifier that does not start with the mark of a
register, and then the branch comes to the line of the definition, however the
machine has got to the branch. An identifier that starts with the mark is taken
for a register, and since it has no number the branch fails.
-/
namespace ByteMachine

namespace Text

/-- A letter or digit of ASCII, or an underscore. -/
def isWordChar (c : Char) : Bool := c.isAlphanum || c = '_'

/-- Letters, digits and underscores, of which the first is no digit. -/
def isIdentifier : List Char → Bool
  | [] => false
  | c :: rest => (c.isAlpha || c = '_') && rest.all isWordChar

/-- The mark of a register and its number. -/
def isRegisterName : List Char → Bool
  | 'R' :: digits => !digits.isEmpty && digits.all Char.isDigit
  | _ => false

theorem isAlpha_iff {c : Char} :
    c.isAlpha = true ↔ (65 ≤ c.toNat ∧ c.toNat ≤ 90) ∨ (97 ≤ c.toNat ∧ c.toNat ≤ 122) := by
  have hcases : c.isAlpha = true ↔ c.isUpper = true ∨ c.isLower = true := Bool.or_eq_true_iff
  rw [hcases, isUpper_iff, isLower_iff]

theorem toNat_of_isWordChar {c : Char} (h : isWordChar c = true) :
    48 ≤ c.toNat ∧ c.toNat ≤ 122 := by
  simp only [isWordChar, Char.isAlphanum, Bool.or_eq_true, decide_eq_true_eq, isAlpha_iff,
    isDigit_iff] at h
  rcases h with (halpha | hdigit) | rfl
  · omega
  · omega
  · decide

theorem isBlank_of_isWordChar {c : Char} (h : isWordChar c = true) : isBlank c = false := by
  have hbounds := toNat_of_isWordChar h
  exact isBlank_of_visible (by omega) (by omega)

theorem isLayout_of_isWordChar {c : Char} (h : isWordChar c = true) : isLayout c = false := by
  by_contra hlayout
  simp only [isLayout, Bool.not_eq_false, Bool.or_eq_true, decide_eq_true_eq] at hlayout
  rcases hlayout with ((rfl | rfl) | rfl) | rfl <;> exact absurd h (by decide)

theorem isWordChar_of_isIdentifier {cs : List Char} (h : isIdentifier cs = true) :
    ∀ c ∈ cs, isWordChar c = true := by
  cases cs with
  | nil => simp
  | cons c rest =>
    simp only [isIdentifier, Bool.and_eq_true, Bool.or_eq_true, List.all_eq_true] at h
    rw [List.forall_mem_cons]
    refine ⟨?_, h.2⟩
    simp only [isWordChar, Char.isAlphanum, Bool.or_eq_true]
    exact h.1.imp_left .inl

theorem isDigit_of_isIdentifier {c : Char} {rest : List Char}
    (h : isIdentifier (c :: rest) = true) : c.isDigit = false := by
  simp only [isIdentifier, Bool.and_eq_true, Bool.or_eq_true, decide_eq_true_eq, isAlpha_iff] at h
  rcases h.1 with halpha | rfl
  · rw [← Bool.not_eq_true, isDigit_iff]
    omega
  · rfl

end Text

/-- A word that is no number is none behind the mark of a register either. -/
theorem Numeral.valueOf_ne_ok {cs : List Char} (hword : ∀ c ∈ cs, Text.isWordChar c = true)
    (hdigits : cs = [] ∨ cs.all Char.isDigit = false) (n : Nat) : valueOf cs ≠ .ok n := by
  unfold valueOf
  dsimp only
  split_ifs with hempty hlong hrest
  · simp
  · simp
  · -- Layout characters are no word characters, so nothing follows the digits.
    have hnone : cs.dropWhile Char.isDigit = [] := by
      rw [List.eq_nil_iff_forall_not_mem]
      intro c hc
      have hlayout := Text.isLayout_of_isWordChar (hword c ((List.dropWhile_suffix _).subset hc))
      simp [List.all_eq_true.1 hrest c hc] at hlayout
    have hall : cs.all Char.isDigit = true := List.all_eq_true.2 (List.dropWhile_eq_nil_iff.1 hnone)
    rcases hdigits with rfl | hother
    · simp at hempty
    · simp [hall] at hother
  · simp

theorem Numeral.valueOf_of_not_isDigit {c : Char} {rest : List Char} (h : c.isDigit = false) :
    valueOf (c :: rest) = .error .malformed := by
  simp [valueOf, h]

namespace Operand

variable {name : String}

/-- An identifier without the mark of a register is read as itself, and not as a number. -/
theorem parse?_identifier (hname : Text.isIdentifier name.toList = true)
    (hmark : name.toList.head? ≠ some 'R') :
    ∃ o, parse? name = some o ∧ o.raw = name ∧
      (o.kind = .label ∨ (o.kind = .address ∧ Numeral.parse o.raw = .error .malformed)) := by
  have hword := Text.isWordChar_of_isIdentifier hname
  have hline : '\n' ∉ name.toList := fun hmem => absurd (hword _ hmem) (by decide)
  rw [parse?_of_newline_not_mem hline]
  refine ⟨_, rfl, ?_⟩
  split_ifs with hb
  · exact ⟨String.toList_inj.1 hb.symm, .inl rfl⟩
  · have hmalformed : Numeral.parse name = .error .malformed := by
      cases hcs : name.toList with
      | nil => simp [hcs, Text.isIdentifier] at hname
      | cons c rest =>
        rw [Numeral.parse, hcs]
        exact Numeral.valueOf_of_not_isDigit (Text.isDigit_of_isIdentifier (hcs ▸ hname))
    have himmediate : name.toList.head? ≠ some '#' := by
      intro hhead
      exact absurd (hword '#' (List.mem_of_mem_head? hhead)) (by decide)
    rw [ofHead_of_unmarked hmark himmediate, String.ofList_toList]
    exact ⟨rfl, .inr ⟨rfl, hmalformed⟩⟩

/-- An identifier with the mark is read as a register. -/
theorem parse?_marked {rest : List Char} (hname : Text.isIdentifier name.toList = true)
    (hmark : name.toList = 'R' :: rest) : parse? name = some ⟨.register, String.ofList rest⟩ := by
  have hword := Text.isWordChar_of_isIdentifier hname
  have hline : '\n' ∉ name.toList := fun hmem => absurd (hword _ hmem) (by decide)
  rw [parse?_of_newline_not_mem hline, hmark]
  simp [ofHead]

end Operand

/-- A branch to an identifier is read as such. -/
theorem SourceLine.parse_branch {name : String} {o : Operand}
    (hname : Text.isIdentifier name.toList = true) (ho : Operand.parse? name = some o) :
    SourceLine.parse ("B " ++ name) = .ok ⟨.b, some .always, [o]⟩ := by
  have hword := Text.isWordChar_of_isIdentifier hname
  have hspace : ' ' ∉ name.toList := fun hmem => absurd (hword _ hmem) (by decide)
  have hline : '\n' ∉ name.toList := fun hmem => absurd (hword _ hmem) (by decide)
  have hne : name.toList ≠ [] := by
    intro hnil
    simp [hnil, Text.isIdentifier] at hname
  refine @parse_word .b (some .always) o name (by decide) (by decide) ho hspace hline hne
    fun c hc => ?_
  have hlast := hword c (List.mem_of_getLast? hc)
  refine ⟨?_, Text.isBlank_of_isWordChar hlast⟩
  rintro rfl
  exact absurd hlast (by decide)

/-- A line defines the label by a colon, it is the only one that defines it, and every definition
in the program has a name. -/
structure Landmark (lines : List String) (program : Program) (name : String) (line : Nat) :
    Prop where
  parsed : Program.parse lines = .ok program
  named : program.LabelsNamed
  defined : lines[line]? = some (name ++ ":")
  unique : ∀ other, program.DefinesAt name other → other = line

/-- Whether a definition is the only one can be told from the lines of the program. -/
theorem Program.definesAt_unique {program : Program} {name : String} {line : Nat}
    (h : ∀ k < program.size, program.DefinesAt name k → k = line) (other : Int)
    (hother : program.DefinesAt name other) : other = line := by
  obtain ⟨hlow, hhigh⟩ := hother.bounds
  obtain ⟨k, rfl⟩ := Int.eq_ofNat_of_zero_le hlow
  exact congrArg Int.ofNat (h k (by omega) hother)

/-- A sound machine that seeks a label comes to its only definition. -/
theorem Instruction.seek_of_unique {program : Program} {m : Machine} {i : Instruction}
    {name : String} {line : Int} (hm : m.Sound program) (hsize : m.pc ≤ program.size)
    (hnamed : program.LabelsNamed) (hdefined : program.DefinesAt name line)
    (hunique : ∀ other, program.DefinesAt name other → other = line) :
    ∃ c, i.seek m program name = .ok c ∧ c.destination? = some line := by
  simp only [seek_eq_ok_iff]
  cases hname : m.label? name with
  | some found =>
    obtain rfl := hunique found (hm.labels name found hname)
    exact ⟨_, .inl ⟨found, rfl, hm.writableLine hname, rfl⟩, rfl⟩
  | none =>
    rcases LabelSearch.locate_of_named hnamed hm.line hsize with ⟨found, hfound⟩ | ⟨_, hnone⟩
    · obtain rfl := hunique found (LabelSearch.definesAt_of_locate hm.line hsize hfound)
      exact ⟨_, .inr ⟨rfl, found, hfound, rfl⟩, rfl⟩
    · exact absurd hdefined (hnone line)

/-- The line of a landmark defines its label. -/
theorem Landmark.definesAt {lines : List String} {program : Program} {name : String} {line : Nat}
    (h : Landmark lines program name line) (hname : Text.isIdentifier name.toList = true) :
    program.DefinesAt name line := by
  have hcolon : SourceLine.parse (name ++ ":") = .ok (.defineLabel name) :=
    SourceLine.parse_colon_of_trimmed fun c hc => Text.isBlank_of_isWordChar
      (Text.isWordChar_of_isIdentifier hname c (List.mem_of_mem_head? hc))
  obtain ⟨i, hi, hread⟩ := Program.getElem?_of_parse h.parsed h.defined
  obtain rfl := Except.ok.inj (hread.symm.trans hcolon)
  exact ⟨_, Program.at?_eq_some_iff.2 ⟨line, rfl, hi⟩, rfl⟩

/-- A branch to a register without a number fails. -/
theorem Instruction.target_of_marked {i : Instruction} {m : Machine} {program : Program}
    {raw : String} (hoperand : i.operand 0 = .ok ⟨.register, raw⟩)
    (hraw : ∀ n, Numeral.parse raw ≠ .ok n) : ∃ fault, i.target m program = .error fault := by
  have hnumber (n : Nat) : i.number 0 ≠ .ok n := by
    intro hn
    obtain ⟨o, ho, hparse⟩ := number_eq_ok_iff.1 hn
    obtain rfl := Option.some.inj ((operand_eq_ok_iff.1 hoperand).symm.trans ho)
    exact hraw n hparse
  cases htarget : i.target m program with
  | error fault => exact ⟨fault, rfl⟩
  | ok c =>
    rw [target_of_value hoperand (.inl rfl), bind_eq_ok_iff] at htarget
    obtain ⟨value, hvalue, _⟩ := htarget
    rw [Instruction.value, bind_eq_ok_iff] at hvalue
    obtain ⟨kind, _, hvalue⟩ := hvalue
    cases kind with
    | register =>
      obtain ⟨n, hn, _⟩ := bind_eq_ok_iff.1 hvalue
      exact absurd hn (hnumber n)
    | immediate | address | label => exact absurd hvalue (hnumber value)

/-- Wherever a new machine comes to a branch to an identifier that one line defines, it goes to
this line, if the identifier does not start with the mark of a register. One that does, and is no
register, is read as a register all the same, by its first character, and makes the branch fail. -/
theorem branch_by_name {lines : List String} {program : Program} {name : String} {line : Nat}
    (h : Landmark lines program name line) (hname : Text.isIdentifier name.toList = true)
    (hregister : Text.isRegisterName name.toList = false) {events : List Event} {m : Machine}
    {n : Nat} (htrace : Trace program .new events m) (hpc : m.pc = n)
    (hbranch : lines[n]? = some ("B " ++ name)) :
    (name.toList.head? ≠ some 'R' →
        ∃ t, m.next program = .ok () t ∧ t.machine.pc = line) ∧
      (name.toList.head? = some 'R' →
        program.at? m.pc =
            some ⟨.b, some .always, [⟨.register, String.ofList name.toList.tail⟩]⟩ ∧
          ∃ fault, m.next program = .error fault { machine := m }) := by
  have hsound := htrace.sound (Program.known_of_parse h.parsed)
  have hat {o : Operand} (ho : Operand.parse? name = some o) :
      program.at? m.pc = some ⟨.b, some .always, [o]⟩ := by
    obtain ⟨i, hi, hread⟩ := Program.getElem?_of_parse h.parsed hbranch
    obtain rfl := Except.ok.inj (hread.symm.trans (SourceLine.parse_branch hname ho))
    exact Program.at?_eq_some_iff.2 ⟨n, hpc, hi⟩
  constructor
  · intro hmark
    obtain ⟨o, ho, rfl, hkind⟩ := Operand.parse?_identifier hname hmark
    have hi := hat ho
    obtain ⟨_, hsize⟩ := Program.exists_at?_iff.1 ⟨_, hi⟩
    obtain ⟨c, hseek, hline⟩ := @Instruction.seek_of_unique program m ⟨.b, some .always, [o]⟩ _ _
      hsound (by omega) h.named (h.definesAt hname) h.unique
    have hc : Instruction.change ⟨.b, some .always, [o]⟩ m program = .ok c :=
      (Instruction.target_of_name rfl hkind).trans hseek
    refine ⟨c.carryOut m, Machine.next_eq_ok_iff.2 ⟨_, c, hi, hc, rfl⟩, ?_⟩
    rw [Change.pc_carryOut, hline]
    rfl
  · intro hmark
    obtain ⟨rest, hcs⟩ := List.head?_eq_some_iff.1 hmark
    have hi := hat (Operand.parse?_marked hname hcs)
    rw [hcs] at hname hregister ⊢
    have hword : ∀ c ∈ rest, Text.isWordChar c = true := fun c hc =>
      Text.isWordChar_of_isIdentifier hname c (List.mem_cons_of_mem _ hc)
    have hdigits : rest = [] ∨ rest.all Char.isDigit = false := by
      simpa [Text.isRegisterName, or_iff_not_imp_left] using hregister
    have hraw (value : Nat) : Numeral.parse (String.ofList rest) ≠ .ok value := by
      rw [Numeral.parse, String.toList_ofList]
      exact Numeral.valueOf_ne_ok hword hdigits value
    obtain ⟨fault, hfault⟩ := @Instruction.target_of_marked
      ⟨.b, some .always, [⟨.register, String.ofList rest⟩]⟩ m program _ rfl hraw
    exact ⟨hi, fault, Machine.next_eq_error_iff.2 ⟨rfl, .inr ⟨_, hi, hfault⟩⟩⟩

/-- A lap that never ends. -/
def lap : Program :=
  #[.defineLabel "lap", ⟨.out, none, [⟨.immediate, "1"⟩]⟩, ⟨.b, some .always, [⟨.address, "lap"⟩]⟩]

/-- A label whose name starts with the mark of a register. -/
def retry : Program := #[⟨.b, some .always, [⟨.register, "etry"⟩]⟩, .defineLabel "Retry"]

theorem Landmark.retry : Landmark ["B Retry", "Retry:"] retry "Retry" 1 :=
  ⟨rfl, by decide, rfl, Program.definesAt_unique (by decide)⟩

theorem branch_by_name_lap :
    (∃ events m, Trace lap .new events m ∧ m.pc = 2 ∧
        ∃ t, m.next lap = .ok () t ∧ t.machine.pc = 0) ∧
      retry.at? 0 = some ⟨.b, some .always, [⟨.register, "etry"⟩]⟩ ∧
      ∃ fault, Machine.new.next retry = .error fault { machine := .new } := by
  have hlap : Landmark ["lap:", "OUT #1", "B lap"] lap "lap" 0 :=
    ⟨rfl, by decide, rfl, Program.definesAt_unique (by decide)⟩
  have htrace : ∃ events m, Trace lap .new events m ∧ m.pc = 2 :=
    ⟨[_, _], _, .cons rfl rfl (.cons rfl rfl (.nil _)), rfl⟩
  obtain ⟨events, m, htrace, hpc⟩ := htrace
  have hbranch := branch_by_name hlap (by decide) (by decide) htrace hpc rfl
  have hmarked := branch_by_name .retry (by decide) (by decide) (.nil _) rfl rfl
  exact ⟨⟨events, m, htrace, hpc, hbranch.1 (by decide)⟩, hmarked.2 (by decide)⟩

/-- The first instruction does not reach the label that it names. -/
theorem retry_not_reached :
    Landmark ["B Retry", "Retry:"] retry "Retry" 1 ∧ Text.isIdentifier "Retry".toList = true ∧
      Text.isRegisterName "Retry".toList = false ∧ Trace retry .new [] .new ∧
      Machine.new.pc = 0 ∧ ["B Retry", "Retry:"][0]? = some ("B " ++ "Retry") ∧
      ¬ ∃ t, Machine.new.next retry = .ok () t ∧ t.machine.pc = 1 := by
  refine ⟨.retry, by decide, by decide, .nil _, rfl, rfl, ?_⟩
  rintro ⟨t, hnext, _⟩
  have hfault : Machine.new.next retry =
      .error (.notNumeral "B" 0 "etry") { machine := .new } := by rfl
  simp [hfault] at hnext

end ByteMachine
