import ByteMachine.Proofs.BranchTarget
import ByteMachine.Proofs.Reachable

/-!
# Branches and comparisons

A comparison leaves what it has found in the flags, and nothing else touches
them. So a conditional branch is a matter of history: it asks about the two
values that the last comparison read when it was executed, whatever has become
of the register since then, and it is not taken before the first comparison. If
it is taken it goes to its target, and else to the next line.
-/
namespace ByteMachine

/-- What a flag says about the values of a comparison. -/
def Flag.Holds : Flag → Nat → Nat → Prop
  | .eq, a, b => a = b
  | .ne, a, b => a ≠ b
  | .lt, a, b => a < b
  | .gt, a, b => b < a

instance : (flag : Flag) → (a b : Nat) → Decidable (flag.Holds a b)
  | .eq, a, b => inferInstanceAs (Decidable (a = b))
  | .ne, a, b => inferInstanceAs (Decidable (a ≠ b))
  | .lt, a, b => inferInstanceAs (Decidable (a < b))
  | .gt, a, b => inferInstanceAs (Decidable (b < a))

/-- A comparison raises the flags that hold of its values. -/
theorem Execution.mem_comparison_iff {flag : Flag} {a b : Nat} :
    flag ∈ comparison a b ↔ flag.Holds a b := by
  unfold comparison
  cases flag <;> split_ifs <;> simp [Flag.Holds] <;> omega

/-- The comparison that was executed last. -/
def lastComparison? (events : List Event) : Option Event :=
  (events.filter fun e => e.instruction.opcode = .cmp).getLast?

theorem lastComparison?_concat (events : List Event) (e : Event) :
    lastComparison? (events ++ [e]) =
      if e.instruction.opcode = .cmp then some e else lastComparison? events := by
  by_cases hcmp : e.instruction.opcode = .cmp <;> simp [lastComparison?, hcmp]

/-- The event is a comparison, and these are the values that it has read: the contents of a
register, and those of another one or a number. -/
structure Event.Compares (e : Event) (a b : Nat) : Prop where
  opcode : e.instruction.opcode = .cmp
  left : ∃ o, e.instruction.operands[0]? = some o ∧ o.kind = .register ∧ o.Denotes e.before a
  right : ∃ o, e.instruction.operands[1]? = some o ∧ o.Denotes e.before b

theorem Event.Compares.unique {e : Event} {a b a' b' : Nat} (h : e.Compares a b)
    (h' : e.Compares a' b') : a = a' ∧ b = b' := by
  obtain ⟨_, ⟨o, ho, _, ha⟩, p, hp, hb⟩ := h
  obtain ⟨_, ⟨o', ho', _, ha'⟩, p', hp', hb'⟩ := h'
  obtain rfl := Option.some.inj (ho.symm.trans ho')
  obtain rfl := Option.some.inj (hp.symm.trans hp')
  exact ⟨ha.unique ha', hb.unique hb'⟩

/-- There has been a comparison, and the flag holds of the values that the last one has read. -/
def LastCompared (events : List Event) (flag : Flag) : Prop :=
  ∃ e a b, lastComparison? events = some e ∧ e.Compares a b ∧ flag.Holds a b

/-- The flags of the machine are those that the last comparison has found. -/
def FlagsTell (events : List Event) (m : Machine) : Prop :=
  ∀ flag, m.flags.has flag = true ↔ LastCompared events flag

namespace Instruction

variable {i : Instruction} {m : Machine} {program : Program} {c : Change}

/-- A comparison makes flags of what it has read. -/
theorem change_of_cmp (hcmp : i.opcode = .cmp) (hc : i.change m program = .ok c) (t : Transition) :
    ∃ a b, Event.Compares ⟨m, i, t⟩ a b ∧ c = .flags (Execution.comparison a b) := by
  rw [change, hcmp] at hc
  simp only [bind_eq_ok_iff] at hc
  obtain ⟨n, hn, byte, hbyte, b, hb, hflags⟩ := hc
  obtain ⟨o, ho, hkind, hparse⟩ := register_eq_ok_iff.1 hn
  refine ⟨byte.toNat, b, ⟨hcmp, ⟨o, ho, hkind, .contents hkind hparse hbyte⟩, ?_⟩, ?_⟩
  · exact value_eq_ok_iff.1 hb
  · exact (Except.ok.inj hflags).symm

end Instruction

namespace FlagsTell

theorem new : FlagsTell [] .new := by
  intro flag
  have hclear : Machine.new.flags.has flag = false := by cases flag <;> rfl
  simp [hclear, LastCompared, lastComparison?]

/-- Another step is told too: a comparison changes the flags to what it has found, and any other
instruction leaves them alone. -/
theorem next {program : Program} {events : List Event} {m : Machine} {i : Instruction}
    {t : Transition} (h : FlagsTell events m) (hi : program.at? m.pc = some i)
    (hnext : m.next program = .ok () t) : FlagsTell (events ++ [⟨m, i, t⟩]) t.machine := by
  obtain ⟨j, c, hj, hc, rfl⟩ := Machine.next_eq_ok_iff.1 hnext
  obtain rfl := Option.some.inj (hi.symm.trans hj)
  intro flag
  rw [Change.flags_carryOut, LastCompared, lastComparison?_concat]
  by_cases hcmp : i.opcode = .cmp
  · obtain ⟨a, b, hcompares, rfl⟩ := Instruction.change_of_cmp hcmp hc (c.carryOut m)
    rw [if_pos hcmp, Flags.has_ofList, List.contains_iff_mem, Execution.mem_comparison_iff]
    constructor
    · exact fun hholds => ⟨_, a, b, rfl, hcompares, hholds⟩
    · rintro ⟨e, a', b', he, hcompares', hholds⟩
      obtain rfl := Option.some.inj he
      obtain ⟨rfl, rfl⟩ := hcompares.unique hcompares'
      exact hholds
  · rw [if_neg hcmp]
    have horigin := Instruction.origin_of_change hc
    cases c with
    | flags raised => exact absurd horigin.1 hcmp
    | skip | register | memory | halt | emit | label | warn | jump | discover => exact h flag

end FlagsTell

/-- Whether a conditional branch is met is told by the last comparison. -/
theorem FlagsTell.unmet_iff {events : List Event} {m : Machine} {i : Instruction} {flag : Flag}
    (h : FlagsTell events m) (hcondition : i.branch = some (.when flag)) :
    i.Unmet m ↔ ¬ LastCompared events flag := by
  rw [← h flag, Bool.not_eq_true]
  simp [Instruction.Unmet, hcondition]

/-- A conditional branch follows the last comparison. If there has been one and the two values that
it read then satisfy the condition, the branch goes to a line exactly if its first operand leads
there. Otherwise it does nothing but go on to the next line, whatever its operands are. Where the
step succeeds, the log says that the branch was taken in the first case and only then. -/
theorem branch_follows_comparison {program : Program} {events : List Event} {m : Machine}
    {i : Instruction} {flag : Flag} (htrace : Trace program .new events m)
    (hi : program.at? m.pc = some i) (hopcode : i.opcode = .b)
    (hcondition : i.branch = some (.when flag)) :
    (LastCompared events flag → ∀ line : Int,
        (∃ t, m.next program = .ok () t ∧ t.machine.pc = line) ↔
          ∃ o, i.operands.head? = some o ∧ o.LeadsTo program m line) ∧
      (¬ LastCompared events flag → m.next program = .ok () { machine := m.advance }) ∧
      ∀ t, m.next program = .ok () t →
        (.branchTaken i.mnemonic t.machine.pc ∈ t.log ↔ LastCompared events flag) := by
  have htell : FlagsTell events m :=
    htrace.history (fun _ _ _ _ htell hi hnext => htell.next hi hnext) FlagsTell.new
  have hunmet := htell.unmet_iff hcondition
  refine ⟨fun hcompared line => ?_, fun hcompared => ?_, fun t hnext => ?_⟩
  · rw [Machine.next_leads_iff hi hopcode (by simpa [hunmet] using hcompared)]
    refine exists_congr fun o => and_congr_right fun _ => ?_
    exact and_iff_left_of_imp fun hleads => hleads.writableLine htrace.not_holdsUnwritable
  · exact Machine.next_of_unmet hi hopcode (hunmet.2 hcompared)
  · rw [Machine.log_iff_met hi hopcode hnext, hunmet, Classical.not_not]

/-- A comparison with a number beyond the bytes, and two branches on it after the register has been
overwritten. -/
def overwritten : Program :=
  #[⟨.mov, none, [⟨.register, "1"⟩, ⟨.immediate, "50"⟩]⟩,
    ⟨.cmp, none, [⟨.register, "1"⟩, ⟨.immediate, "300"⟩]⟩,
    ⟨.mov, none, [⟨.register, "1"⟩, ⟨.immediate, "60"⟩]⟩,
    ⟨.b, some (.when .gt), [⟨.address, "9"⟩]⟩,
    ⟨.b, some (.when .lt), [⟨.address, "0"⟩]⟩]

theorem branch_follows_comparison_overwritten :
    ∃ events m e, Trace overwritten .new events m ∧ m.pc = 3 ∧ m.readRegister 1 = .ok 60 ∧
      lastComparison? events = some e ∧ e.Compares 50 300 ∧
      m.next overwritten = .ok () { machine := m.advance } ∧
      ∃ t, m.advance.next overwritten = .ok () t ∧ t.machine.pc = 0 := by
  have hpassed : ∃ events m e, Trace overwritten .new events m ∧ m.pc = 3 ∧
      lastComparison? events = some e ∧ e.Compares 50 300 ∧ m.readRegister 1 = .ok 60 :=
    ⟨_, _, _, .cons rfl rfl (.cons rfl rfl (.cons rfl rfl (.nil _))), rfl, rfl,
      ⟨rfl, ⟨_, rfl, rfl, @Operand.Denotes.contents _ _ 1 50 rfl rfl rfl⟩, _, rfl,
        .literal rfl rfl⟩, rfl⟩
  obtain ⟨events, m, e, htrace, hpc, hlast, hcompares, hregister⟩ := hpassed
  have hgreater : overwritten.at? m.pc = some ⟨.b, some (.when .gt), [⟨.address, "9"⟩]⟩ := by
    rw [hpc]
    rfl
  have hless : overwritten.at? m.advance.pc = some ⟨.b, some (.when .lt), [⟨.address, "0"⟩]⟩ := by
    rw [Machine.advance, hpc]
    rfl
  have hpass : m.next overwritten = .ok () { machine := m.advance } := by
    refine (branch_follows_comparison htrace hgreater rfl rfl).2.1 ?_
    rintro ⟨e', a, b, hlast', hcompares', hholds⟩
    obtain rfl := Option.some.inj (hlast.symm.trans hlast')
    obtain ⟨rfl, rfl⟩ := hcompares.unique hcompares'
    exact absurd hholds (by decide)
  have htrace' := htrace.append (.cons hgreater hpass (.nil _))
  have hback := (branch_follows_comparison htrace' hless rfl rfl).1
    ⟨e, 50, 300, (lastComparison?_concat events _).trans hlast, hcompares, by decide⟩ 0
  exact ⟨events, m, e, htrace, hpc, hregister, hlast, hcompares, hpass,
    hback.2 ⟨_, rfl, .numeral rfl rfl⟩⟩

end ByteMachine
