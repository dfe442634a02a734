import ByteMachine.Proofs.Configuration
import ByteMachine.Proofs.Reachable

/-!
# Runs that come to a halt

Of all instructions only one halts a machine, and a run looks for a halt before
it looks at anything else. So a run that starts awake and returns has executed
that instruction last, and only then; the machine stands on the line after it.
Whoever runs a halted machine gets it back as it is.
-/
namespace ByteMachine

namespace Machine

variable {m : Machine} {program : Program}

/-- The line after a halt is the next one. -/
theorem pc_of_halt {i : Instruction} {t : Transition} (hi : program.at? m.pc = some i)
    (hnext : m.next program = .ok () t) (hhalt : i.opcode = .halt) : t.machine.pc = m.pc + 1 := by
  obtain ⟨j, c, hj, hc, rfl⟩ := next_eq_ok_iff.1 hnext
  obtain rfl := Option.some.inj (hi.symm.trans hj)
  obtain rfl := (Instruction.eq_halt_iff hc).2 hhalt
  exact Change.pc_carryOut m .halt

/-- A halted machine is given back at once, whatever the program and the bounds are, if it can
tell after how many instructions it has halted. -/
theorem run_of_halted (h : m.halted = true) (hsteps : Numeral.writable m.steps = true)
    (program : Program) (bounds : Bounds) :
    m.run program bounds = ⟨m, #[], #[.haltedAfter m.steps], .halted⟩ := by
  have hturn := turn_of_halted h program bounds
  rw [if_pos hsteps] at hturn
  have hturns : ∃ turns, Run.turns program bounds m.steps = turns + 1 := by
    unfold Run.turns
    split
    · exact ⟨_, rfl⟩
    · exact ⟨_, rfl⟩
  obtain ⟨turns, hturns⟩ := hturns
  rw [run, hturns, Run.loop, hturn]
  rfl

end Machine

theorem Stops.machine_halted {program : Program} {limit : Option Int} {m : Machine}
    (h : Stops program limit m .halted) : m.halted = true := by
  cases h with
  | halted hm => exact hm

/-- A course comes to a halt by the instruction that it executes last. -/
theorem Course.ends_in_halt {program : Program} {limit : Option Int} {m last : Machine}
    {events : List Event} (h : Course program limit m events last .halted)
    (hm : m.halted = false) :
    ∃ first e, events = first ++ [e] ∧ (∀ f ∈ first, f.instruction.opcode ≠ .halt) ∧
      e.instruction.opcode = .halt ∧ last.pc = e.before.pc + 1 := by
  obtain ⟨htrace, hawake, hstops⟩ := h
  have hlast := hstops.machine_halted
  rcases List.eq_nil_or_concat' events with rfl | ⟨first, e, rfl⟩
  · -- Without an instruction the machine would have been halted from the start.
    cases htrace
    simp [hm] at hlast
  · obtain ⟨hfirst, hi, hnext, rfl⟩ := htrace.of_concat
    have hawakened : e.before.halted = false := (hawake e (by simp)).1
    have hhalt : e.instruction.opcode = .halt := by
      rw [Machine.halted_of_next hi hnext, hawakened] at hlast
      simpa using hlast
    exact ⟨first, e, rfl, fun f => hfirst.opcode_ne_halt hawakened, hhalt,
      Machine.pc_of_halt hi hnext hhalt⟩

/-- A run that starts on a machine that is not halted and returns has executed at least one
instruction. The last one is the halt that stands on the line before the one where the machine is
then, none before it was a halt, and each has been counted. To run the machine again, with any
program and under any limit, gives it back as it is and puts out nothing. -/
theorem returned_run_ends_in_halt {program : Program} {m : Machine} {limit : Option Int}
    {run : Run} (hm : m.halted = false) (hrun : m.run program { limit } = run)
    (h : run.ending = .halted) :
    (∃ first e, Course program limit m (first ++ [e]) run.machine .halted ∧
        run.output.toList = emissions (first ++ [e]) ∧
        (∀ f ∈ first, f.instruction.opcode ≠ .halt) ∧ e.instruction.opcode = .halt ∧
        0 ≤ run.machine.pc - 1 ∧ run.machine.pc - 1 < program.size ∧
        program.at? (run.machine.pc - 1) = some e.instruction ∧
        run.machine.steps - m.steps = (first ++ [e]).length) ∧
      ∀ (program' : Program) (limit' : Option Int),
        run.machine.run program' { limit := limit' } =
          ⟨run.machine, #[], #[.haltedAfter run.machine.steps], .halted⟩ := by
  have hends : (m.run program { limit }).ending ≠ .endless := by simp [hrun, h]
  obtain ⟨events, reason, hcourse, hending, houtput⟩ := Run.course_of_run hends
  rw [hrun] at hcourse hending houtput
  rw [h] at hending
  obtain ⟨rfl, hwritable⟩ := Ending.of_told_eq_halted hending.symm
  obtain ⟨first, e, rfl, hfirst, hhalt, hpc⟩ := hcourse.ends_in_halt hm
  have hi := (hcourse.trace.of_mem (List.mem_append_right first List.mem_cons_self)).1
  have hline : run.machine.pc - 1 = e.before.pc := by omega
  rw [← hline] at hi
  obtain ⟨hlow, hhigh⟩ := Program.exists_at?_iff.1 ⟨_, hi⟩
  have hsteps := hcourse.trace.steps_eq
  refine ⟨⟨first, e, hcourse, houtput, hfirst, hhalt, hlow, hhigh, hi, by omega⟩, ?_⟩
  intro program' limit'
  exact Machine.run_of_halted hcourse.stops.machine_halted hwritable program' { limit := limit' }

/-- A halt among the other instructions, which is reached from behind. -/
def roundabout : Program :=
  #[⟨.b, some .always, [⟨.address, "2"⟩]⟩, ⟨.halt, none, []⟩, ⟨.out, none, [⟨.immediate, "5"⟩]⟩,
    ⟨.b, some .always, [⟨.immediate, "1"⟩]⟩]

theorem returned_run_ends_in_halt_roundabout :
    (Machine.new.run roundabout {}).ending = .halted ∧
      (∃ first e, Trace roundabout .new (first ++ [e]) (Machine.new.run roundabout {}).machine ∧
        first.length = 3 ∧ emissions (first ++ [e]) = [5] ∧
        (∀ f ∈ first, f.instruction.opcode ≠ .halt) ∧ roundabout.at? 1 = some e.instruction ∧
        e.instruction.opcode = .halt) ∧
      ((Machine.new.run roundabout {}).machine.run #[] { limit := some 0 }).machine =
        (Machine.new.run roundabout {}).machine := by
  have hhalted : (Machine.new.run roundabout {}).ending = .halted := rfl
  have hpc : (Machine.new.run roundabout {}).machine.pc = 2 := rfl
  have hsteps : (Machine.new.run roundabout {}).machine.steps = 4 := rfl
  have houtput : (Machine.new.run roundabout {}).output.toList = [5] := rfl
  have hnew : Machine.new.steps = 0 := rfl
  obtain ⟨⟨first, e, hcourse, hemitted, hfirst, hhalt, _, _, hat, hcount⟩, hagain⟩ :=
    returned_run_ends_in_halt rfl rfl hhalted
  rw [hpc] at hat
  rw [List.length_append, List.length_singleton] at hcount
  refine ⟨hhalted, ⟨first, e, hcourse.trace, by omega, hemitted.symm.trans houtput, hfirst, hat,
    hhalt⟩, ?_⟩
  rw [hagain #[] (some 0)]

end ByteMachine
