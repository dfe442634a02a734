import ByteMachine.Proofs.Configuration

/-!
# Faults leave nothing behind

An instruction that fails has changed nothing, put out nothing and logged
nothing, although its parts are executed one after the other and any of them may
change the machine. A run that fails is therefore the run of the instructions
before the failure and no more.
-/
namespace ByteMachine

/-- The machine after the last of the events. -/
theorem Trace.last_eq {program : Program} {m last : Machine} {events : List Event}
    (h : Trace program m events last) :
    last = (events.getLast?.map fun e => e.after.machine).getD m := by
  induction h with
  | nil => rfl
  | cons _ _ _ ih =>
    rw [ih, List.getLast?_cons]
    cases List.getLast? _ <;> rfl

/-- Whatever an instruction fails at, it leaves the machine as it was, with no value and no
record. A failed run leaves the machine and the values of some number of executed instructions:
the line is the one where the failing instruction stands, or the one that was not executed for
the limit or after a halt, in which case the number of instructions is told if it can be. -/
theorem failure_keeps_executed (program : Program) (m : Machine) :
    (∀ fault left, m.next program = .error fault left → left = { machine := m }) ∧
      ∀ limit fault, (m.run program { limit }).ending = .failed fault →
        ∃ events : List Event, Trace program m events (m.run program { limit }).machine ∧
          (m.run program { limit }).output.toList = emissions events ∧
          (m.run program { limit }).machine.steps = m.steps + events.length ∧
          (m.run program { limit }).machine =
            (events.getLast?.map fun e => e.after.machine).getD m ∧
          ((Bounds.reached { limit } (m.run program { limit }).machine.steps = true ∧
              fault = (Fault.stepLimit (m.run program { limit }).machine.steps).told) ∨
            ((m.run program { limit }).machine.halted = true ∧ fault = .unwritable ∧
              Numeral.writable (m.run program { limit }).machine.steps = false) ∨
            (m.run program { limit }).machine.next program =
              .error fault { machine := (m.run program { limit }).machine }) := by
  constructor
  · intro fault left hnext
    exact (Machine.next_eq_error_iff.1 hnext).1
  · intro limit fault hfailed
    obtain ⟨events, reason, hcourse, hending, houtput⟩ :=
      Run.course_of_run (show (m.run program { limit }).ending ≠ .endless by simp [hfailed])
    have htrace := hcourse.trace
    rw [hfailed] at hending
    refine ⟨events, htrace, houtput, htrace.steps_eq, htrace.last_eq, ?_⟩
    rcases hcourse.stops.fault_of_told hending.symm with hhalted | ⟨_, hlimit⟩ | ⟨_, hnext⟩
    · exact .inr (.inl hhalted)
    · exact .inl hlimit
    · exact .inr (.inr hnext)

/-- A value, and then a sum without operands. -/
def lameSum : Program := #[⟨.out, none, [⟨.immediate, "7"⟩]⟩, ⟨.arith .add, none, []⟩]

theorem failure_keeps_executed_lameSum :
    (Machine.new.jump 1).next lameSum =
        .error (.missingOperand "ADD" 0 0) { machine := Machine.new.jump 1 } ∧
      (Machine.new.run lameSum {}).ending = .failed (.missingOperand "ADD" 0 0) ∧
      ∃ events : List Event, Trace lameSum .new events (Machine.new.run lameSum {}).machine ∧
        emissions events = [7] ∧ events.length = 1 := by
  have hnext : ∃ left, (Machine.new.jump 1).next lameSum =
      .error (.missingOperand "ADD" 0 0) left := ⟨_, rfl⟩
  have hfailed : (Machine.new.run lameSum {}).ending = .failed (.missingOperand "ADD" 0 0) := rfl
  have houtput : (Machine.new.run lameSum {}).output.toList = [7] := rfl
  have hsteps : (Machine.new.run lameSum {}).machine.steps = 1 := rfl
  have hnew : Machine.new.steps = 0 := rfl
  obtain ⟨left, hleft⟩ := hnext
  obtain rfl := (failure_keeps_executed lameSum (Machine.new.jump 1)).1 _ _ hleft
  obtain ⟨events, htrace, hemissions, hcount, _⟩ :=
    (failure_keeps_executed lameSum .new).2 none _ hfailed
  refine ⟨hleft, hfailed, events, htrace, hemissions.symm.trans houtput, ?_⟩
  omega

end ByteMachine
