import ByteMachine.Proofs.Origin

/-!
# Traces

A trace is a sequence of instructions that were executed with success, one
after the other. It does not ask whether the machine has halted: that is a
matter of runs. Traces can be joined and cut, and every property that one step
preserves holds all along them.
-/
namespace ByteMachine

/-- An executed instruction: the machine it found and what it made of it. -/
structure Event where
  before : Machine
  instruction : Instruction
  after : Transition
  deriving DecidableEq

/-- The values that the instructions put out, in their order. -/
def emissions (events : List Event) : List Nat := events.flatMap (·.after.emitted)

@[simp] theorem emissions_nil : emissions [] = [] := rfl

@[simp] theorem emissions_cons (e : Event) (events : List Event) :
    emissions (e :: events) = e.after.emitted ++ emissions events := rfl

@[simp] theorem emissions_append (first second : List Event) :
    emissions (first ++ second) = emissions first ++ emissions second := List.flatMap_append

/-- The program leads from a machine through the events to the last machine. -/
inductive Trace (program : Program) : Machine → List Event → Machine → Prop where
  | nil (m : Machine) : Trace program m [] m
  | cons {m last : Machine} {i : Instruction} {t : Transition} {events : List Event}
      (found : program.at? m.pc = some i) (executed : m.next program = .ok () t)
      (rest : Trace program t.machine events last) :
      Trace program m (⟨m, i, t⟩ :: events) last

namespace Trace

variable {program : Program} {m last : Machine} {events : List Event}

theorem of_next {t : Transition} (h : m.next program = .ok () t)
    (rest : Trace program t.machine events last) :
    ∃ i, Trace program m (⟨m, i, t⟩ :: events) last := by
  obtain ⟨i, _, hi, _, _⟩ := Machine.next_eq_ok_iff.1 h
  exact ⟨i, .cons hi h rest⟩

theorem append {middle : Machine} {more : List Event} (h : Trace program m events middle)
    (h' : Trace program middle more last) : Trace program m (events ++ more) last := by
  induction h with
  | nil => exact h'
  | cons found executed _ ih => exact .cons found executed (ih h')

/-- A trace can be cut anywhere. -/
theorem of_append {first second : List Event} (h : Trace program m (first ++ second) last) :
    ∃ middle, Trace program m first middle ∧ Trace program middle second last := by
  induction first generalizing m with
  | nil => exact ⟨m, .nil m, h⟩
  | cons e first ih =>
    cases h with
    | cons found executed rest =>
      obtain ⟨middle, hfirst, hsecond⟩ := ih rest
      exact ⟨middle, .cons found executed hfirst, hsecond⟩

/-- The last event of a trace is a step from where the others lead. -/
theorem of_concat {first : List Event} {e : Event} (h : Trace program m (first ++ [e]) last) :
    Trace program m first e.before ∧ program.at? e.before.pc = some e.instruction ∧
      e.before.next program = .ok () e.after ∧ e.after.machine = last := by
  obtain ⟨middle, hfirst, hend⟩ := h.of_append
  cases hend with
  | cons found executed rest =>
    cases rest
    exact ⟨hfirst, found, executed, rfl⟩

/-- What one step preserves holds before and after every event of a trace. -/
theorem invariant {P : Machine → Prop}
    (hstep : ∀ m t, P m → m.next program = .ok () t → P t.machine)
    (h : Trace program m events last) (hm : P m) :
    P last ∧ ∀ e ∈ events, P e.before ∧ P e.after.machine := by
  induction h with
  | nil => exact ⟨hm, by simp⟩
  | cons found executed rest ih =>
    have hnext := hstep _ _ hm executed
    obtain ⟨hlast, hevents⟩ := ih hnext
    refine ⟨hlast, ?_⟩
    intro e he
    rcases List.mem_cons.1 he with rfl | he
    · exact ⟨hm, hnext⟩
    · exact hevents e he

/-- What holds of a history and its machine, and is kept whenever another step is taken, holds when
a trace has been added to the history. -/
theorem history {P : List Event → Machine → Prop} {passed : List Event}
    (hstep : ∀ passed m i t, P passed m → program.at? m.pc = some i →
      m.next program = .ok () t → P (passed ++ [⟨m, i, t⟩]) t.machine)
    (h : Trace program m events last) (hpassed : P passed m) : P (passed ++ events) last := by
  induction h generalizing passed with
  | nil => simpa using hpassed
  | cons found executed _ ih => simpa using ih (hstep _ _ _ _ hpassed found executed)

/-- Every event of a trace is a step of the program. -/
theorem of_mem {e : Event} (h : Trace program m events last) (he : e ∈ events) :
    program.at? e.before.pc = some e.instruction ∧ e.before.next program = .ok () e.after := by
  induction h with
  | nil => simp at he
  | cons found executed _ ih =>
    rcases List.mem_cons.1 he with rfl | he
    · exact ⟨found, executed⟩
    · exact ih he

/-- The step counter counts the events. -/
theorem steps_eq (h : Trace program m events last) : last.steps = m.steps + events.length := by
  induction h with
  | nil => simp
  | cons _ executed _ ih =>
    rw [ih, Machine.steps_of_next executed, List.length_cons]
    omega

/-- A machine is halted as soon as one of the instructions halts it. -/
theorem halted_eq (h : Trace program m events last) :
    last.halted = (m.halted || events.any fun e => decide (e.instruction.opcode = .halt)) := by
  induction h with
  | nil => simp
  | cons found executed _ ih =>
    rw [ih, Machine.halted_of_next found executed, List.any_cons, Bool.or_assoc]

/-- Before each event fewer steps have been counted than at the end. -/
theorem steps_lt_of_mem {e : Event} (h : Trace program m events last) (he : e ∈ events) :
    e.before.steps < last.steps := by
  induction h with
  | nil => simp at he
  | cons found executed rest ih =>
    rcases List.mem_cons.1 he with rfl | he
    · rw [(Trace.cons found executed rest).steps_eq, List.length_cons]
      dsimp only
      omega
    · exact ih he

/-- A machine that is not halted at the end has executed nothing that halts it. -/
theorem opcode_ne_halt {e : Event} (h : Trace program m events last)
    (hlast : last.halted = false) (he : e ∈ events) : e.instruction.opcode ≠ .halt := by
  rw [h.halted_eq, Bool.or_eq_false_iff, List.any_eq_false] at hlast
  simpa using hlast.2 e he

/-- A machine that is not halted at the end was not halted on the way. -/
theorem running_of_mem {e : Event} (h : Trace program m events last)
    (hlast : last.halted = false) (he : e ∈ events) : e.before.halted = false := by
  induction h with
  | nil => simp at he
  | cons found executed rest ih =>
    rcases List.mem_cons.1 he with rfl | he
    · rw [(Trace.cons found executed rest).halted_eq, Bool.or_eq_false_iff] at hlast
      exact hlast.1
    · exact ih hlast he

end Trace

end ByteMachine
