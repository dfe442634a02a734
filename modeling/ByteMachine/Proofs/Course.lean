import ByteMachine.Proofs.Raising
import ByteMachine.Proofs.Trace
import ByteMachine.Run

/-!
# The course of a run

A run takes instructions as long as the machine is awake: not halted, and below
the step limit. Its course is the trace of the instructions it takes, together
with the reason why it takes no more. The run ends with this reason, unless it
has to tell a number of instructions that cannot be written. `Run.loop_course`
finds the course of a loop, and `Course.loop_eq` says that a loop with enough
turns follows the course there is, whatever it has put out and logged before.
-/
namespace ByteMachine

/-- A machine that holds a line that cannot be written has held it from the start. -/
theorem Trace.holdsUnwritable {program : Program} {m last : Machine} {events : List Event}
    (h : Trace program m events last) (hlast : last.HoldsUnwritable program) :
    m.HoldsUnwritable program := by
  induction h with
  | nil => exact hlast
  | cons _ executed _ ih => exact Machine.holdsUnwritable_of_next executed (ih hlast)

/-- No run from a new machine comes to a line that cannot be written. -/
theorem Trace.not_holdsUnwritable {program : Program} {m : Machine} {events : List Event}
    (h : Trace program .new events m) : ¬ m.HoldsUnwritable program :=
  fun hm => Machine.not_holdsUnwritable_new program (h.holdsUnwritable hm)

/-- A run under the limit would execute another instruction. -/
def Awake (limit : Option Int) (m : Machine) : Prop :=
  m.halted = false ∧ Bounds.reached { limit } m.steps = false

/-- Why a run under the limit does not go on. -/
inductive Stops (program : Program) (limit : Option Int) (m : Machine) : Ending → Prop where
  | halted (h : m.halted = true) : Stops program limit m .halted
  | limited (awake : m.halted = false) (h : Bounds.reached { limit } m.steps = true) :
      Stops program limit m (.failed (.stepLimit m.steps))
  | fault {fault : Fault} {left : Transition} (awake : Awake limit m)
      (h : m.next program = .error fault left) : Stops program limit m (.failed fault)

namespace Ending

/-- Whether the number of executed instructions is told with the ending. -/
def tellsSteps : Ending → Bool
  | .halted | .failed (.stepLimit _) => true
  | _ => false

/-- How a run ends that has a reason to stop after so many instructions. If it has to tell the
number and cannot write it, it fails. -/
def told (steps : Int) (reason : Ending) : Ending :=
  if reason.tellsSteps && !Numeral.writable steps then .failed .unwritable else reason

variable {reason : Ending} {steps : Int}

theorem told_of_writable (h : Numeral.writable steps = true) : reason.told steps = reason := by
  simp [told, h]

theorem told_of_tellsSteps_eq_false (h : reason.tellsSteps = false) :
    reason.told steps = reason := by
  simp [told, h]

/-- What is told is the reason, or that the number cannot be written. -/
theorem told_eq_iff {ending : Ending} :
    reason.told steps = ending ↔
      (reason = ending ∧ (reason.tellsSteps = true → Numeral.writable steps = true)) ∨
        (ending = .failed .unwritable ∧ reason.tellsSteps = true ∧
          Numeral.writable steps = false) := by
  unfold told
  cases reason.tellsSteps <;> cases Numeral.writable steps <;> simp [eq_comm]

/-- A run that returns has told the number of instructions. -/
theorem of_told_eq_halted (h : reason.told steps = .halted) :
    reason = .halted ∧ Numeral.writable steps = true := by
  rcases told_eq_iff.1 h with ⟨rfl, hwritable⟩ | ⟨hfailed, _⟩
  · exact ⟨rfl, hwritable rfl⟩
  · simp at hfailed

theorem told_stepLimit :
    (Ending.failed (.stepLimit steps)).told steps = .failed (Fault.stepLimit steps).told := by
  rw [told, Fault.told, Fault.isWritable]
  cases Numeral.writable steps <;> rfl

theorem told_ne_endless (h : reason ≠ .endless) : reason.told steps ≠ .endless := by
  rw [told]
  split_ifs
  · simp
  · exact h

end Ending

/-- A run under the limit executes the events and then stops. -/
structure Course (program : Program) (limit : Option Int) (m : Machine) (events : List Event)
    (last : Machine) (reason : Ending) : Prop where
  trace : Trace program m events last
  awake : ∀ e ∈ events, Awake limit e.before
  stops : Stops program limit last reason

theorem Stops.unique {program : Program} {limit : Option Int} {m : Machine}
    {ending ending' : Ending} (h : Stops program limit m ending)
    (h' : Stops program limit m ending') : ending = ending' := by
  cases h <;> cases h' <;> simp_all [Awake]

theorem Stops.ne_endless {program : Program} {limit : Option Int} {m : Machine} {ending : Ending}
    (h : Stops program limit m ending) : ending ≠ .endless := by
  cases h <;> simp

theorem Stops.not_awake {program : Program} {limit : Option Int} {m : Machine} {ending : Ending}
    {t : Transition} (h : Stops program limit m ending) (hawake : Awake limit m) :
    m.next program ≠ .ok () t := by
  cases h <;> simp_all [Awake]

/-- A run that fails comes to a machine where the limit is reached, or the next instruction
fails. -/
theorem Stops.failed_iff {program : Program} {limit : Option Int} {m : Machine} {fault : Fault} :
    Stops program limit m (.failed fault) ↔
      m.halted = false ∧
        ((Bounds.reached { limit } m.steps = true ∧ fault = .stepLimit m.steps) ∨
          (Bounds.reached { limit } m.steps = false ∧
            m.next program = .error fault { machine := m })) := by
  constructor
  · intro h
    cases h with
    | limited awake hlimit => exact ⟨awake, .inl ⟨hlimit, rfl⟩⟩
    | fault awake hnext =>
      obtain ⟨rfl, _⟩ := Machine.next_eq_error_iff.1 hnext
      exact ⟨awake.1, .inr ⟨awake.2, hnext⟩⟩
  · rintro ⟨hhalted, ⟨hlimit, rfl⟩ | ⟨hlimit, hnext⟩⟩
    · exact .limited hhalted hlimit
    · exact .fault ⟨hhalted, hlimit⟩ hnext

namespace Machine

/-- The fault of an instruction does not tell how many there were. -/
theorem tellsSteps_of_next {m : Machine} {program : Program} {fault : Fault} {left : Transition}
    (h : m.next program = .error fault left) : (Ending.failed fault).tellsSteps = false := by
  cases fault with
  | stepLimit steps => exact absurd h next_ne_stepLimit
  | _ => rfl

/-- After a step the state of the machine can be logged. -/
theorem dump_of_next {m : Machine} {program : Program} {t : Transition}
    (h : m.next program = .ok () t) :
    Action.dump program t = .ok () { t with log := t.log ++ [.ofMachine t.machine] } := by
  have hwritable : (Record.ofMachine t.machine).isWritable program.size = true :=
    writableLine_of_next h
  rw [Action.dump, Action.machine_bind, Action.log, if_pos hwritable]

/-- The turns of a run that goes on. -/
theorem turn_of_awake {m : Machine} {program : Program} {limit : Option Int} {t : Transition}
    (hawake : Awake limit m) (h : m.next program = .ok () t) :
    m.turn program { limit } = .on { t with log := t.log ++ [.ofMachine t.machine] } := by
  simp [turn, hawake.1, hawake.2, h, Bounds.impatient, Turn.ofAttempt, dump_of_next h]

/-- The turn in which a halted machine is found. -/
theorem turn_of_halted {m : Machine} (h : m.halted = true) (program : Program) (bounds : Bounds) :
    m.turn program bounds =
      if Numeral.writable m.steps then
        .over .halted { machine := m, log := [.haltedAfter m.steps] }
      else .over (.failed .unwritable) { machine := m } := by
  rw [turn, if_pos h, Action.log, Record.isWritable]
  split_ifs <;> rfl

/-- The turn in which a run stops. The machine is left as it was. -/
theorem turn_of_stops {m : Machine} {program : Program} {limit : Option Int} {reason : Ending}
    (h : Stops program limit m reason) :
    ∃ left : Transition, m.turn program { limit } = .over (reason.told m.steps) left ∧
      left.machine = m ∧ left.emitted = [] := by
  cases h with
  | halted h =>
    rw [turn_of_halted h, Ending.told]
    cases Numeral.writable m.steps with
    | true => exact ⟨_, rfl, rfl, rfl⟩
    | false => exact ⟨_, rfl, rfl, rfl⟩
  | limited awake h =>
    rw [Ending.told_stepLimit, turn, if_neg (by simp [awake]), if_pos h]
    exact ⟨_, rfl, rfl, rfl⟩
  | fault awake h =>
    obtain ⟨rfl, _⟩ := next_eq_error_iff.1 h
    rw [Ending.told_of_tellsSteps_eq_false (tellsSteps_of_next h)]
    exact ⟨{ machine := m }, by simp [turn, awake.1, awake.2, h, Turn.ofAttempt], rfl, rfl⟩

/-- A run goes on or stops. -/
theorem awake_or_stops (m : Machine) (program : Program) (limit : Option Int) :
    (Awake limit m ∧ ∃ t, m.next program = .ok () t) ∨ ∃ ending, Stops program limit m ending := by
  cases hhalted : m.halted with
  | true => exact .inr ⟨_, .halted hhalted⟩
  | false =>
    cases hlimit : Bounds.reached { limit } m.steps with
    | true => exact .inr ⟨_, .limited hhalted hlimit⟩
    | false =>
      cases hnext : m.next program with
      | ok u t => exact .inl ⟨⟨hhalted, hlimit⟩, t, rfl⟩
      | error fault left => exact .inr ⟨_, .fault ⟨hhalted, hlimit⟩ hnext⟩

end Machine

/-- A run that fails has halted and cannot tell after how many instructions, has come to its limit,
or has met an instruction that fails. -/
theorem Stops.fault_of_told {program : Program} {limit : Option Int} {m : Machine} {reason : Ending}
    {fault : Fault} (h : Stops program limit m reason)
    (htold : reason.told m.steps = .failed fault) :
    (m.halted = true ∧ fault = .unwritable ∧ Numeral.writable m.steps = false) ∨
      (m.halted = false ∧ Bounds.reached { limit } m.steps = true ∧
        fault = (Fault.stepLimit m.steps).told) ∨
      (Awake limit m ∧ m.next program = .error fault { machine := m }) := by
  cases h with
  | halted hm =>
    rcases Ending.told_eq_iff.1 htold with ⟨hhalted, _⟩ | ⟨hfault, _, hsteps⟩
    · simp at hhalted
    · exact .inl ⟨hm, Ending.failed.inj hfault, hsteps⟩
  | limited hm hlimit =>
    rw [Ending.told_stepLimit] at htold
    exact .inr (.inl ⟨hm, hlimit, (Ending.failed.inj htold).symm⟩)
  | fault hawake hnext =>
    rw [Ending.told_of_tellsSteps_eq_false (Machine.tellsSteps_of_next hnext)] at htold
    obtain rfl := Ending.failed.inj htold
    obtain ⟨rfl, _⟩ := Machine.next_eq_error_iff.1 hnext
    exact .inr (.inr ⟨hawake, hnext⟩)

theorem Bounds.after_of_patient (limit : Option Int) (emitted : List Nat) :
    Bounds.after { limit } emitted = { limit } := rfl

namespace Run

variable {program : Program} {limit : Option Int}

/-- What a loop does: it follows a course to its end, or its turns are used up on the way. -/
theorem loop_course {turns : Nat} {m : Machine} {output : Array Nat} {log : Array Record}
    {run : Run} (h : loop program turns { limit } m output log = run) :
    ∃ events, run.output.toList = output.toList ++ emissions events ∧
      Trace program m events run.machine ∧ (∀ e ∈ events, Awake limit e.before) ∧
      ((events.length < turns ∧ ∃ reason, Stops program limit run.machine reason ∧
          run.ending = reason.told run.machine.steps) ∨
        (events.length = turns ∧ run.ending = .endless)) := by
  induction turns generalizing m output log with
  | zero =>
    subst h
    exact ⟨[], by simp [loop], .nil m, by simp, .inr ⟨rfl, rfl⟩⟩
  | succ turns ih =>
    rcases m.awake_or_stops program limit with ⟨hawake, t, hnext⟩ | ⟨ending, hstops⟩
    · simp only [loop, Machine.turn_of_awake hawake hnext, Bounds.after_of_patient] at h
      obtain ⟨events, houtput, htrace, hevents, hend⟩ := ih h
      obtain ⟨i, hcons⟩ := Trace.of_next hnext htrace
      refine ⟨⟨m, i, t⟩ :: events, ?_, hcons, ?_, by simpa using hend⟩
      · simpa using houtput
      · intro e he
        rcases List.mem_cons.1 he with rfl | he
        · exact hawake
        · exact hevents e he
    · obtain ⟨left, hturn, hleft, hemitted⟩ := Machine.turn_of_stops hstops
      simp only [loop, hturn, hleft, hemitted] at h
      subst h
      exact ⟨[], by simp, .nil m, by simp, .inl ⟨by simp, _, hstops, rfl⟩⟩

end Run

namespace Course

variable {program : Program} {limit : Option Int} {m last : Machine} {events : List Event}
  {reason : Ending}

/-- Whatever a run executes on the way is the start of its course. -/
theorem of_passage {passed : List Event} {middle : Machine}
    (h : Course program limit m events last reason) (hpassed : Trace program m passed middle)
    (hawake : ∀ e ∈ passed, Awake limit e.before) :
    ∃ more, events = passed ++ more ∧ Course program limit middle more last reason := by
  induction hpassed generalizing events with
  | nil m => exact ⟨events, rfl, h⟩
  | cons found executed _ ih =>
    obtain ⟨htrace, hcourse, hstops⟩ := h
    cases htrace with
    | nil => exact absurd executed (hstops.not_awake (hawake _ List.mem_cons_self))
    | cons found' executed' rest' =>
      obtain rfl := Option.some.inj (found.symm.trans found')
      have hnext := executed.symm.trans executed'
      simp only [EStateM.Result.ok.injEq, true_and] at hnext
      subst hnext
      have hrest := Course.mk rest' (fun e he => hcourse e (List.mem_cons_of_mem _ he)) hstops
      obtain ⟨more, rfl, hmore⟩ := ih hrest (fun e he => hawake e (List.mem_cons_of_mem _ he))
      exact ⟨more, rfl, hmore⟩

/-- There is one course from a machine. -/
theorem unique {events' : List Event} {last' : Machine} {reason' : Ending}
    (h : Course program limit m events last reason)
    (h' : Course program limit m events' last' reason') :
    events = events' ∧ last = last' ∧ reason = reason' := by
  obtain ⟨more, rfl, hmore⟩ := h.of_passage h'.trace h'.awake
  obtain ⟨htrace, hawake, hstops⟩ := hmore
  cases htrace with
  | nil => exact ⟨by simp, rfl, hstops.unique h'.stops⟩
  | cons _ executed _ => exact absurd executed (h'.stops.not_awake (hawake _ List.mem_cons_self))

/-- A loop with enough turns follows the course. -/
theorem loop_eq {turns : Nat} {output : Array Nat} {log : Array Record} {run : Run}
    (h : Course program limit m events last reason) (hturns : events.length < turns)
    (hloop : Run.loop program turns { limit } m output log = run) :
    run.machine = last ∧ run.ending = reason.told last.steps ∧
      run.output.toList = output.toList ++ emissions events := by
  obtain ⟨passed, houtput, htrace, hawake, ⟨_, _, hstops, htold⟩ | ⟨hlen, _⟩⟩ :=
    Run.loop_course hloop
  · obtain ⟨rfl, rfl, rfl⟩ := h.unique ⟨htrace, hawake, hstops⟩
    exact ⟨rfl, htold, houtput⟩
  · obtain ⟨more, rfl, _⟩ := h.of_passage htrace hawake
    rw [List.length_append] at hturns
    omega

/-- An instruction is executed below the limit, and each counts for one. -/
theorem length_le_limit {n : Int} (h : Trace program m events last)
    (hawake : ∀ e ∈ events, Awake (some n) e.before) : events.length ≤ (n - m.steps).toNat := by
  induction h with
  | nil => simp
  | cons _ executed _ ih =>
    have hsteps := Machine.steps_of_next executed
    have hlimit := (hawake _ List.mem_cons_self).2
    have hrest := ih fun e he => hawake e (List.mem_cons_of_mem _ he)
    simp only [Bounds.reached, decide_eq_false_iff_not] at hlimit
    rw [hsteps] at hrest
    rw [List.length_cons]
    omega

end Course

end ByteMachine
