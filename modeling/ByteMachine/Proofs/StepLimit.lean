import ByteMachine.Proofs.Configuration
import ByteMachine.Proofs.Raising

/-!
# The step limit

A limit cuts a run and does not change it. What a run does under one limit is
the start of what it does under a higher one, or without any; where it was cut,
it can be resumed. A run that is cut says so if it can: the number of executed
instructions is part of the text, and above `10 ^ Numeral.digitLimit` it cannot
be written.
-/
namespace ByteMachine

namespace Run

/-- The run says that the limit is reached. -/
def hitsLimit (run : Run) : Bool :=
  match run.ending with
  | .failed (.stepLimit _) => true
  | _ => false

/-- The run has come to the limit without a halt. -/
def CutAt (run : Run) (limit : Int) : Prop :=
  run.machine.halted = false ∧ limit ≤ run.machine.steps

/-- The runs end in the same way, with the same machine and the same values. -/
def Agrees (run run' : Run) : Prop :=
  run.ending = run'.ending ∧ run.machine = run'.machine ∧ run.output = run'.output

theorem hitsLimit_eq_true_iff {run : Run} :
    run.hitsLimit = true ↔ ∃ steps, run.ending = .failed (.stepLimit steps) := by
  unfold hitsLimit
  split <;> simp_all

end Run

section

variable {program : Program} {m last : Machine} {events : List Event} {ending : Ending} {n : Int}
  {limit : Option Int}

theorem awake_some_iff : Awake (some n) m ↔ m.halted = false ∧ m.steps < n := by
  simp [Awake, Bounds.reached]

/-- Below a limit is below every higher one. -/
theorem Awake.mono (hlimit : ∀ k, limit = some k → n ≤ k) (h : Awake (some n) m) :
    Awake limit m := by
  cases limit with
  | none => exact ⟨h.1, rfl⟩
  | some k =>
    rw [awake_some_iff] at h ⊢
    have hnk := hlimit k rfl
    exact ⟨h.1, by omega⟩

/-- Only the limit itself says that it is reached. -/
theorem Stops.stepLimit_iff (h : Stops program (some n) m ending) :
    (∃ steps, ending = .failed (.stepLimit steps)) ↔ m.halted = false ∧ n ≤ m.steps := by
  cases h with
  | halted hm => simp [hm]
  | limited awake hlimit =>
    simp only [Bounds.reached, decide_eq_true_eq] at hlimit
    simp [awake, hlimit]
  | fault awake hnext =>
    have hbelow := (awake_some_iff.1 awake).2
    constructor
    · rintro ⟨steps, hsteps⟩
      obtain rfl := Ending.failed.inj hsteps
      exact absurd hnext Machine.next_ne_stepLimit
    · rintro ⟨_, hreached⟩
      omega

/-- A run that has stopped for another reason than the limit stops for it under any other. -/
theorem Stops.mono (hlimit : ∀ k, limit = some k → n ≤ k) (h : Stops program (some n) m ending)
    (hother : ∀ steps, ending ≠ .failed (.stepLimit steps)) : Stops program limit m ending := by
  cases h with
  | halted hm => exact .halted hm
  | limited awake _ => exact absurd rfl (hother m.steps)
  | fault awake hnext => exact .fault (awake.mono hlimit) hnext

theorem Course.mono (hlimit : ∀ k, limit = some k → n ≤ k)
    (h : Course program (some n) m events last ending)
    (hother : ∀ steps, ending ≠ .failed (.stepLimit steps)) :
    Course program limit m events last ending :=
  ⟨h.trace, fun e he => (h.awake e he).mono hlimit, h.stops.mono hlimit hother⟩

/-- A course can be continued by another one. -/
theorem Course.append {passed : List Event} {middle : Machine}
    (hpassed : Trace program m passed middle) (hawake : ∀ e ∈ passed, Awake limit e.before)
    (h : Course program limit middle events last ending) :
    Course program limit m (passed ++ events) last ending := by
  refine ⟨hpassed.append h.trace, fun e he => ?_, h.stops⟩
  rcases List.mem_append.1 he with he | he
  · exact hawake e he
  · exact h.awake e he

/-- No instruction is executed at the limit or above it. -/
theorem Course.steps_le (h : Course program (some n) m events last ending) :
    last.steps ≤ max m.steps n := by
  have hlength := Course.length_le_limit h.trace h.awake
  have hsteps := h.trace.steps_eq
  omega

/-- Machines that are executed on without a halt are awake below the limit that counts them. -/
theorem Trace.awake_of_new {e : Event} (h : Trace program .new (events ++ [e]) last)
    (hrunning : ∀ f ∈ events, f.instruction.opcode ≠ .halt) :
    ∀ f ∈ events ++ [e], Awake (some (events.length + 1 : Nat)) f.before := by
  intro f hf
  obtain ⟨earlier, later, hsplit⟩ := List.append_of_mem hf
  rw [hsplit] at h
  obtain ⟨middle, hearlier, hlater⟩ := h.of_append
  have hlength : events.length + 1 = earlier.length + (later.length + 1) := by
    simpa using congrArg List.length hsplit
  have hinit : ∀ g ∈ earlier, g ∈ events := by
    intro g hg
    rcases List.eq_nil_or_concat later with rfl | ⟨rest, last, rfl⟩
    · obtain ⟨rfl, _⟩ := List.append_inj' hsplit rfl
      exact hg
    · have hconcat : events ++ [e] = (earlier ++ f :: rest) ++ [last] := by simpa using hsplit
      obtain ⟨rfl, _⟩ := List.append_inj' hconcat rfl
      exact List.mem_append_left _ hg
  have hbefore : f.before = middle := by
    cases hlater
    rfl
  rw [awake_some_iff, hbefore, hearlier.halted_eq, hearlier.steps_eq]
  constructor
  · rw [Bool.or_eq_false_iff, List.any_eq_false]
    exact ⟨rfl, fun g hg => by simpa using hrunning g (hinit g hg)⟩
  · have hnew : Machine.new.steps = 0 := rfl
    omega

end

namespace Run

variable {program : Program} {m : Machine} {n : Int} {limit : Option Int}

/-- A limited run has a course, and it is cut if this stops at the limit. -/
theorem limited_course (program : Program) (m : Machine) (n : Int) :
    ∃ events reason,
      Course program (some n) m events (m.run program { limit := some n }).machine reason ∧
      (m.run program { limit := some n }).ending =
        reason.told (m.run program { limit := some n }).machine.steps ∧
      (m.run program { limit := some n }).output.toList = emissions events ∧
      ((m.run program { limit := some n }).CutAt n ↔
        ∃ steps, reason = .failed (.stepLimit steps)) := by
  obtain ⟨events, reason, hcourse, hending, houtput⟩ := course_of_run (run_limited program n m)
  exact ⟨events, reason, hcourse, hending, houtput, hcourse.stops.stepLimit_iff.symm⟩

/-- A run that was not cut goes the same way under every higher limit. -/
theorem agrees_of_not_cutAt (hlimit : ∀ k, limit = some k → n ≤ k)
    (h : ¬ (m.run program { limit := some n }).CutAt n) :
    (m.run program { limit }).Agrees (m.run program { limit := some n }) := by
  obtain ⟨events, reason, hcourse, hending, houtput, hcut⟩ := limited_course program m n
  have hother (steps : Int) : reason ≠ .failed (.stepLimit steps) :=
    fun hsteps => h (hcut.2 ⟨steps, hsteps⟩)
  obtain ⟨hmachine, hending', houtput'⟩ := run_of_course (hcourse.mono hlimit hother)
  exact ⟨hending'.trans hending.symm, hmachine, Array.toList_inj.1 (houtput'.trans houtput.symm)⟩

/-- A run that was cut ends with the limit, or fails to tell it. -/
theorem ending_of_cutAt (h : (m.run program { limit := some n }).CutAt n) :
    (m.run program { limit := some n }).ending =
      .failed (Fault.stepLimit (m.run program { limit := some n }).machine.steps).told := by
  obtain ⟨events, reason, hcourse, hending, _, hcut⟩ := limited_course program m n
  obtain ⟨steps, rfl⟩ := hcut.1 h
  rcases (Stops.failed_iff.1 hcourse.stops).2 with ⟨_, hsteps⟩ | ⟨_, hnext⟩
  · rw [hending, hsteps, Ending.told_stepLimit]
  · exact absurd hnext Machine.next_ne_stepLimit

/-- The limit is told where the run was cut after a number of instructions that can be written. -/
theorem hitsLimit_iff :
    (m.run program { limit := some n }).hitsLimit = true ↔
      (m.run program { limit := some n }).CutAt n ∧
        Numeral.writable (m.run program { limit := some n }).machine.steps = true := by
  obtain ⟨events, reason, hcourse, hending, _, hcut⟩ := limited_course program m n
  rw [hitsLimit_eq_true_iff, hcut, hending]
  constructor
  · rintro ⟨steps, htold⟩
    rcases Ending.told_eq_iff.1 htold with ⟨rfl, hwritable⟩ | ⟨hother, _⟩
    · exact ⟨⟨steps, rfl⟩, hwritable rfl⟩
    · simp at hother
  · rintro ⟨⟨steps, rfl⟩, hwritable⟩
    exact ⟨steps, Ending.told_of_writable hwritable⟩

/-- A run that fails without being cut has come to an instruction that fails, or it has halted and
cannot tell after how many. -/
theorem fault_of_not_cutAt {fault : Fault} (h : ¬ (m.run program { limit := some n }).CutAt n)
    (hfailed : (m.run program { limit := some n }).ending = .failed fault) :
    (m.run program { limit := some n }).machine.next program =
        .error fault { machine := (m.run program { limit := some n }).machine } ∨
      ((m.run program { limit := some n }).machine.halted = true ∧ fault = .unwritable ∧
        Numeral.writable (m.run program { limit := some n }).machine.steps = false) := by
  obtain ⟨events, reason, hcourse, hending, _⟩ := limited_course program m n
  rcases hcourse.stops.fault_of_told (hending.symm.trans hfailed) with
    hhalted | ⟨hrunning, hlimit, _⟩ | ⟨_, hnext⟩
  · exact .inr hhalted
  · exact absurd ⟨hrunning, by simpa [Bounds.reached] using hlimit⟩ h
  · exact .inl hnext

/-- A run is resumed by running on from where it was cut. -/
theorem resume (hlimit : ∀ k, limit = some k → n ≤ k) :
    ((m.run program { limit := some n }).machine.run program { limit }).ending =
        (m.run program { limit }).ending ∧
      ((m.run program { limit }).ending ≠ .endless →
        ((m.run program { limit := some n }).machine.run program { limit }).machine =
            (m.run program { limit }).machine ∧
          (m.run program { limit }).output = (m.run program { limit := some n }).output ++
            ((m.run program { limit := some n }).machine.run program { limit }).output) := by
  obtain ⟨passed, _, hcut, _, houtput⟩ := course_of_run (run_limited program n m)
  have hawake : ∀ e ∈ passed, Awake limit e.before := fun e he => (hcut.awake e he).mono hlimit
  by_cases hends : ((m.run program { limit := some n }).machine.run program { limit }).ending =
      .endless
  · have hwhole : (m.run program { limit }).ending = .endless := by
      rw [run_endless_iff] at hends ⊢
      intro events last ending hcourse
      obtain ⟨more, _, hmore⟩ := hcourse.of_passage hcut.trace hawake
      exact hends _ _ _ hmore
    exact ⟨hends.trans hwhole.symm, fun h => absurd hwhole h⟩
  · obtain ⟨events, reason, hcourse, hending, houtput'⟩ := course_of_run hends
    obtain ⟨hmachine, hwhole_ending, hwhole⟩ :=
      run_of_course (Course.append hcut.trace hawake hcourse)
    refine ⟨hending.trans hwhole_ending.symm, fun _ => ⟨hmachine.symm, ?_⟩⟩
    apply Array.toList_inj.1
    rw [hwhole, emissions_append, Array.toList_append, houtput, houtput']

/-- A new machine that comes to its first halt when the limit is reached has halted. -/
theorem run_of_first_halt {first : List Event} {e : Event} {last : Machine}
    (htrace : Trace program .new (first ++ [e]) last)
    (hfirst : ∀ f ∈ first, f.instruction.opcode ≠ .halt) (he : e.instruction.opcode = .halt) :
    (Machine.new.run program { limit := some (first.length + 1 : Nat) }).machine = last ∧
      (Machine.new.run program { limit := some (first.length + 1 : Nat) }).ending =
        Ending.halted.told (first.length + 1 : Nat) ∧
      (Machine.new.run program { limit := some (first.length + 1 : Nat) }).output.toList =
        emissions (first ++ [e]) := by
  have hhalted : last.halted = true := by
    rw [htrace.halted_eq]
    simp [he]
  have hsteps : last.steps = (first.length + 1 : Nat) := by
    have hnew : Machine.new.steps = 0 := rfl
    rw [htrace.steps_eq, hnew, List.length_append, List.length_singleton]
    omega
  rw [← hsteps]
  exact run_of_course ⟨htrace, hsteps ▸ htrace.awake_of_new hfirst, .halted hhalted⟩

end Run

/-- The limit cuts a run and changes nothing else about it. A run that does not come to its limit
comes to the same end under a higher limit, or under none. A run that is cut can be resumed: the
two parts do together what the whole does at once. Every limited run ends, at the limit or below
it unless it starts above. A run that is cut says that the limit is reached if the number of
instructions can be written, and otherwise that it cannot; no other run says the limit is reached,
for an instruction that fails does so below the limit. -/
theorem limit_only_cuts (program : Program) (m : Machine) (n : Int) (cut : Run)
    (hcut : m.run program { limit := some n } = cut) :
    (∀ limit : Option Int, (∀ k, limit = some k → n ≤ k) →
        (¬ cut.CutAt n → (m.run program { limit }).Agrees cut) ∧
        (cut.CutAt n →
          (cut.machine.run program { limit }).ending = (m.run program { limit }).ending ∧
          ((m.run program { limit }).ending ≠ .endless →
            (cut.machine.run program { limit }).machine = (m.run program { limit }).machine ∧
            (m.run program { limit }).output =
              cut.output ++ (cut.machine.run program { limit }).output))) ∧
      cut.ending ≠ .endless ∧
      cut.machine.steps ≤ max m.steps n ∧
      (cut.hitsLimit = true ↔ cut.CutAt n ∧ Numeral.writable cut.machine.steps = true) ∧
      (cut.CutAt n → cut.ending = .failed (if Numeral.writable cut.machine.steps
        then .stepLimit cut.machine.steps else .unwritable)) ∧
      (∀ fault, cut.ending = .failed fault → ¬ cut.CutAt n →
        cut.machine.next program = .error fault { machine := cut.machine } ∨
          (cut.machine.halted = true ∧ fault = .unwritable ∧
            Numeral.writable cut.machine.steps = false)) ∧
      (∀ first e last, m = .new → n = (first ++ [e]).length →
        Trace program .new (first ++ [e]) last →
        (∀ f ∈ first, f.instruction.opcode ≠ .halt) → e.instruction.opcode = .halt →
        cut.ending = (if Numeral.writable n then .halted else .failed .unwritable) ∧
          cut.machine = last ∧ cut.output.toList = emissions (first ++ [e])) := by
  subst hcut
  obtain ⟨events, _, hcourse, _⟩ := Run.limited_course program m n
  refine ⟨fun limit hlimit => ⟨Run.agrees_of_not_cutAt hlimit, fun _ => Run.resume hlimit⟩,
    Run.run_limited program n m, hcourse.steps_le, Run.hitsLimit_iff, Run.ending_of_cutAt,
    fun fault hfailed hother => Run.fault_of_not_cutAt hother hfailed, ?_⟩
  rintro first e last rfl rfl htrace hfirst he
  rw [List.length_append, List.length_singleton]
  obtain ⟨hmachine, hending, houtput⟩ := Run.run_of_first_halt htrace hfirst he
  refine ⟨?_, hmachine, houtput⟩
  rw [hending, Ending.told]
  cases Numeral.writable (first.length + 1 : Nat) <;> rfl

/-- Two values and a halt. -/
def shortCount : Program :=
  #[⟨.out, none, [⟨.immediate, "1"⟩]⟩, ⟨.out, none, [⟨.immediate, "2"⟩]⟩, ⟨.halt, none, []⟩]

theorem limit_only_cuts_shortCount :
    (Machine.new.run shortCount { limit := some 1 }).CutAt 1 ∧
      (Machine.new.run shortCount { limit := some 1 }).ending = .failed (.stepLimit 1) ∧
      (Machine.new.run shortCount {}).output = #[1] ++
        ((Machine.new.run shortCount { limit := some 1 }).machine.run shortCount {}).output ∧
      (Machine.new.run shortCount { limit := some 3 }).ending = .halted ∧
      (Machine.new.run shortCount {}).Agrees (Machine.new.run shortCount { limit := some 3 }) := by
  have hends : (Machine.new.run shortCount {}).ending ≠ .endless := by
    have hhalted : (Machine.new.run shortCount {}).ending = .halted := rfl
    simp [hhalted]
  have hone : (Machine.new.run shortCount { limit := some 1 }).output = #[1] := rfl
  have hcut : (Machine.new.run shortCount { limit := some 1 }).CutAt 1 := ⟨rfl, by decide⟩
  have hthree : ¬ (Machine.new.run shortCount { limit := some 3 }).CutAt 3 := fun h => nomatch h.1
  obtain ⟨hresume, _, _, _, hending, _⟩ := limit_only_cuts shortCount .new 1 _ rfl
  obtain ⟨hwhole, _, _, _, _, _, hhalt⟩ := limit_only_cuts shortCount .new 3 _ rfl
  have htrace : ∃ first e last, (first ++ [e]).length = 3 ∧
      Trace shortCount .new (first ++ [e]) last ∧
      (∀ f ∈ first, f.instruction.opcode ≠ .halt) ∧ e.instruction.opcode = .halt :=
    ⟨[_, _], _, _, rfl, .cons rfl rfl (.cons rfl rfl (.cons rfl rfl (.nil _))), by
      simp only [List.forall_mem_cons]
      exact ⟨by decide, by decide, by simp⟩, rfl⟩
  obtain ⟨first, e, last, hlength, htrace, hfirst, he⟩ := htrace
  refine ⟨hcut, hending hcut, ?_, ?_, (hwhole none (by simp)).1 hthree⟩
  · rw [(((hresume none (by simp)).2 hcut).2 hends).2, hone]
  · exact (hhalt first e last rfl (by omega) htrace hfirst he).1

/-- A machine that has executed more instructions than can be told. -/
def Machine.tired : Machine := { Machine.new with steps := 10 ^ Numeral.digitLimit }

theorem Machine.writable_tired : Numeral.writable tired.steps = false := by
  have hsteps : tired.steps = (10 ^ Numeral.digitLimit : Nat) := (Int.natCast_pow 10 _).symm
  rw [hsteps, Numeral.writable_eq_false_iff, Int.natAbs_natCast]

/-- A tired machine that is cut at once fails to tell the limit. -/
theorem Run.run_tired (program : Program) :
    (Machine.tired.run program { limit := some 0 }).ending = .failed .unwritable ∧
      (Machine.tired.run program { limit := some 0 }).output.toList = [] := by
  have hpositive : (0 : Int) ≤ 10 ^ Numeral.digitLimit := Int.pow_nonneg (by decide)
  have hreached : Bounds.reached { limit := some 0 } Machine.tired.steps = true :=
    decide_eq_true hpositive
  have hcut : Course program (some 0) .tired [] .tired (.failed (.stepLimit _)) :=
    ⟨.nil _, by simp, .limited rfl hreached⟩
  obtain ⟨_, hending, houtput⟩ := run_of_course hcut
  rw [Ending.told, Machine.writable_tired] at hending
  exact ⟨hending, houtput⟩

/-- A tired machine does not say that the limit is reached when it is cut, and it does not end as
it does without a limit. -/
theorem limit_untold_of_tired :
    (Machine.tired.run shortCount { limit := some 0 }).hitsLimit = false ∧
      (Machine.tired.run shortCount { limit := some 0 }).ending = .failed .unwritable ∧
      ¬ (Machine.tired.run shortCount {}).Agrees
        (Machine.tired.run shortCount { limit := some 0 }) := by
  obtain ⟨hending, hnothing⟩ := Run.run_tired shortCount
  have hwhole : ∃ events last, Course shortCount none .tired events last .halted ∧
      emissions events = [1, 2] :=
    ⟨[_, _, _], _, ⟨.cons rfl rfl (.cons rfl rfl (.cons rfl rfl (.nil _))), by
      simp only [List.forall_mem_cons]
      exact ⟨⟨rfl, rfl⟩, ⟨rfl, rfl⟩, ⟨rfl, rfl⟩, by simp⟩, .halted rfl⟩, rfl⟩
  obtain ⟨events, last, hcourse, hemissions⟩ := hwhole
  have houtput := (Run.run_of_course hcourse).2.2
  refine ⟨by rw [Run.hitsLimit, hending], hending, fun hagrees => ?_⟩
  rw [hagrees.2.2, hnothing, hemissions] at houtput
  simp at houtput

end ByteMachine
