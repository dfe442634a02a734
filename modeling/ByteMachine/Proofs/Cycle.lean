import ByteMachine.Proofs.StepLimit

/-!
# Programs that go round

A machine that comes back to a configuration goes on as it did the first time:
neither a halt nor a fault can be met on the way round, as none was met before.
Without a limit the run never ends. Under a limit it is cut, and by then it has
put out the values of the round again and again; it says that the limit is
reached unless the number of instructions cannot be written.
-/
namespace ByteMachine

/-- The events lead a machine that is not halted back to where it was, apart from the steps. -/
structure Round (program : Program) (start : Machine) (round : List Event) : Prop where
  nonempty : round ≠ []
  running : start.halted = false
  closed : ∃ again, Trace program start round again ∧ start.core = again.core

namespace Trace

variable {program : Program} {m last : Machine} {events : List Event} {limit : Int}

/-- A trace that uses up the steps below a limit is the course of the run that is cut by it. -/
theorem course_of_length (h : Trace program m events last) (hlast : last.halted = false)
    (hlength : events.length = (limit - m.steps).toNat) :
    Course program (some limit) m events last (.failed (.stepLimit (max m.steps limit))) ∧
      last.steps = max m.steps limit := by
  have hsteps : last.steps = max m.steps limit := by
    rw [h.steps_eq, hlength]
    omega
  refine ⟨⟨h, fun e he => awake_some_iff.2 ⟨h.running_of_mem hlast he, ?_⟩, ?_⟩, hsteps⟩
  · have hlength_pos := List.length_pos_of_mem he
    have hlt := h.steps_lt_of_mem he
    omega
  · rw [← hsteps]
    exact .limited hlast (by simp [Bounds.reached, hsteps])

end Trace

/-- The first instructions of a machine that comes to a round and then goes round in it. -/
def goingRound (first round : List Event) (n : Nat) : List Event :=
  (first ++ (List.replicate n round).flatten).take n

theorem emissions_flatten_replicate (k : Nat) (round : List Event) :
    emissions (List.replicate k round).flatten = (List.replicate k (emissions round)).flatten := by
  induction k with
  | zero => rfl
  | succ k ih => simp only [List.replicate_succ, List.flatten_cons, emissions_append, ih]

theorem length_flatten_replicate (k : Nat) (round : List Event) :
    (List.replicate k round).flatten.length = k * round.length := by
  rw [List.length_flatten, List.map_replicate, List.sum_replicate_nat]

/-- After whole rounds, the values of the round have been put out as often. -/
theorem emissions_goingRound {first round : List Event} (hround : round ≠ []) (k : Nat) :
    emissions (goingRound first round (first.length + k * round.length)) =
      emissions first ++ (List.replicate k (emissions round)).flatten := by
  have hk : k ≤ k * round.length :=
    Nat.le_mul_of_pos_right k (List.length_pos_of_ne_nil hround)
  obtain ⟨more, hmore⟩ := Nat.exists_eq_add_of_le (Nat.le_add_left_of_le hk : k ≤ first.length + _)
  have hlength : first.length + k * round.length =
      (first ++ (List.replicate k round).flatten).length := by
    rw [List.length_append, length_flatten_replicate]
  have hsplit : first ++ (List.replicate (k + more) round).flatten =
      (first ++ (List.replicate k round).flatten) ++ (List.replicate more round).flatten := by
    rw [List.replicate_add, List.flatten_append, List.append_assoc]
  rw [goingRound, hmore, hsplit, ← hmore, hlength, List.take_left, emissions_append,
    emissions_flatten_replicate]

namespace Round

variable {program : Program} {m start : Machine} {first round : List Event}

/-- The round can be gone from every machine in the same configuration, as often as one likes. -/
theorem repeated (h : Round program start round) (k : Nat) (hcore : start.core = m.core) :
    ∃ events last, Trace program m events last ∧ start.core = last.core ∧
      List.Forall₂ (Event.Alike fun m m' => m.core = m'.core)
        (List.replicate k round).flatten events := by
  induction k generalizing m with
  | zero => exact ⟨[], m, .nil m, hcore, .nil⟩
  | succ k ih =>
    obtain ⟨again, hround, hagain⟩ := h.closed
    obtain ⟨pass, middle, hpass, hmiddle, halike⟩ := (lockstep_core program).trace hcore hround
    obtain ⟨events, last, hevents, hlast, hrest⟩ := ih (hagain.trans hmiddle)
    refine ⟨pass ++ events, last, hpass.append hevents, hlast, ?_⟩
    rw [List.replicate_succ, List.flatten_cons]
    exact List.rel_append halike hrest

/-- The machine can take any number of steps without a halt. -/
theorem trace_of_length (h : Round program start round) (hfirst : Trace program m first start)
    (n : Nat) :
    ∃ events last, Trace program m events last ∧ last.halted = false ∧ events.length = n ∧
      emissions events = emissions (goingRound first round n) := by
  obtain ⟨passes, last, hpasses, hlast, halike⟩ := h.repeated n rfl
  have hwhole : List.Forall₂ (Event.Alike fun m m' => m.core = m'.core)
      (first ++ (List.replicate n round).flatten) (first ++ passes) :=
    List.rel_append (List.forall₂_same.2 fun _ _ => ⟨rfl, rfl, rfl⟩) halike
  have htrace := hfirst.append hpasses
  rw [← List.take_append_drop n (first ++ passes)] at htrace
  obtain ⟨middle, hstart, hrest⟩ := htrace.of_append
  refine ⟨_, middle, hstart, ?_, ?_, emissions_of_alike (List.forall₂_take n hwhole)⟩
  · have hhalted := hrest.halted_eq
    rw [Machine.halted_of_core hlast, h.running] at hhalted
    exact (Bool.or_eq_false_iff.1 hhalted.symm).1
  · have hlength : n ≤ passes.length := by
      rw [← halike.length_eq, length_flatten_replicate]
      exact Nat.le_mul_of_pos_right n (List.length_pos_of_ne_nil h.nonempty)
    rw [List.length_take, List.length_append]
    omega

theorem run_endless (h : Round program start round) (hfirst : Trace program m first start) :
    (m.run program {}).ending = .endless := by
  rw [Run.run_endless_iff]
  intro events last ending hcourse
  -- The machine can take one step more than the course has.
  obtain ⟨passed, middle, hpassed, hmiddle, hlength, _⟩ :=
    h.trace_of_length hfirst (events.length + 1)
  have hawake : ∀ e ∈ passed, Awake none e.before :=
    fun e he => ⟨hpassed.running_of_mem hmiddle he, rfl⟩
  obtain ⟨more, hmore, _⟩ := hcourse.of_passage hpassed hawake
  have htotal := congrArg List.length hmore
  rw [List.length_append] at htotal
  omega

theorem run_cut (h : Round program start round) (hfirst : Trace program m first start)
    (limit : Int) :
    (m.run program { limit := some limit }).ending =
        .failed (Fault.stepLimit (max m.steps limit)).told ∧
      (m.run program { limit := some limit }).output.toList =
        emissions (goingRound first round (limit - m.steps).toNat) := by
  obtain ⟨events, last, hevents, hlast, hlength, hemissions⟩ :=
    h.trace_of_length hfirst (limit - m.steps).toNat
  obtain ⟨hcourse, hsteps⟩ := hevents.course_of_length hlast hlength
  obtain ⟨_, hending, houtput⟩ := Run.run_of_course hcourse
  rw [hsteps, Ending.told_stepLimit] at hending
  exact ⟨hending, houtput.trans hemissions⟩

end Round

/-- A program that comes back to a configuration never ends. Without a limit the run is endless.
Under each limit it is cut there: it says that the limit is reached, or that the number of
instructions cannot be written, and it ends in no other way. What it has put out by then is what
the machine did on its way to the round and in the round, again and again: every pass adds the
same values. -/
theorem repeated_configuration_never_ends {program : Program} {m start : Machine}
    {first round : List Event} (hfirst : Trace program m first start)
    (hround : Round program start round) :
    (m.run program {}).ending = .endless ∧
      (∀ limit : Int,
        (m.run program { limit := some limit }).ending =
            .failed (if Numeral.writable (max m.steps limit) then .stepLimit (max m.steps limit)
              else .unwritable) ∧
          (m.run program { limit := some limit }).output.toList =
            emissions (goingRound first round (limit - m.steps).toNat)) ∧
      ∀ k : Nat,
        (m.run program { limit := some (m.steps + (first.length + k * round.length : Nat)) }
            ).output.toList =
          emissions first ++ (List.replicate k (emissions round)).flatten := by
  refine ⟨hround.run_endless hfirst, hround.run_cut hfirst, fun k => ?_⟩
  have hlength (n : Nat) : (m.steps + n - m.steps).toNat = n := by omega
  rw [(hround.run_cut hfirst _).2, hlength, emissions_goingRound hround.nonempty]

/-- A program that puts out one and zero in turns. -/
def blinker : Program :=
  #[⟨.mov, none, [⟨.register, "0"⟩, ⟨.immediate, "1"⟩]⟩,
    ⟨.out, none, [⟨.register, "0"⟩]⟩,
    ⟨.arith .xor, none, [⟨.register, "0"⟩, ⟨.register, "0"⟩, ⟨.immediate, "1"⟩]⟩,
    ⟨.b, some .always, [⟨.address, "1"⟩]⟩]

theorem repeated_configuration_never_ends_blinker :
    (Machine.new.run blinker {}).ending = .endless ∧
      (∀ limit : Int, limit < (10 ^ Numeral.digitLimit : Nat) →
        (Machine.new.run blinker { limit := some limit }).ending =
          .failed (.stepLimit (max 0 limit))) ∧
      ∀ k : Nat, (Machine.new.run blinker { limit := some (1 + k * 6 : Nat) }).output.toList =
        (List.replicate k [1, 0]).flatten := by
  have hrounds : ∃ first round start, Trace blinker .new first start ∧
      Round blinker start round ∧ first.length = 1 ∧ round.length = 6 ∧ emissions first = [] ∧
      emissions round = [1, 0] :=
    ⟨_, _, _, .cons rfl rfl (.nil _), ⟨List.cons_ne_nil _ _, rfl, _, .cons rfl rfl
      (.cons rfl rfl (.cons rfl rfl (.cons rfl rfl (.cons rfl rfl (.cons rfl rfl (.nil _)))))), rfl⟩,
      rfl, rfl, rfl, rfl⟩
  obtain ⟨first, round, start, hfirst, hround, hone, hsix, hnothing, hblink⟩ := hrounds
  obtain ⟨hendless, hlimited, hpasses⟩ := repeated_configuration_never_ends hfirst hround
  have hnew : Machine.new.steps = 0 := rfl
  refine ⟨hendless, fun limit hlimit => ?_, fun k => ?_⟩
  · have hwritable : Numeral.writable (max 0 limit) = true := by
      rw [Numeral.writable_iff]
      have hpositive := Nat.pow_pos (n := Numeral.digitLimit) (show 0 < 10 by decide)
      omega
    rw [(hlimited limit).1, hnew, if_pos hwritable]
  · have hpass := hpasses k
    rw [hone, hsix, hnothing, hblink, hnew, Int.zero_add] at hpass
    exact hpass

/-- A line that branches to itself. -/
def standstill : Program := #[⟨.b, some .always, [⟨.address, "0"⟩]⟩]

theorem round_standstill {m : Machine} (hpc : m.pc = 0) (hrunning : m.halted = false) :
    ∃ round, Round standstill m round := by
  have hfound : standstill.at? m.pc = some ⟨.b, some .always, [⟨.address, "0"⟩]⟩ := by
    rw [hpc]
    rfl
  have hchange : Instruction.change ⟨.b, some .always, [⟨.address, "0"⟩]⟩ m standstill =
      .ok (.jump _ 0) := rfl
  obtain ⟨_, hround⟩ :=
    Trace.of_next (Machine.next_eq_ok_iff.2 ⟨_, _, hfound, hchange, rfl⟩) (.nil _)
  refine ⟨_, List.cons_ne_nil _ _, hrunning, _, hround, ?_⟩
  cases m
  subst hpc
  rfl

/-- A tired machine that stands still does not say that the limit is reached. -/
theorem standstill_untold_of_tired :
    (∃ round, Round standstill .tired round) ∧
      (Machine.tired.run standstill { limit := some 0 }).ending = .failed .unwritable ∧
      ∀ steps, (Machine.tired.run standstill { limit := some 0 }).ending ≠
        .failed (.stepLimit steps) := by
  have hending := (Run.run_tired standstill).1
  refine ⟨round_standstill rfl rfl, hending, fun steps => ?_⟩
  rw [hending]
  simp

end ByteMachine
