import ByteMachine.Proofs.LabelSearch
import ByteMachine.Proofs.Lockstep
import ByteMachine.Proofs.Reading
import Mathlib.Data.Fintype.BigOperators
import Mathlib.Data.Fintype.Option

/-!
# Configurations

What a machine does next depends on all of it but the step counter. A course
without a limit therefore never comes back to where it was, apart from the
counter, and there are only so many places where it can be: `Course.length_le`
bounds its length by `Run.configurations`. Hence a run without a limit is called
endless exactly when no course ends it.
-/
namespace ByteMachine

/-- The machine apart from its step counter. -/
def Machine.core (m : Machine) : Machine := { m with steps := 0 }

namespace Machine

variable {m m' : Machine} {program : Program}

theorem eq_of_core (h : m.core = m'.core) : m' = { m with steps := m'.steps } := by
  cases m
  cases m'
  simp only [core, mk.injEq, and_true] at h ⊢
  simp [h]

theorem halted_of_core (h : m.core = m'.core) : m'.halted = m.halted := by
  rw [eq_of_core h]

theorem change_of_core (h : m.core = m'.core) (i : Instruction) :
    i.change m' program = i.change m program := by
  rw [eq_of_core h]
  have hreads : i.ReadsAlike m { m with steps := m'.steps } := .of_storage rfl rfl
  exact i.change_congr hreads rfl rfl fun _ => i.target_congr hreads rfl rfl

theorem carryOut_of_core (h : m.core = m'.core) (c : Change) :
    (c.carryOut m).machine.core = (c.carryOut m').machine.core ∧
      (c.carryOut m').emitted = (c.carryOut m).emitted := by
  rw [eq_of_core h]
  cases c <;> exact ⟨rfl, rfl⟩

end Machine

/-- The step counter has no influence on a step. -/
theorem lockstep_core (program : Program) :
    Lockstep none program program fun m m' => m.core = m'.core where
  halted m m' hcore := Machine.halted_of_core hcore
  steps hlimit := absurd rfl hlimit
  next m m' hcore := by
    have hpc : m'.pc = m.pc := by rw [Machine.eq_of_core hcore]
    refine Machine.next_alike (fun m m' => m.core = m'.core) hpc fun i _ => ?_
    rw [Machine.change_of_core hcore]
    cases i.change m program with
    | error fault => exact .inr ⟨fault, rfl, rfl⟩
    | ok c => exact .inl ⟨c, c, rfl, rfl, Machine.carryOut_of_core hcore c⟩

namespace Course

variable {program : Program} {m last : Machine} {events : List Event} {ending : Ending}

/-- The rest of a course, from one of its events on. -/
theorem drop {limit : Option Int} (h : Course program limit m events last ending) {k : Nat}
    (hk : k < events.length) :
    Course program limit events[k].before (events.drop k) last ending := by
  have hsplit := h.trace
  rw [← List.take_append_drop k events, List.drop_eq_getElem_cons hk] at hsplit
  obtain ⟨middle, _, hrest⟩ := hsplit.of_append
  have hmiddle : events[k].before = middle := by
    generalize events[k] = e at hrest
    cases hrest
    rfl
  rw [hmiddle, List.drop_eq_getElem_cons hk]
  refine ⟨hrest, fun e he => h.awake e ?_, h.stops⟩
  rw [← List.drop_eq_getElem_cons hk] at he
  exact List.mem_of_mem_drop he

/-- A course does not come back to a configuration: from there it would have to end later than
it does. -/
theorem core_ne (h : Course program none m events last ending) {j k : Nat} (hjk : j < k)
    (hj : j < events.length) (hk : k < events.length) :
    events[j].before.core ≠ events[k].before.core := by
  intro hcore
  obtain ⟨events', last', hcourse, _, halike⟩ := (lockstep_core program).course hcore (h.drop hj)
  obtain ⟨rfl, _, _⟩ := hcourse.unique (h.drop hk)
  have hlength := halike.length_eq
  simp only [List.length_drop] at hlength
  omega

end Course

/-! Counting configurations -/

/-- Every label is where it was at the start, or at a line of the program that names it. -/
def LabelsSince (program : Program) (start m : Machine) : Prop :=
  ∀ name, m.label? name = start.label? name ∨
    ∃ line i, m.label? name = some line ∧ program.at? line = some i ∧ i.headName? = some name

theorem LabelsSince.next {program : Program} {start m : Machine} {t : Transition}
    (h : LabelsSince program start m) (hnext : m.next program = .ok () t) :
    LabelsSince program start t.machine := by
  intro name
  obtain ⟨i, c, hi, hc, rfl⟩ := Machine.next_eq_ok_iff.1 hnext
  rw [Change.label?_carryOut]
  cases hrecorded : c.recorded? with
  | none => exact h name
  | some entry =>
    obtain ⟨recorded, line⟩ := entry
    dsimp only
    split_ifs with hsame
    · subst hsame
      obtain ⟨j, hj, hname, _⟩ := Change.site_of_recorded hi hc hrecorded
      exact .inr ⟨line, j, rfl, hj, hname⟩
    · exact h name

/-- A place among all that a program can lead to: the bytes, the flags, the lines of the labels
that the program's lines name, and the current line. -/
abbrev Configuration (size : Nat) : Type :=
  (Fin registerCount → Fin UInt8.size) × (Fin memorySize → Fin UInt8.size) ×
    (Bool × Bool × Bool × Bool) × (Fin size → Option (Fin size)) × Fin size

theorem card_configuration_le (program : Program) :
    Fintype.card (Configuration program.size) ≤ Run.configurations program := by
  have hbytes : UInt8.size = 2 ^ byteBits := rfl
  have hflags : 2 * (2 * (2 * 2)) = 2 ^ Flag.all.length := rfl
  have hlines : (program.size + 1) ^ program.size * program.size ≤
      (program.size + 1) ^ (program.size + 1) := by
    rw [Nat.pow_succ]
    exact Nat.mul_le_mul_left _ (Nat.le_succ _)
  simp only [Configuration, Fintype.card_prod, Fintype.card_fun, Fintype.card_fin,
    Fintype.card_bool, Fintype.card_option, Run.configurations, Nat.shiftLeft_eq, Nat.one_mul,
    Nat.pow_eq]
  rw [hbytes, hflags, Nat.mul_add byteBits, Nat.pow_add, Nat.pow_add, Nat.pow_mul, Nat.pow_mul]
  simp only [Nat.mul_assoc]
  gcongr

namespace Machine

variable {program : Program} {start m m' : Machine}

/-- Where the label of a program line has got to: nowhere, if it is where it was at the start. -/
def labelPlace (program : Program) (start m : Machine) (p : Fin program.size) :
    Option (Fin program.size) :=
  let name := (program[p.val]?.bind Instruction.headName?).getD ""
  if m.label? name = start.label? name then none
  else (m.label? name).bind (cell? program.size)

/-- The configuration of a machine that stands at a line of the program. -/
def configuration (program : Program) (start m : Machine) (line : Fin program.size) :
    Configuration program.size :=
  (fun p => (m.registers.get p).toFin, fun p => (m.memory.get p).toFin,
    (m.flags.eq, m.flags.ne, m.flags.lt, m.flags.gt), labelPlace program start m, line)

theorem label?_of_labelPlace (h : LabelsSince program start m) {p : Fin program.size}
    {name : String} (hname : program[p.val]?.bind Instruction.headName? = some name) :
    m.label? name =
      match labelPlace program start m p with
      | none => start.label? name
      | some q => some (q.val : Int) := by
  rw [labelPlace, hname, Option.getD_some]
  split_ifs with hstart
  · exact hstart
  · rcases h name with hsame | ⟨line, i, hline, hi, _⟩
    · exact absurd hsame hstart
    · obtain ⟨hpos, hsize⟩ := Program.exists_at?_iff.1 ⟨i, hi⟩
      have hcell : cell? program.size line = some ⟨line.toNat, by omega⟩ :=
        cell?_eq_some_iff.2 (by simp only; omega)
      rw [hline, Option.bind_some, hcell]
      simp only [Option.some.injEq]
      omega

/-- The places of the labels tell the whole table. -/
theorem labels_eq_of_labelPlace (hm : LabelsSince program start m)
    (hm' : LabelsSince program start m')
    (h : labelPlace program start m = labelPlace program start m') : m.labels = m'.labels := by
  apply Std.ExtTreeMap.ext_getElem?
  intro name
  change m.label? name = m'.label? name
  by_cases hname : ∃ p : Fin program.size,
      program[p.val]?.bind Instruction.headName? = some name
  · obtain ⟨p, hp⟩ := hname
    rw [label?_of_labelPlace hm hp, label?_of_labelPlace hm' hp, h]
  · have hstart {n : Machine} (hn : LabelsSince program start n) :
        n.label? name = start.label? name := by
      rcases hn name with hsame | ⟨line, i, _, hi, hhead⟩
      · exact hsame
      · obtain ⟨k, _, hk⟩ := Program.at?_eq_some_iff.1 hi
        obtain ⟨hsize, _⟩ := Array.getElem?_eq_some_iff.1 hk
        exact absurd ⟨⟨k, hsize⟩, Option.bind_eq_some_iff.2 ⟨i, hk, hhead⟩⟩ hname
    rw [hstart hm, hstart hm']

/-- Machines that are awake in one configuration differ in their step counters only. -/
theorem core_eq_of_configuration {line line' : Fin program.size}
    (hm : LabelsSince program start m) (hm' : LabelsSince program start m')
    (hpc : m.pc = line.val) (hpc' : m'.pc = line'.val) (hhalted : m.halted = m'.halted)
    (h : configuration program start m line = configuration program start m' line') :
    m.core = m'.core := by
  simp only [configuration, Prod.mk.injEq] at h
  obtain ⟨hregisters, hmemory, ⟨heq, hne, hlt, hgt⟩, hlabels, rfl⟩ := h
  have hr : m.registers = m'.registers :=
    Vector.ext fun k hk => UInt8.toFin_inj.1 (congrFun hregisters ⟨k, hk⟩)
  have hmem : m.memory = m'.memory :=
    Vector.ext fun k hk => UInt8.toFin_inj.1 (congrFun hmemory ⟨k, hk⟩)
  have hf : m.flags = m'.flags := by
    cases hflags : m.flags
    cases hflags' : m'.flags
    simp_all
  have hl := labels_eq_of_labelPlace hm hm' hlabels
  cases m
  cases m'
  simp_all [core]

end Machine

namespace Course

variable {program : Program} {m last : Machine} {events : List Event} {ending : Ending}

/-- Without a limit, a course that ends takes at most as many instructions as there are
configurations. -/
theorem length_le (h : Course program none m events last ending) :
    events.length ≤ Run.configurations program := by
  have hstart : LabelsSince program m m := fun name => .inl rfl
  have hlabels := (h.trace.invariant (fun n t hn hnext => hn.next hnext) hstart).2
  have hmem (k : Fin events.length) : events[k.val] ∈ events := List.getElem_mem k.isLt
  have hline (k : Fin events.length) :
      ∃ line : Fin program.size, events[k.val].before.pc = line.val := by
    obtain ⟨hpos, hsize⟩ := Program.exists_at?_iff.1 ⟨_, (h.trace.of_mem (hmem k)).1⟩
    exact ⟨⟨events[k.val].before.pc.toNat, by omega⟩, by simp only; omega⟩
  choose line hpc using hline
  let code (k : Fin events.length) := Machine.configuration program m events[k.val].before (line k)
  have hinjective : Function.Injective code := by
    intro j k hcode
    have hhalted : events[j.val].before.halted = events[k.val].before.halted := by
      rw [(h.awake _ (hmem j)).1, (h.awake _ (hmem k)).1]
    have hcore := Machine.core_eq_of_configuration (hlabels _ (hmem j)).1 (hlabels _ (hmem k)).1
      (hpc j) (hpc k) hhalted hcode
    by_contra hne
    rcases Nat.lt_or_gt_of_ne (Fin.val_ne_of_ne hne) with hlt | hgt
    · exact h.core_ne hlt j.isLt k.isLt hcore
    · exact h.core_ne hgt k.isLt j.isLt hcore.symm
  have hcard := Fintype.card_le_of_injective code hinjective
  rw [Fintype.card_fin] at hcard
  exact hcard.trans (card_configuration_le program)

end Course

namespace Run

variable {program : Program} {limit : Option Int} {m last : Machine} {events : List Event}
  {reason : Ending}

/-- A run has enough turns for its course. -/
theorem length_lt_turns (h : Course program limit m events last reason) :
    events.length < turns program { limit } m.steps := by
  cases limit with
  | some n =>
    have hlen := Course.length_le_limit h.trace h.awake
    simp only [turns]
    omega
  | none =>
    have hlen := h.length_le
    simp only [turns, Option.getD_none]
    omega

/-- A run follows the course that there is. -/
theorem run_of_course (h : Course program limit m events last reason) :
    (m.run program { limit }).machine = last ∧
      (m.run program { limit }).ending = reason.told last.steps ∧
      (m.run program { limit }).output.toList = emissions events := by
  obtain ⟨hmachine, hending, houtput⟩ := h.loop_eq (length_lt_turns h) rfl
  exact ⟨hmachine, hending, houtput.trans (by simp)⟩

/-- A run that ends has a course. -/
theorem course_of_run (h : (m.run program { limit }).ending ≠ .endless) :
    ∃ events reason, Course program limit m events (m.run program { limit }).machine reason ∧
      (m.run program { limit }).ending = reason.told (m.run program { limit }).machine.steps ∧
      (m.run program { limit }).output.toList = emissions events := by
  obtain ⟨events, houtput, htrace, hawake, ⟨_, reason, hstops, htold⟩ | ⟨_, hendless⟩⟩ :=
    @loop_course program limit (turns program { limit } m.steps) m #[] #[] _ rfl
  · exact ⟨events, reason, ⟨htrace, hawake, hstops⟩, htold, houtput.trans (by simp)⟩
  · exact absurd hendless h

/-- What a run leaves, it has come to by executing instructions. -/
theorem exists_trace (program : Program) (limit : Option Int) (m : Machine) :
    ∃ events, Trace program m events (m.run program { limit }).machine := by
  obtain ⟨events, _, htrace, _⟩ :=
    @loop_course program limit (turns program { limit } m.steps) m #[] #[] _ rfl
  exact ⟨events, htrace⟩

/-- Under a limit every run ends. -/
theorem run_limited (program : Program) (n : Int) (m : Machine) :
    (m.run program { limit := some n }).ending ≠ .endless := by
  obtain ⟨events, _, htrace, hawake, ⟨_, reason, hstops, htold⟩ | ⟨hlen, _⟩⟩ :=
    @loop_course program (some n) (turns program { limit := some n } m.steps) m #[] #[] _ rfl
  · rw [Machine.run, htold]
    exact Ending.told_ne_endless hstops.ne_endless
  · have hle := Course.length_le_limit htrace hawake
    simp only [turns] at hlen
    omega

/-- A run is called endless exactly when no course ends it. -/
theorem run_endless_iff :
    (m.run program { limit }).ending = .endless ↔
      ∀ events last reason, ¬ Course program limit m events last reason := by
  constructor
  · intro hendless events last reason hcourse
    have hending := (run_of_course hcourse).2.1
    exact Ending.told_ne_endless hcourse.stops.ne_endless (hending.symm.trans hendless)
  · intro hnone
    by_contra hends
    obtain ⟨events, _, hcourse, _⟩ := course_of_run hends
    exact hnone _ _ _ hcourse

/-- How a run ends, and what it leaves then. A run that cannot tell the number of instructions has
halted or has come to its limit. -/
theorem ending_cases (program : Program) (limit : Option Int) (m : Machine) :
    ((m.run program { limit }).ending = .halted ∧
        (m.run program { limit }).machine.halted = true) ∨
      ((m.run program { limit }).ending = .endless ∧ limit = none) ∨
      ((m.run program { limit }).ending =
          .failed (.stepLimit (m.run program { limit }).machine.steps) ∧
        ∃ n, limit = some n ∧ n ≤ (m.run program { limit }).machine.steps) ∨
      ((m.run program { limit }).ending = .failed .unwritable ∧
        Numeral.writable (m.run program { limit }).machine.steps = false ∧
        ((m.run program { limit }).machine.halted = true ∨
          ∃ n, limit = some n ∧ n ≤ (m.run program { limit }).machine.steps)) ∨
      ∃ fault, (m.run program { limit }).ending = .failed fault ∧
        (m.run program { limit }).machine.next program =
          .error fault { machine := (m.run program { limit }).machine } := by
  by_cases hends : (m.run program { limit }).ending = .endless
  · refine .inr (.inl ⟨hends, ?_⟩)
    cases limit with
    | none => rfl
    | some n => exact absurd hends (run_limited program n m)
  · obtain ⟨_, reason, ⟨_, _, hstops⟩, htold, _⟩ := course_of_run hends
    have hreached (h : Bounds.reached { limit } (m.run program { limit }).machine.steps = true) :
        ∃ n, limit = some n ∧ n ≤ (m.run program { limit }).machine.steps := by
      cases limit with
      | none => simp [Bounds.reached] at h
      | some n => exact ⟨n, rfl, by simpa [Bounds.reached] using h⟩
    generalize (m.run program { limit }).machine = last at hstops htold hreached ⊢
    cases hstops with
    | halted hhalted =>
      rcases Ending.told_eq_iff.1 htold.symm with ⟨hreason, _⟩ | ⟨hfailed, _, hsteps⟩
      · exact .inl ⟨hreason.symm, hhalted⟩
      · exact .inr (.inr (.inr (.inl ⟨hfailed, hsteps, .inl hhalted⟩)))
    | limited _ hlimit =>
      rcases Ending.told_eq_iff.1 htold.symm with ⟨hreason, _⟩ | ⟨hfailed, _, hsteps⟩
      · exact .inr (.inr (.inl ⟨hreason.symm, hreached hlimit⟩))
      · exact .inr (.inr (.inr (.inl ⟨hfailed, hsteps, .inr (hreached hlimit)⟩)))
    | fault _ hnext =>
      obtain ⟨rfl, _⟩ := Machine.next_eq_error_iff.1 hnext
      rw [Ending.told_of_tellsSteps_eq_false (Machine.tellsSteps_of_next hnext)] at htold
      exact .inr (.inr (.inr (.inr ⟨_, htold, hnext⟩)))

end Run

/-- Runs from related machines end in the same way, if related machines have executed as many
instructions. Where they end, they have put out the same and leave related machines. -/
theorem Lockstep.run {program program' : Program} {R : Machine → Machine → Prop} {m m' : Machine}
    {limit : Option Int} (h : Lockstep limit program program' R)
    (hsteps : ∀ m m', R m m' → m'.steps = m.steps) (hR : R m m') :
    (m'.run program' { limit }).ending = (m.run program { limit }).ending ∧
      ((m.run program { limit }).ending ≠ .endless →
        R (m.run program { limit }).machine (m'.run program' { limit }).machine ∧
          (m'.run program' { limit }).output = (m.run program { limit }).output) := by
  by_cases hends : (m.run program { limit }).ending = .endless
  · have hends' : (m'.run program' { limit }).ending = .endless := by
      rw [Run.run_endless_iff] at hends ⊢
      intro events last reason hcourse
      obtain ⟨events', last', hcourse', _⟩ := h.symm.course hR hcourse
      exact hends _ _ _ hcourse'
    exact ⟨hends'.trans hends.symm, fun hne => absurd hends hne⟩
  · obtain ⟨events, reason, hcourse, hending, houtput⟩ := Run.course_of_run hends
    obtain ⟨events', last', hcourse', hlast, halike⟩ := h.course hR hcourse
    obtain ⟨hmachine', hending', houtput'⟩ := Run.run_of_course hcourse'
    rw [hsteps _ _ hlast, ← hending] at hending'
    refine ⟨hending', fun _ => ⟨hmachine'.symm ▸ hlast, ?_⟩⟩
    apply Array.toList_inj.1
    rw [houtput', houtput, emissions_of_alike halike]

end ByteMachine
