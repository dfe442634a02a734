import ByteMachine.Proofs.Course
import Mathlib.Data.List.Forall2

/-!
# Two machines side by side

Some relations between machines are kept by every step: related machines both go
on, to related machines again and with the same values, or both fail in the same
way. From one such step follow whole traces and courses. Where a limit counts the
steps, related machines must also agree on their number.
-/
namespace ByteMachine

/-- Steps of the two programs keep the relation, and under the limit it tells neither halted
machines from others nor one step count from another. -/
structure Lockstep (limit : Option Int) (program program' : Program)
    (R : Machine → Machine → Prop) : Prop where
  halted : ∀ m m', R m m' → m'.halted = m.halted
  steps : limit ≠ none → ∀ m m', R m m' → m'.steps = m.steps
  next : ∀ m m', R m m' →
    (∃ t t', m.next program = .ok () t ∧ m'.next program' = .ok () t' ∧
        R t.machine t'.machine ∧ t'.emitted = t.emitted) ∨
      ∃ fault, m.next program = .error fault { machine := m } ∧
        m'.next program' = .error fault { machine := m' }

/-- For a step side by side it is enough to know what the instruction at the common line does. -/
theorem Machine.next_alike {program : Program} (R : Machine → Machine → Prop) {m m' : Machine}
    (hpc : m'.pc = m.pc)
    (h : ∀ i, program.at? m.pc = some i →
      (∃ c c', i.change m program = .ok c ∧ i.change m' program = .ok c' ∧
          R (c.carryOut m).machine (c'.carryOut m').machine ∧
          (c'.carryOut m').emitted = (c.carryOut m).emitted) ∨
        ∃ fault, i.change m program = .error fault ∧ i.change m' program = .error fault) :
    (∃ t t', m.next program = .ok () t ∧ m'.next program = .ok () t' ∧
        R t.machine t'.machine ∧ t'.emitted = t.emitted) ∨
      ∃ fault, m.next program = .error fault { machine := m } ∧
        m'.next program = .error fault { machine := m' } := by
  rw [next_eq, next_eq, hpc]
  cases hi : program.at? m.pc with
  | none => exact .inr ⟨_, rfl, rfl⟩
  | some i =>
    rcases h i hi with ⟨c, c', hc, hc', hafter, hemitted⟩ | ⟨fault, hfault, hfault'⟩
    · simp only [hc, hc']
      exact .inl ⟨_, _, rfl, rfl, hafter, hemitted⟩
    · simp only [hfault, hfault']
      exact .inr ⟨fault, rfl, rfl⟩

/-- The events lead from related machines to related machines, with the same values. -/
structure Event.Alike (R : Machine → Machine → Prop) (e e' : Event) : Prop where
  before : R e.before e'.before
  after : R e.after.machine e'.after.machine
  emitted : e'.after.emitted = e.after.emitted

theorem emissions_of_alike {R : Machine → Machine → Prop} {events events' : List Event}
    (h : List.Forall₂ (Event.Alike R) events events') : emissions events' = emissions events := by
  induction h with
  | nil => rfl
  | cons halike _ ih => rw [emissions_cons, emissions_cons, halike.emitted, ih]

namespace Lockstep

variable {program program' : Program} {R : Machine → Machine → Prop} {m m' last last' : Machine}
  {events : List Event} {limit : Option Int} {ending : Ending}

theorem symm (h : Lockstep limit program program' R) :
    Lockstep limit program' program fun m m' => R m' m where
  halted m m' hR := (h.halted m' m hR).symm
  steps hlimit m m' hR := (h.steps hlimit m' m hR).symm
  next m m' hR := by
    rcases h.next m' m hR with ⟨t, t', ht, ht', hafter, hemitted⟩ | ⟨fault, hfault, hfault'⟩
    · exact .inl ⟨t', t, ht', ht, hafter, hemitted.symm⟩
    · exact .inr ⟨fault, hfault', hfault⟩

/-- A trace is followed from every related machine. -/
theorem trace (h : Lockstep limit program program' R) (hR : R m m')
    (htrace : Trace program m events last) :
    ∃ events' last', Trace program' m' events' last' ∧ R last last' ∧
      List.Forall₂ (Event.Alike R) events events' := by
  induction htrace generalizing m' with
  | nil m => exact ⟨[], m', .nil m', hR, .nil⟩
  | cons found executed _ ih =>
    rcases h.next _ m' hR with ⟨t, t', ht, ht', hafter, hemitted⟩ | ⟨fault, hfault, _⟩
    · have hsame := executed.symm.trans ht
      simp only [EStateM.Result.ok.injEq, true_and] at hsame
      subst hsame
      obtain ⟨events', last', htrace', hlast, halike⟩ := ih hafter
      obtain ⟨i, hcons⟩ := Trace.of_next ht' htrace'
      exact ⟨_, last', hcons, hlast, .cons ⟨hR, hafter, hemitted⟩ halike⟩
    · exact absurd (executed.symm.trans hfault) (by simp)

/-- The limit is the same for related machines. -/
theorem reached (h : Lockstep limit program program' R) (hR : R m m') :
    Bounds.reached { limit } m'.steps = Bounds.reached { limit } m.steps := by
  cases limit with
  | none => rfl
  | some n => rw [h.steps (by simp) m m' hR]

theorem awake (h : Lockstep limit program program' R) (hR : R m m') (hawake : Awake limit m) :
    Awake limit m' := by
  obtain ⟨hhalted, hlimit⟩ := hawake
  exact ⟨(h.halted m m' hR).trans hhalted, (h.reached hR).trans hlimit⟩

theorem awake_of_alike {events' : List Event} (h : Lockstep limit program program' R)
    (halike : List.Forall₂ (Event.Alike R) events events')
    (hawake : ∀ e ∈ events, Awake limit e.before) : ∀ e ∈ events', Awake limit e.before := by
  induction halike with
  | nil => simp
  | cons hevent _ ih =>
    rw [List.forall_mem_cons] at hawake ⊢
    exact ⟨h.awake hevent.before hawake.1, ih hawake.2⟩

/-- Related machines stop for the same reason. -/
theorem stops (h : Lockstep limit program program' R) (hR : R m m')
    (hstops : Stops program limit m ending) : Stops program' limit m' ending := by
  cases hstops with
  | halted hm => exact .halted ((h.halted m m' hR).trans hm)
  | limited hm hlimit =>
    have hsome : limit ≠ none := by
      rintro rfl
      simp [Bounds.reached] at hlimit
    rw [← h.steps hsome m m' hR]
    exact .limited ((h.halted m m' hR).trans hm) ((h.reached hR).trans hlimit)
  | fault hawake hnext =>
    rcases h.next m m' hR with ⟨t, _, ht, _⟩ | ⟨fault, hfault, hfault'⟩
    · exact absurd (hnext.symm.trans ht) (by simp)
    · have hsame := hnext.symm.trans hfault
      simp only [EStateM.Result.error.injEq] at hsame
      obtain ⟨rfl, _⟩ := hsame
      exact .fault (h.awake hR hawake) hfault'

/-- A course is followed from every related machine. -/
theorem course (h : Lockstep limit program program' R) (hR : R m m')
    (hcourse : Course program limit m events last ending) :
    ∃ events' last', Course program' limit m' events' last' ending ∧ R last last' ∧
      List.Forall₂ (Event.Alike R) events events' := by
  obtain ⟨events', last', htrace, hlast, halike⟩ := h.trace hR hcourse.trace
  have hawake := h.awake_of_alike halike hcourse.awake
  exact ⟨events', last', ⟨htrace, hawake, h.stops hlast hcourse.stops⟩, hlast, halike⟩

end Lockstep

end ByteMachine
