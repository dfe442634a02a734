import ByteMachine.Launch
import ByteMachine.Proofs.Configuration

/-!
# The front ends

A program can be started in three ways: its lines are interpreted, its
instructions are executed on a new machine, or the command is given the path of
its file. The command tells by its exit code what the others tell by what they
return, and it prints what the executed instructions put out.
-/
namespace ByteMachine

namespace Closing

end Closing

section Reports

variable {invocation : Invocation} {content : Content}

namespace Invocation

end Invocation

/-- Loading has found no file. -/
def Missing (loaded : Except LoadFault (List String)) : Prop :=
  ∃ path, loaded = .error (.notFound path)

/-- Loading has given lines that are rejected for a mistake in one of them. -/
def Mistaken (loaded : Except LoadFault (List String)) : Prop :=
  ∃ lines rejection, loaded = .ok lines ∧ Program.parse lines = .error rejection ∧
    rejection.cause.concernsLine = true

/-- Loading has given lines, and interpreting them under the limit comes to this ending. -/
def EndsWith (loaded : Except LoadFault (List String)) (limit : Option Int) (ending : Ending) :
    Prop :=
  ∃ lines run, loaded = .ok lines ∧ interpret lines { limit } = .ok run ∧ run.ending = ending

/-- What an exit code tells. -/
structure Tells (loaded : Except LoadFault (List String)) (limit : Option Int)
    (code : Option Nat) : Prop where
  missing : code = some 2 ↔ Missing loaded
  mistaken : code = some 1 ↔ Mistaken loaded
  halted : code = some 0 ↔ EndsWith loaded limit .halted
  limited : code = some 4 ↔ ∃ steps, EndsWith loaded limit (.failed (.stepLimit steps))
  endless : code = none ↔ EndsWith loaded limit .endless
  listed : ∀ n, code = some n → n ∈ [0, 1, 2, 4, 100]

namespace Tells

variable {limit : Option Int}

/-- The code 100 is left for everything that has no code of its own. -/
theorem other {loaded : Except LoadFault (List String)} {code : Option Nat}
    (h : Tells loaded limit code) :
    code = some 100 ↔
      ¬ Missing loaded ∧ ¬ Mistaken loaded ∧ ¬ EndsWith loaded limit .halted ∧
        (¬ ∃ steps, EndsWith loaded limit (.failed (.stepLimit steps))) ∧
        ¬ EndsWith loaded limit .endless := by
  rw [← h.missing, ← h.mistaken, ← h.halted, ← h.limited, ← h.endless]
  cases code with
  | none => simp
  | some n =>
    have hlisted := h.listed n rfl
    simp only [List.mem_cons, List.not_mem_nil, or_false] at hlisted
    rcases hlisted with rfl | rfl | rfl | rfl | rfl <;> simp

end Tells

namespace Invocation

variable {loaded : Except LoadFault (List String)}

end Invocation

end Reports

end ByteMachine
