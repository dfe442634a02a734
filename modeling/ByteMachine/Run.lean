import ByteMachine.Execution

/-!
# Runs

A run executes one instruction after another until the machine halts, an
instruction fails, the step limit is reached, or the user loses patience with the
output. Before each instruction the machine is asked whether it has halted, then
whether the limit is reached, and only then whether there is an instruction.

A run without a limit need not end. A program has finitely many configurations,
so a run that has not ended after passing through more of them than there are
will not end at all; `turns` counts far enough to know.
-/
namespace ByteMachine

/-- How a run ends. -/
inductive Ending where
  | halted
  | failed (fault : Fault)
  /-- The user stopped it in place of the next output. -/
  | interrupted
  /-- It goes on for ever. -/
  | endless
  deriving DecidableEq

/-- What bounds a run: the number of executed instructions at which it is cut, and the number
of values that the user waits for before stopping it. -/
structure Bounds where
  limit : Option Int := none
  patience : Option Nat := none
  deriving DecidableEq

namespace Bounds

/-- The limit is reached after so many instructions. -/
def reached (bounds : Bounds) (steps : Int) : Bool :=
  match bounds.limit with
  | none => false
  | some limit => limit ≤ steps

/-- The user will not see another value. -/
def impatient (bounds : Bounds) : Bool := bounds.patience = some 0

/-- The bounds that remain after an instruction. -/
def after (bounds : Bounds) (emitted : List Nat) : Bounds :=
  { bounds with patience := bounds.patience.map (· - emitted.length) }

end Bounds

/-- One turn of a run: it is over, or it goes on. Either way something has been done, if only
the part of an instruction that came before its fault. -/
inductive Turn where
  | over (ending : Ending) (left : Transition)
  | on (transition : Transition)
  deriving DecidableEq

/-- The turn that an attempt leads to. A fault ends the run. -/
def Turn.ofAttempt (attempt : Attempt) (succeed : Transition → Turn) : Turn :=
  match attempt with
  | .ok _ t => succeed t
  | .error fault left => .over (.failed fault) left

/-- The next turn of a run. The number of executed instructions is told when the machine has
halted, and when the limit is reached; the state of the machine is logged after every
instruction. -/
def Machine.turn (m : Machine) (program : Program) (bounds : Bounds) : Turn :=
  if m.halted then
    .ofAttempt (Action.log program (.haltedAfter m.steps) { machine := m }) (.over .halted)
  else if bounds.reached m.steps then
    .over (.failed (Fault.stepLimit m.steps).told) { machine := m }
  else
    .ofAttempt (m.next program) fun t =>
      if t.emitted ≠ [] && bounds.impatient then .over .interrupted { machine := m }
      else .ofAttempt (Action.dump program t) .on

/-- A run that is over: the machine it leaves, the values it put out and what it logged. -/
structure Run where
  machine : Machine
  output : Array Nat
  log : Array Record
  ending : Ending
  deriving DecidableEq

namespace Run

/-- At most so many turns of a run, after those that gave the output and the log so far. -/
def loop (program : Program) :
    Nat → Bounds → Machine → Array Nat → Array Record → Run
  | 0, _, m, output, log => ⟨m, output, log, .endless⟩
  | turns + 1, bounds, m, output, log =>
    match m.turn program bounds with
    | .over ending left => ⟨left.machine, output ++ left.emitted, log ++ left.log, ending⟩
    | .on t =>
      loop program turns (bounds.after t.emitted) t.machine (output ++ t.emitted) (log ++ t.log)

/-- No program passes through more configurations than this without repeating one: bytes and
flags have so many contents, each label defined in the program is on one of its lines or where
it was at the start, and the current line is one of the program. -/
def configurations (program : Program) : Nat :=
  (1 <<< (byteBits * (registerCount + memorySize) + Flag.all.length)) *
    Nat.pow (program.size + 1) (program.size + 1)

/-- As many turns as a run from a step count on can take, unless it is endless. -/
def turns (program : Program) (bounds : Bounds) (steps : Int) : Nat :=
  match bounds.limit with
  | some limit => (limit - steps).toNat + 1
  | none => configurations program * (bounds.patience.getD 0 + 1) + 1

end Run

/-- Run a program on a machine. -/
def Machine.run (m : Machine) (program : Program) (bounds : Bounds) : Run :=
  Run.loop program (Run.turns program bounds m.steps) bounds m #[] #[]

/-- Read a program and run it on a new machine. -/
def interpret (lines : List String) (bounds : Bounds) : Except Rejection Run := do
  let program ← Program.parse lines
  return Machine.new.run program bounds

/-- Values as they are printed: each in decimal on a line of its own. -/
def printed (values : List Nat) : String :=
  String.join (values.map fun value => toString value ++ "\n")

/-- The text that a run prints. -/
def Run.printed (run : Run) : String := ByteMachine.printed run.output.toList

end ByteMachine
