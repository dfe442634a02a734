import ByteMachine.Action

/-!
# Finding labels

A label that has not been recorded yet is searched in the program: from the
current line to the end, then from the first line up to the current one. Line
numbers are signed indices here, since a machine may stand outside its program.
-/
namespace ByteMachine

/-- The instruction that a signed line number names. -/
def Program.fetch (program : Program) (line : Int) : Except Fault Instruction :=
  match place program.size line with
  | .ok p => .ok program[p]
  | .error cause => .error (.badIndex cause)

namespace LabelSearch

/-- Whether an instruction defines the label. A definition without a name has no first
operand to compare with. -/
def defines (instruction : Instruction) (name : String) : Except Fault Bool :=
  match instruction.opcode, instruction.operands with
  | .label, [] => .error (.badIndex .outOfRange)
  | .label, operand :: _ => .ok (operand.raw = name)
  | _, _ => .ok false

/-- The first of `count` lines, from `line` on, that defines the label. -/
def scan (program : Program) (name : String) (line : Int) : Nat → Except Fault (Option Int)
  | 0 => .ok none
  | count + 1 => do
    let instruction ← program.fetch line
    if ← defines instruction name then return some line
    else scan program name (line + 1) count

/-- The line that defines the label, seen from line `pc`: ahead first, then behind. -/
def locate (program : Program) (name : String) (pc : Int) : Except Fault Int := do
  match ← scan program name pc (program.size - pc).toNat with
  | some line => return line
  | none =>
    match ← scan program name 0 pc.toNat with
    | some line => return line
    | none => throw (.unknownLabel name)

end LabelSearch

/-- The line of a label: the recorded one, or else one that is searched and then recorded. -/
def Action.findLabel (program : Program) (name : String) : Action Int := do
  let m ← machine
  match m.label? name with
  | some line => return line
  | none =>
    let line ← LabelSearch.locate program name m.pc
    recordLabel program name line
    return line

end ByteMachine
