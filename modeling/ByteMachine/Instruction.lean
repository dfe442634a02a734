import ByteMachine.Fault
import ByteMachine.Opcode

/-!
# Instructions

An instruction is an operation with its operands. A condition belongs to
branches, though nothing keeps it off another operation. `text` is the source
form of an instruction.
-/
namespace ByteMachine

structure Instruction where
  opcode : Opcode
  branch : Option Condition := none
  operands : List Operand := []
  deriving DecidableEq, Repr

namespace Instruction

/-- What an empty line stands for. -/
def blank : Instruction := { opcode := .nop }

/-- The definition of a label. -/
def defineLabel (name : String) : Instruction :=
  { opcode := .label, operands := [⟨.label, name⟩] }

/-- The name of the operation with the suffix of its condition. -/
def mnemonic (instruction : Instruction) : String :=
  instruction.opcode.name ++ (instruction.branch.map Condition.suffix).getD ""

/-- The operand at a signed index. An index beyond the last operand is a fault of the
instruction, one too far below the first a fault of the index. -/
def operand (instruction : Instruction) (index : Int) : Except Fault Operand :=
  if instruction.operands.length ≤ index then
    .error (.missingOperand instruction.mnemonic index instruction.operands.length)
  else
    match place instruction.operands.length index with
    | .ok p => .ok (instruction.operands.get p)
    | .error cause => .error (.badIndex cause)

/-- The instruction as a source line. -/
def text (instruction : Instruction) : String :=
  match instruction.opcode, instruction.operands with
  | .label, name :: _ => name.raw ++ ":"
  | _, [] => instruction.mnemonic
  | _, operands => instruction.mnemonic ++ " " ++ ", ".intercalate (operands.map Operand.text)

/-- Counting from the first operand, an operand is there or missing. -/
theorem operand_natCast (instruction : Instruction) (n : Nat) :
    instruction.operand n = match instruction.operands[n]? with
      | some operand => .ok operand
      | none => .error (.missingOperand instruction.mnemonic n instruction.operands.length) := by
  by_cases short : instruction.operands.length ≤ n
  · rw [List.getElem?_eq_none short, operand, if_pos (by omega)]
  · have bound : n < instruction.operands.length := by omega
    have found := place_val ⟨n, bound⟩
    rw [List.getElem?_eq_getElem bound, operand, if_neg (by omega)]
    simp only at found
    rw [found]
    rfl

end Instruction

end ByteMachine
