import ByteMachine.Indexing
import ByteMachine.Operand
import ByteMachine.Text.Quoted

/-!
# Faults of a running program

The causes for which an instruction, or a whole run, comes to a stop. `message`
holds the wording. The text of a fault is made when the fault is raised; if it
names a number that cannot be written, this is the fault instead.
-/
namespace ByteMachine

inductive Fault where
  /-- The instruction has no operand at this index. -/
  | missingOperand (mnemonic : String) (index : Int) (count : Nat)
  | wrongKind (mnemonic : String) (index : Nat) (expected : List OperandKind) (kind : OperandKind)
  | notNumeral (mnemonic : String) (index : Nat) (raw : String)
  /-- A numeral has more digits than are read. -/
  | numeralTooLong (digits : Nat)
  | noRegister (index : Int)
  | noAddress (address : Int)
  | unknownLabel (name : String)
  /-- An index into the operands or into the program names no place. -/
  | badIndex (cause : IndexFault)
  /-- There is no instruction at the current line. -/
  | overrun (line : Int) (size : Nat)
  | stepLimit (steps : Int)
  /-- A number in a text has more digits than are written. -/
  | unwritable
  deriving DecidableEq, Repr

namespace Fault

def message : Fault → String
  | .missingOperand mnemonic index count =>
    s!"{mnemonic} expects operand #{index}, got {count} operand(s)"
  | .wrongKind mnemonic index expected kind =>
    let names := " or ".intercalate (expected.map OperandKind.name)
    s!"{mnemonic} operand #{index} must be {names}, got {kind.name}"
  | .notNumeral mnemonic index raw =>
    s!"{mnemonic} operand #{index}: {Text.quoted raw} is not a non-negative integer"
  | .numeralTooLong digits =>
    s!"Exceeds the limit ({Numeral.digitLimit} digits) for integer string conversion: value has " ++
      s!"{digits} digits; use sys.set_int_max_str_digits() to increase the limit"
  | .noRegister index => s!"No register R{index}"
  | .noAddress address => s!"Memory address {address} out of range"
  | .unknownLabel name => s!"Unknown label {name}"
  | .badIndex cause => cause.message
  | .overrun line size => s!"No instruction at line {line} (program has {size}), missing HALT?"
  | .stepLimit steps => s!"Not halted after {steps} instructions"
  | .unwritable =>
    s!"Exceeds the limit ({Numeral.digitLimit} digits) for integer string conversion; " ++
      "use sys.set_int_max_str_digits() to increase the limit"

/-- Whether the number that a fault names can be written. -/
def isWritable : Fault → Bool
  | .missingOperand _ index _ => Numeral.writable index
  | .noRegister index => Numeral.writable index
  | .noAddress address => Numeral.writable address
  | .overrun line size => Numeral.writableLine size line
  | .stepLimit steps => Numeral.writable steps
  | _ => true

/-- The fault that is raised for a cause. -/
def told (cause : Fault) : Fault := if cause.isWritable then cause else .unwritable

end Fault

end ByteMachine
