import ByteMachine.Instruction
import ByteMachine.Text.Blank
import ByteMachine.Text.Split

/-!
# Source lines

A line, without the blanks around it, is empty, a label definition that ends in
a colon, or a mnemonic and operands divided by single spaces. Every operand but
the last one ends in a comma, where there is more than one. Of several mistakes
in a line the commas are reported first, then the mnemonic, then the operands.
-/
namespace ByteMachine

/-- Why a line is no instruction. -/
inductive SyntaxFault where
  | missingComma (piece : String)
  | invalidOpcode (mnemonic : String)
  | invalidBranchFlag (suffix : String)
  | malformedOperand (token : String)
  deriving DecidableEq, Repr

namespace SyntaxFault

/-- The wording of a mistake that a line makes as a line. For what an operand may look like there is
no fixed wording. -/
def message? : SyntaxFault → Option String
  | .missingComma piece => some s!"Comma missing after operand {Text.quoted piece}"
  | .invalidOpcode mnemonic => some s!"Invalid opcode {mnemonic}"
  | .invalidBranchFlag suffix => some s!"Invalid branch flag {suffix}"
  | .malformedOperand _ => none

/-- Whether the mistake is one of the line. What an operand may look like is no matter of the line
it stands in. -/
def concernsLine : SyntaxFault → Bool
  | .malformedOperand _ => false
  | _ => true

end SyntaxFault

namespace SourceLine

/-- Take the comma off every piece but the last. -/
def stripCommas : List (List Char) → Except SyntaxFault (List (List Char))
  | [] => .ok []
  | [last] => .ok [last]
  | piece :: rest =>
    if piece.getLast? = some ',' then do
      let stripped ← stripCommas rest
      return piece.dropLast :: stripped
    else .error (.missingComma (String.ofList piece))

/-- The mnemonic and the operand tokens of a line. -/
def tokens (line : String) : Except SyntaxFault (String × List String) := do
  let (mnemonic, operands) := Text.splitAt ' ' line.toList
  let stripped ← stripCommas operands
  return (String.ofList mnemonic, stripped.map String.ofList)

/-- The operation and the condition that a mnemonic stands for. Everything that starts with
`B` is a branch, with its condition in the two characters that follow. -/
def classify (mnemonic : String) : Except SyntaxFault (Opcode × Option Condition) :=
  match mnemonic.toList with
  | 'B' :: rest =>
    let suffix := String.ofList (rest.take 2)
    match Condition.ofSuffix? suffix with
    | some condition => .ok (.b, some condition)
    | none => .error (.invalidBranchFlag suffix)
  | _ =>
    match Opcode.ofName? mnemonic with
    | some opcode => .ok (opcode, none)
    | none => .error (.invalidOpcode mnemonic)

/-- The operands in a list of tokens. -/
def operands : List String → Except SyntaxFault (List Operand)
  | [] => .ok []
  | token :: rest =>
    match Operand.parse? token with
    | some operand => do
      let more ← operands rest
      return operand :: more
    | none => .error (.malformedOperand token)

/-- The instruction in a line that has no blanks at its ends. -/
def parseTrimmed (cs : List Char) : Except SyntaxFault Instruction :=
  if cs.isEmpty then .ok .blank
  else if cs.getLast? = some ':' then .ok (.defineLabel (String.ofList cs.dropLast))
  else do
    let (mnemonic, words) ← tokens (String.ofList cs)
    let (opcode, branch) ← classify mnemonic
    let operands ← operands words
    return ⟨opcode, branch, operands⟩

/-- The instruction in a line. -/
def parse (line : String) : Except SyntaxFault Instruction :=
  parseTrimmed (Text.trim line.toList)

end SourceLine

end ByteMachine
