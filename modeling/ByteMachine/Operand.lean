import ByteMachine.Numeral
import ByteMachine.Text.Reader

/-!
# Operands

The first character of an operand tells its kind: `R` starts a register, `#` an
immediate value, everything else is a memory address. A lone `B` refers to a
label. The kind's mark is not kept in `raw`, and the number behind it is read
only when an instruction needs it. The kinds are tried in a fixed order, and an
operand is a memory address where it is nothing else.
-/
namespace ByteMachine

inductive OperandKind where
  | register
  | immediate
  | address
  | label
  deriving DecidableEq, Repr

def OperandKind.name : OperandKind → String
  | .register => "register"
  | .immediate => "immediate"
  | .address => "memory address"
  | .label => "label"

structure Operand where
  kind : OperandKind
  raw : String
  deriving DecidableEq, Repr

namespace Operand

/-- The operand as it stands in a source line. -/
def text (operand : Operand) : String :=
  match operand.kind with
  | .register => "R" ++ operand.raw
  | .immediate => "#" ++ operand.raw
  | .address | .label => operand.raw

open Text.Reader

/-- A lone `B`, up to the very end of the text. -/
def labelReference : Text.Reader Operand := do
  char 'B'
  endOfText
  return ⟨.label, "B"⟩

/-- The rest of a line behind the mark of a kind. -/
def marked (mark : Char) (kind : OperandKind) : Text.Reader Operand := do
  char mark
  return ⟨kind, String.ofList (← restOfLine)⟩

/-- The rest of a line as it is. -/
def unmarked : Text.Reader Operand := do
  return ⟨.address, String.ofList (← restOfLine)⟩

/-- The operand in front of a text. -/
def reader : Text.Reader Operand :=
  labelReference <|> marked 'R' .register <|> marked '#' .immediate <|> unmarked

/-- The operand in a token. Only layout may follow it. -/
def parse? (token : String) : Option Operand :=
  let whole : Text.Reader Operand := do
    let operand ← reader
    skip isLayout
    endOfText
    return operand
  whole.run' token.toList

end Operand

end ByteMachine
