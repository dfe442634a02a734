/-!
# Numerals

A numeral is a non-empty run of decimal digits, followed by nothing but layout
characters up to the end of the text. The run may not be longer than
`digitLimit`; a longer one is refused as soon as it has been read, whatever
follows it. The same limit holds for numbers that are written.
-/
namespace ByteMachine

/-- The space, the tab and the two newline characters. -/
def isLayout (c : Char) : Bool := c = ' ' || c = '\t' || c = '\n' || c = '\r'

namespace Numeral

/-- The longest run of digits that is read as a number, leading zeros included. -/
def digitLimit : Nat := 4300

/-- Why a text has no value as a numeral. -/
inductive Fault where
  | malformed
  | tooLong (digits : Nat)
  deriving DecidableEq, Repr

/-- The value of a numeral given by its characters. -/
def valueOf (cs : List Char) : Except Fault Nat :=
  let digits := cs.takeWhile Char.isDigit
  let rest := cs.dropWhile Char.isDigit
  if digits.isEmpty then .error .malformed
  else if digitLimit < digits.length then .error (.tooLong digits.length)
  else if rest.all isLayout then .ok (Nat.ofDigitChars 10 digits 0)
  else .error .malformed

/-- The value of a numeral. -/
def parse (text : String) : Except Fault Nat := valueOf text.toList

/-- Whether the text is a numeral. A run of digits that is too long is neither. -/
def accepts (text : String) : Except Fault Bool :=
  match parse text with
  | .ok _ => .ok true
  | .error .malformed => .ok false
  | .error (.tooLong digits) => .error (.tooLong digits)

/-- Whether a number can be written: it may have as many digits as are read, and a sign. -/
def writable (n : Int) : Bool := (Nat.toDigits 10 n.natAbs).length ≤ digitLimit

/-- Whether a line number can be written. No program has so many lines that one of them could not
be named. -/
def writableLine (size : Nat) (line : Int) : Bool := line.natAbs ≤ size || writable line

end Numeral

end ByteMachine
