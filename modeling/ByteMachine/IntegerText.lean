import ByteMachine.Numeral
import ByteMachine.Text.Blank
import ByteMachine.Text.DecimalDigit

/-!
# Integers on the command line

An integer is an optional sign and decimal digits of any script, with single
underscores between digits and blanks around the whole. Beyond ASCII every blank
counts as a space; within ASCII only the six classical ones do.
-/
namespace ByteMachine.IntegerText

/-- A character beyond ASCII as the ASCII character that it stands for. -/
def toAscii (c : Char) : Char :=
  if c.toNat < 128 then c
  else if Text.isBlank c then ' '
  else match Text.digitValue? c with
    | some value => Nat.digitChar value
    | none => c

/-- The blanks of ASCII: tab, newline, vertical tab, form feed, carriage return, space. -/
def isAsciiBlank (c : Char) : Bool := c = ' ' || (9 ≤ c.toNat && c.toNat ≤ 13)

/-- The digits of a number that may have single underscores between them. -/
def ungroup : List Char → Option (List Char)
  | [] => none
  | [c] => if c.isDigit then some [c] else none
  | c :: '_' :: rest => if c.isDigit then (ungroup rest).map (c :: ·) else none
  | c :: rest => if c.isDigit then (ungroup rest).map (c :: ·) else none

/-- The value of a number without a sign. -/
def magnitude? (cs : List Char) : Option Nat := do
  let digits ← ungroup cs
  if digits.length ≤ Numeral.digitLimit then some (Nat.ofDigitChars 10 digits 0) else none

/-- The value of a number that may have a sign. -/
def signed? : List Char → Option Int
  | '+' :: rest => (magnitude? rest).map (fun n => (n : Int))
  | '-' :: rest => (magnitude? rest).map (fun n => -(n : Int))
  | cs => (magnitude? cs).map (fun n => (n : Int))

/-- The integer in a text. -/
def parse? (text : String) : Option Int :=
  let cs := (text.toList.map toAscii).dropWhile isAsciiBlank
  signed? (cs.reverse.dropWhile isAsciiBlank).reverse

end ByteMachine.IntegerText
