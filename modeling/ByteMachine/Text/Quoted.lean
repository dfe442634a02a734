import ByteMachine.Text.Printable

/-!
# Quoted text

Messages show a piece of source text between quotation marks, with every
character that could be misread written as an escape. The mark is the single
one, unless the text holds single marks and no double ones.
-/
namespace ByteMachine.Text

def singleMark : Char := '\x27'

def doubleMark : Char := '\x22'

/-- The mark that surrounds a text. -/
def quoteMark (cs : List Char) : Char :=
  if cs.contains singleMark && !cs.contains doubleMark then doubleMark else singleMark

/-- The number in lower case hexadecimal, filled with zeros up to the width. -/
def hexadecimal (width n : Nat) : String :=
  let digits := Nat.toDigits 16 n
  String.ofList (List.replicate (width - digits.length) '0' ++ digits)

/-- The shortest of the three numeric escapes that can name the character. -/
def numericEscape (c : Char) : String :=
  if c.toNat ≤ 0xff then "\\x" ++ hexadecimal 2 c.toNat
  else if c.toNat ≤ 0xffff then "\\u" ++ hexadecimal 4 c.toNat
  else "\\U" ++ hexadecimal 8 c.toNat

/-- How a character is written between two marks. -/
def escape (mark c : Char) : String :=
  if c = mark || c = '\\' then String.ofList ['\\', c]
  else if c = '\n' then "\\n"
  else if c = '\r' then "\\r"
  else if c = '\t' then "\\t"
  else if isPrintable c then c.toString
  else numericEscape c

/-- The text between marks, escaped. -/
def quoted (text : String) : String :=
  let mark := quoteMark text.toList
  String.singleton mark ++ String.join (text.toList.map (escape mark)) ++ String.singleton mark

end ByteMachine.Text
