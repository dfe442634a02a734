/-!
# Readers

A reader takes what it knows from the front of a text and leaves the rest, or it
fails. Readers can be put one after the other. Of two alternatives the first one
that succeeds is taken, and the choice is not made again if something later
fails.
-/
namespace ByteMachine.Text

/-- What is found in front of a text, with what is left of it. -/
abbrev Reader := StateT (List Char) Option

namespace Reader

/-- This character. -/
def char (c : Char) : Reader Unit := fun cs =>
  match cs with
  | [] => none
  | first :: rest => if first = c then some ((), rest) else none

/-- All that stands before the end of the line. There may be nothing. -/
def restOfLine : Reader (List Char) := fun cs =>
  some (cs.takeWhile (· ≠ '\n'), cs.dropWhile (· ≠ '\n'))

/-- The characters of a class, as many as there are. -/
def skip (p : Char → Bool) : Reader Unit := fun cs => some ((), cs.dropWhile p)

/-- The end of the text. -/
def endOfText : Reader Unit := fun cs => if cs.isEmpty then some ((), cs) else none

end Reader

end ByteMachine.Text
