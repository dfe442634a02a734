/-!
# Lines of a text

A line ends at a newline, a carriage return, the pair of both, or one of eight
further characters that Unicode and ASCII know as separators of lines. What
follows the last line end is a line of its own only if it is not empty.
-/
namespace ByteMachine.Text

/-- Code points that end a line on their own. -/
def lineEnds : List Nat :=
  [0x0a, 0x0b, 0x0c, 0x0d, 0x1c, 0x1d, 0x1e, 0x85, 0x2028, 0x2029]

def isLineEnd (c : Char) : Bool := lineEnds.contains c.toNat

/-- Lines read so far (last one first), then the characters of the line under way (last one
first), then the rest of the text. -/
def linesFrom (done : List String) (line : List Char) : List Char → List String
  | [] => if line.isEmpty then done.reverse else (String.ofList line.reverse :: done).reverse
  | '\r' :: '\n' :: rest => linesFrom (String.ofList line.reverse :: done) [] rest
  | c :: rest =>
    if isLineEnd c then linesFrom (String.ofList line.reverse :: done) [] rest
    else linesFrom done (c :: line) rest

/-- The lines of a text, without their ends. -/
def lines (text : String) : List String := linesFrom [] [] text.toList

end ByteMachine.Text
