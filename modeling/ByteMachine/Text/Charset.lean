/-!
# Sets of characters

A set of characters is written as closed ranges of code points. Membership is a
walk over the ranges, so a table of a Unicode property is plain data.
-/
namespace ByteMachine.Text

/-- Closed ranges of code points. -/
abbrev Charset := List (Nat × Nat)

/-- A character is in the set when one of the ranges holds its code point. -/
def Charset.contains (set : Charset) (c : Char) : Bool :=
  set.any fun range => range.1 ≤ c.toNat && c.toNat ≤ range.2

end ByteMachine.Text
