/-!
# Likeness of words

Two words are alike when enough of their characters can be matched. The longest
block that both have in common is matched first, and then, in the same way, what
stands before it in both words and what stands behind it. Of several longest
blocks the first one counts.
-/
namespace ByteMachine.Text

/-- How many characters two words share at their start. -/
def sharedStart : List Char → List Char → Nat
  | a :: as, b :: bs => if a = b then sharedStart as bs + 1 else 0
  | _, _ => 0

/-- A block that two words have in common: where it starts in each, and its length. -/
structure Block where
  left : Nat
  right : Nat
  size : Nat
  deriving DecidableEq, Repr

/-- The longer one of a block and those that start at a fixed place of the left word, where the
right word is walked through from a place on. -/
def longerAt (left : Nat) (word : List Char) (right : Nat) (best : Block) : List Char → Block
  | [] => best
  | c :: rest =>
    let size := sharedStart word (c :: rest)
    longerAt left word (right + 1) (if best.size < size then ⟨left, right, size⟩ else best) rest

/-- The longer one of a block and those that start at a place of the left word or behind it. -/
def longerFrom (other : List Char) (left : Nat) (best : Block) : List Char → Block
  | [] => best
  | c :: rest => longerFrom other (left + 1) (longerAt left (c :: rest) 0 best other) rest

/-- The first of the longest blocks of two words. -/
def longestBlock (a b : List Char) : Block := longerFrom b 0 ⟨0, 0, 0⟩ a

/-- How many characters are matched, with at most so many blocks inside one another. -/
def matchedWithin : Nat → List Char → List Char → Nat
  | 0, _, _ => 0
  | depth + 1, a, b =>
    let block := longestBlock a b
    if block.size = 0 then 0
    else
      matchedWithin depth (a.take block.left) (b.take block.right) + block.size +
        matchedWithin depth (a.drop (block.left + block.size)) (b.drop (block.right + block.size))

/-- How many characters of two words are matched. Every block takes a character of the first
word, so there are no more of them than it has characters. -/
def matched (a b : List Char) : Nat := matchedWithin a.length a b

/-- The matched characters make up three fifths of both words, or more. -/
def alike (a b : String) : Bool :=
  3 * (a.length + b.length) ≤ 10 * matched a.toList b.toList

end ByteMachine.Text
