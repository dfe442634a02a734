import ByteMachine.SourceLine

/-!
# Listings

A program is read line by line, each line one instruction, up to the first line
that is none. A listing keeps what was accepted before it, so that a program
with a mistake can still be reported on.
-/
namespace ByteMachine

/-- The instructions of a program, by line number. -/
abbrev Program := Array Instruction

/-- A line of the source, as it stands there. -/
structure SourcePlace where
  number : Nat
  line : String
  deriving DecidableEq, Repr

/-- A line that was refused. -/
structure Rejection where
  cause : SyntaxFault
  place : Option SourcePlace := none
  deriving DecidableEq, Repr

namespace Rejection

/-- A mistake at a known line. Only a mistake of the line itself is given a place. -/
def locate (number : Nat) (line : String) (cause : SyntaxFault) : Rejection :=
  ⟨cause, if cause.concernsLine then some ⟨number, line⟩ else none⟩

def message? (rejection : Rejection) : Option String := do
  let text ← rejection.cause.message?
  match rejection.place with
  | none => return text
  | some place => return s!"Line {place.number}: {text} ({Text.quoted place.line})"

end Rejection

/-- What came of reading lines: the accepted instructions and, if the reading stopped early,
the reason. -/
structure Listing where
  accepted : Program
  rejection : Option Rejection
  deriving DecidableEq, Repr

namespace Listing

/-- Read lines after those that have been accepted. -/
def readFrom (accepted : Program) : List String → Listing
  | [] => ⟨accepted, none⟩
  | line :: rest =>
    match SourceLine.parse line with
    | .ok instruction => readFrom (accepted.push instruction) rest
    | .error cause => ⟨accepted, some (.locate accepted.size line cause)⟩

def ofLines (lines : List String) : Listing := readFrom #[] lines

/-- The whole program, or the line that spoils it. -/
def program (listing : Listing) : Except Rejection Program :=
  match listing.rejection with
  | none => .ok listing.accepted
  | some rejection => .error rejection

end Listing

/-- The program that the lines spell. -/
def Program.parse (lines : List String) : Except Rejection Program :=
  (Listing.ofLines lines).program

end ByteMachine
