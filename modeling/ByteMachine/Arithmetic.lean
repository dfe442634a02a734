import ByteMachine.Opcode

/-!
# Arithmetic

Operations take a byte and a second value of any size, compute with unbounded
integers, and only the byte that is stored wraps around. A shift by eight or
more clears a byte, so nothing is shifted by more than seven.
-/
namespace ByteMachine

/-- The byte that stands for an integer: its remainder modulo 256, never negative. -/
def wrap (value : Int) : UInt8 := UInt8.ofInt value

@[simp] theorem toNat_wrap (value : Int) : ((wrap value).toNat : Int) = value % 256 := by
  simp only [wrap, UInt8.ofInt, UInt8.toNat_ofNat']
  omega

/-- The number of bits in a byte. -/
def byteBits : Nat := 8

def shiftLeft (value : Int) (count : Nat) : Int :=
  if count < byteBits then value * (1 <<< count : Nat) else 0

/-- A negative value is rounded down. -/
def shiftRight (value : Int) (count : Nat) : Int :=
  if count < byteBits then value / (1 <<< count : Nat) else 0

inductive ShiftDirection where
  | left
  | right
  deriving DecidableEq, Repr

/-- A shift by any count; there is none by a negative one. -/
def shift? (direction : ShiftDirection) (value count : Int) : Option Int :=
  if count < 0 then none
  else match direction with
    | .left => some (shiftLeft value count.toNat)
    | .right => some (shiftRight value count.toNat)

/-- The result of an operation, before it is stored. -/
def ArithOp.eval (op : ArithOp) (a b : Nat) : Int :=
  match op with
  | .add => a + b
  | .sub => a - b
  | .and => (a &&& b : Nat)
  | .orr => (a ||| b : Nat)
  | .xor => (a ^^^ b : Nat)
  | .lsl => shiftLeft a b
  | .lsr => shiftRight a b

/-- All bits of the value inverted. -/
def complement (value : Nat) : Int := -value - 1

end ByteMachine
