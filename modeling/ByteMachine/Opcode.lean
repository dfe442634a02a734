/-!
# Operation codes

The operations of the machine, the four comparison flags and the conditions that
a branch may carry.
-/
namespace ByteMachine

/-- Operations on a register and a second value, with the result in a register. -/
inductive ArithOp where
  | add
  | sub
  | and
  | orr
  | xor
  | lsl
  | lsr
  deriving DecidableEq, Repr

inductive Opcode where
  | arith (op : ArithOp)
  | ldr
  | str
  | mov
  | mvn
  | cmp
  | b
  | halt
  | nop
  | label
  | out
  /-- Anything that is no operation of the machine. -/
  | unknown (name : String)
  deriving DecidableEq, Repr

namespace ArithOp

def name : ArithOp → String
  | .add => "ADD"
  | .sub => "SUB"
  | .and => "AND"
  | .orr => "ORR"
  | .xor => "XOR"
  | .lsl => "LSL"
  | .lsr => "LSR"

def all : List ArithOp := [.add, .sub, .and, .orr, .xor, .lsl, .lsr]

end ArithOp

namespace Opcode

def name : Opcode → String
  | .arith op => op.name
  | .ldr => "LDR"
  | .str => "STR"
  | .mov => "MOV"
  | .mvn => "MVN"
  | .cmp => "CMP"
  | .b => "B"
  | .halt => "HALT"
  | .nop => "NOP"
  | .label => "LABEL"
  | .out => "OUT"
  | .unknown name => name

/-- The operations of the machine. -/
def known : List Opcode :=
  ArithOp.all.map .arith ++ [.ldr, .str, .mov, .mvn, .cmp, .b, .halt, .nop, .label, .out]

/-- The operation with the given name. -/
def ofName? (name : String) : Option Opcode := known.find? (·.name = name)

/-- The operation with the given name, or the name itself if there is none. -/
def ofName (name : String) : Opcode := (ofName? name).getD (.unknown name)

end Opcode

/-- What a comparison found: equal, not equal, less, greater. -/
inductive Flag where
  | eq
  | ne
  | lt
  | gt
  deriving DecidableEq, Repr

namespace Flag

def name : Flag → String
  | .eq => "EQ"
  | .ne => "NE"
  | .lt => "LT"
  | .gt => "GT"

/-- The flags in the order of their names. -/
def all : List Flag := [.eq, .gt, .lt, .ne]

def ofName? (name : String) : Option Flag := all.find? (·.name = name)

end Flag

/-- When a branch is taken. -/
inductive Condition where
  | when (flag : Flag)
  | always
  deriving DecidableEq, Repr

namespace Condition

def name : Condition → String
  | .when flag => flag.name
  | .always => "UN"

/-- What the condition adds to a mnemonic. -/
def suffix : Condition → String
  | .when flag => flag.name
  | .always => ""

def all : List Condition := .always :: Flag.all.map .when

def ofName? (name : String) : Option Condition := all.find? (·.name = name)

def ofSuffix? (suffix : String) : Option Condition := all.find? (·.suffix = suffix)

end Condition

end ByteMachine
