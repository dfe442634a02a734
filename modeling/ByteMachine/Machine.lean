import ByteMachine.Arithmetic
import ByteMachine.Fault
import Std.Data.ExtTreeMap

/-!
# The machine

Thirteen registers and 255 cells of memory hold bytes. Beside them the machine
keeps the flags of the last comparison, the labels it has come across, the line
of the current instruction, and how many instructions it has executed. The sizes
and the byte range are part of the types, so no operation can leave them.
-/
namespace ByteMachine

/-- The set of comparison flags. -/
structure Flags where
  eq : Bool := false
  ne : Bool := false
  lt : Bool := false
  gt : Bool := false
  deriving DecidableEq, Repr

namespace Flags

def has (flags : Flags) : Flag → Bool
  | .eq => flags.eq
  | .ne => flags.ne
  | .lt => flags.lt
  | .gt => flags.gt

def ofList (flags : List Flag) : Flags :=
  ⟨flags.contains .eq, flags.contains .ne, flags.contains .lt, flags.contains .gt⟩

/-- The flags that are set, in the order of their names. -/
def toList (flags : Flags) : List Flag := Flag.all.filter flags.has

@[simp] theorem has_ofList (flags : List Flag) (flag : Flag) :
    (ofList flags).has flag = flags.contains flag := by
  cases flag <;> rfl

end Flags

/-- The lines of the labels that have been recorded. -/
abbrev LabelTable := Std.ExtTreeMap String Int

def registerCount : Nat := 13

def memorySize : Nat := 255

structure Machine where
  registers : Vector UInt8 registerCount
  memory : Vector UInt8 memorySize
  flags : Flags
  labels : LabelTable
  pc : Int
  halted : Bool
  steps : Int
  deriving DecidableEq

/-- The cell among `size` with the given number. -/
def cell? (size : Nat) (number : Int) : Option (Fin size) :=
  if h : 0 ≤ number ∧ number < size then some ⟨number.toNat, by omega⟩ else none

theorem cell?_eq_none_iff {size : Nat} {number : Int} :
    cell? size number = none ↔ number < 0 ∨ size ≤ number := by
  simp only [cell?, dite_eq_right_iff, reduceCtorEq, imp_false]
  omega

theorem cell?_eq_some_iff {size : Nat} {number : Int} {p : Fin size} :
    cell? size number = some p ↔ number = p.val := by
  constructor
  · intro found
    simp only [cell?] at found
    split at found
    · cases found
      simp only
      omega
    · cases found
  · intro same
    subst same
    simp [cell?]

namespace Machine

/-- A machine before its first instruction. -/
def new : Machine where
  registers := Vector.replicate registerCount 0
  memory := Vector.replicate memorySize 0
  flags := {}
  labels := ∅
  pc := 0
  halted := false
  steps := 0

def readRegister (m : Machine) (index : Int) : Except Fault UInt8 :=
  match cell? registerCount index with
  | some p => .ok m.registers[p]
  | none => .error (.noRegister index)

def writeRegister (m : Machine) (index value : Int) : Except Fault Machine :=
  match cell? registerCount index with
  | some p => .ok { m with registers := m.registers.set p (wrap value) }
  | none => .error (.noRegister index)

def readMemory (m : Machine) (address : Int) : Except Fault UInt8 :=
  match cell? memorySize address with
  | some p => .ok m.memory[p]
  | none => .error (.noAddress address)

def writeMemory (m : Machine) (address value : Int) : Except Fault Machine :=
  match cell? memorySize address with
  | some p => .ok { m with memory := m.memory.set p (wrap value) }
  | none => .error (.noAddress address)

def setFlags (m : Machine) (flags : List Flag) : Machine := { m with flags := .ofList flags }

/-- The line recorded for a label. -/
def label? (m : Machine) (name : String) : Option Int := m.labels[name]?

/-- Record the line of a label, in place of an earlier one. -/
def recordLabel (m : Machine) (name : String) (line : Int) : Machine :=
  { m with labels := m.labels.insert name line }

def jump (m : Machine) (line : Int) : Machine := { m with pc := line }

/-- After a register has been written, it holds the byte and the others are as before. -/
theorem readRegister_of_writeRegister {m after : Machine} {index value : Int}
    (h : m.writeRegister index value = .ok after) (other : Int) :
    after.readRegister other = if index = other then .ok (wrap value) else m.readRegister other := by
  cases written : cell? registerCount index with
  | none => simp [writeRegister, written] at h
  | some p =>
    simp only [writeRegister, written, Except.ok.injEq] at h
    subst h
    have place := cell?_eq_some_iff.1 written
    by_cases same : index = other
    · subst same
      simp [readRegister, written]
    · cases found : cell? registerCount other with
      | none => simp [readRegister, found, same]
      | some q =>
        have apart : p.val ≠ q.val := by
          have := cell?_eq_some_iff.1 found
          omega
        simp [readRegister, found, same, apart]

/-- After a cell has been written, it holds the byte and the others are as before. -/
theorem readMemory_of_writeMemory {m after : Machine} {address value : Int}
    (h : m.writeMemory address value = .ok after) (other : Int) :
    after.readMemory other = if address = other then .ok (wrap value) else m.readMemory other := by
  cases written : cell? memorySize address with
  | none => simp [writeMemory, written] at h
  | some p =>
    simp only [writeMemory, written, Except.ok.injEq] at h
    subst h
    have place := cell?_eq_some_iff.1 written
    by_cases same : address = other
    · subst same
      simp [readMemory, written]
    · cases found : cell? memorySize other with
      | none => simp [readMemory, found, same]
      | some q =>
        have apart : p.val ≠ q.val := by
          have := cell?_eq_some_iff.1 found
          omega
        simp [readMemory, found, same, apart]

theorem label?_recordLabel (m : Machine) (name other : String) (line : Int) :
    (m.recordLabel name line).label? other = if name = other then some line else m.label? other := by
  simp [label?, recordLabel, Std.ExtTreeMap.getElem?_insert]

end Machine

end ByteMachine
