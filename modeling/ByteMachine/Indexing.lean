/-!
# Signed indexing

An index counts from the start of a sequence, or from its end when it is
negative: -1 is the last place. An index that names no place is told apart by
whether a signed machine word of 64 bits could hold it at all.
-/
namespace ByteMachine

/-- Why an index names no place. -/
inductive IndexFault where
  | outOfRange
  | tooWide
  deriving DecidableEq, Repr

def IndexFault.message : IndexFault → String
  | .outOfRange => "tuple index out of range"
  | .tooWide => "cannot fit 'int' into an index-sized integer"

/-- Whether a signed word of 64 bits holds the index. -/
def fitsWord (index : Int) : Bool := Int64.minValue.toInt ≤ index && index ≤ Int64.maxValue.toInt

/-- The place among `size` that an index names. -/
def place (size : Nat) (index : Int) : Except IndexFault (Fin size) :=
  let counted := if index < 0 then index + size else index
  if h : 0 ≤ counted ∧ counted < size then .ok ⟨counted.toNat, by omega⟩
  else .error (if fitsWord index then .outOfRange else .tooWide)

/-- A place is found from its own number. -/
theorem place_val {size : Nat} (p : Fin size) : place size p.val = .ok p := by
  simp [place, Int.not_lt.2 (Int.natCast_nonneg p.val)]

end ByteMachine
