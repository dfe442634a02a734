import ByteMachine.Text.Quoted

/-!
# Strict decoding of UTF-8

`decode` accepts exactly the well-formed texts. For every other sequence of bytes
`firstFault` walks over it once and tells where the first character goes wrong:
the fault covers the longest start of a character that was still possible.
-/
namespace ByteMachine.Text.Utf8

/-- What is wrong with the bytes of a character. -/
inductive Reason where
  | badStart
  | badContinuation
  | truncated
  deriving DecidableEq, Repr

def Reason.text : Reason → String
  | .badStart => "invalid start byte"
  | .badContinuation => "invalid continuation byte"
  | .truncated => "unexpected end of data"

/-- The bytes from `start` up to, not including, `stop` are no character. -/
structure Fault where
  byte : UInt8
  start : Nat
  stop : Nat
  reason : Reason
  deriving DecidableEq, Repr

/-- A fault of one byte names the byte, a longer one its first and last position. -/
def Fault.message (fault : Fault) : String :=
  let place :=
    if fault.stop = fault.start + 1 then
      s!"byte 0x{hexadecimal 2 fault.byte.toNat} in position {fault.start}"
    else s!"bytes in position {fault.start}-{fault.stop - 1}"
  s!"'utf-8' codec can't decode {place}: {fault.reason.text}"

/-- What has to follow: so many continuation bytes, the next of them within the bounds. -/
structure Owed where
  count : Nat
  low : UInt8
  high : UInt8
  deriving DecidableEq, Repr

/-- What a first byte owes; `none` if no character starts with it. -/
def owedBy (byte : UInt8) : Option Owed :=
  if byte < 0x80 then some ⟨0, 0x80, 0xbf⟩
  else if byte < 0xc2 then none
  else if byte < 0xe0 then some ⟨1, 0x80, 0xbf⟩
  else if byte = 0xe0 then some ⟨2, 0xa0, 0xbf⟩
  else if byte = 0xed then some ⟨2, 0x80, 0x9f⟩
  else if byte < 0xf0 then some ⟨2, 0x80, 0xbf⟩
  else if byte = 0xf0 then some ⟨3, 0x90, 0xbf⟩
  else if byte < 0xf4 then some ⟨3, 0x80, 0xbf⟩
  else if byte = 0xf4 then some ⟨3, 0x80, 0x8f⟩
  else none

/-- Walk over the bytes from a position on. `first` and `start` are the first byte of the
character under way and its position. A text in which nothing is wrong ends with an empty
range behind its last byte. -/
def faultFrom (first : UInt8) (start : Nat) (owed : Owed) (position : Nat) : List UInt8 → Fault
  | [] => if owed.count = 0 then ⟨0, position, position, .truncated⟩
      else ⟨first, start, position, .truncated⟩
  | byte :: rest =>
    if owed.count = 0 then
      match owedBy byte with
      | none => ⟨byte, position, position + 1, .badStart⟩
      | some next => faultFrom byte position next (position + 1) rest
    else if owed.low ≤ byte && byte ≤ owed.high then
      faultFrom first start ⟨owed.count - 1, 0x80, 0xbf⟩ (position + 1) rest
    else ⟨first, start, position, .badContinuation⟩

/-- The first fault of bytes that are not well formed. -/
def firstFault (bytes : ByteArray) : Fault :=
  faultFrom 0 0 ⟨0, 0x80, 0xbf⟩ 0 bytes.toList

/-- The text that the bytes encode. -/
def decode (bytes : ByteArray) : Except Fault String :=
  match String.fromUTF8? bytes with
  | some text => .ok text
  | none => .error (firstFault bytes)

theorem decode_toUTF8 (text : String) : decode text.toUTF8 = .ok text := by
  have valid : text.toUTF8.IsValidUTF8 := text.isValidUTF8
  rw [decode, String.fromUTF8?, dif_pos valid]
  rfl

end ByteMachine.Text.Utf8
