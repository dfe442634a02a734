import ByteMachine.Text.Utf8
import Mathlib.Tactic.SplitIfs

/-!
# Well-formed encodings

Which bytes are text can be said byte by byte: a first byte tells how many bytes
continue the character, and for four of the first bytes the second has a
narrower range, so that no character has a longer form than it needs, none is a
surrogate and none lies beyond the last code point. `Text.Utf8.decode` accepts
the well-formed bytes and no others.
-/
namespace ByteMachine.Text.Utf8

/-- A byte that continues a character. -/
def Continues (byte : UInt8) : Prop := 0x80 ≤ byte.toNat ∧ byte.toNat ≤ 0xbf

/-- The bytes of one character. -/
inductive Character : List UInt8 → Prop where
  | one {a : UInt8} (first : a.toNat ≤ 0x7f) : Character [a]
  | two {a b : UInt8} (first : 0xc2 ≤ a.toNat ∧ a.toNat ≤ 0xdf) (second : Continues b) :
      Character [a, b]
  | three {a b c : UInt8} (first : 0xe0 ≤ a.toNat ∧ a.toNat ≤ 0xef) (second : Continues b)
      (third : Continues c) (shortest : a.toNat = 0xe0 → 0xa0 ≤ b.toNat)
      (scalar : a.toNat = 0xed → b.toNat ≤ 0x9f) : Character [a, b, c]
  | four {a b c d : UInt8} (first : 0xf0 ≤ a.toNat ∧ a.toNat ≤ 0xf4) (second : Continues b)
      (third : Continues c) (fourth : Continues d) (shortest : a.toNat = 0xf0 → 0x90 ≤ b.toNat)
      (bounded : a.toNat = 0xf4 → b.toNat ≤ 0x8f) : Character [a, b, c, d]

/-- Bytes that are characters one after the other. -/
inductive WellFormed : List UInt8 → Prop where
  | nil : WellFormed []
  | cons {bytes rest : List UInt8} (character : Character bytes) (more : WellFormed rest) :
      WellFormed (bytes ++ rest)

/-- A character is encoded as one. -/
theorem character_utf8EncodeChar (c : Char) : Character (String.utf8EncodeChar c) := by
  have hvalid : c.val.toNat < 0xd800 ∨ (0xdfff < c.val.toNat ∧ c.val.toNat < 0x110000) := c.valid
  fun_cases String.utf8EncodeChar c with
  | case1 v h1 =>
    refine .one ?_
    rw [UInt8.toNat_ofNat']
    omega
  | case2 v h1 h2 =>
    refine .two ?_ ?_
    · rw [UInt8.toNat_ofNat']
      omega
    · rw [Continues, UInt8.toNat_ofNat']
      omega
  | case3 v h1 h2 h3 =>
    refine .three ?_ ?_ ?_ ?_ ?_ <;> simp only [Continues, UInt8.toNat_ofNat']
    all_goals omega
  | case4 v h1 h2 h3 =>
    refine .four ?_ ?_ ?_ ?_ ?_ ?_ <;> simp only [Continues, UInt8.toNat_ofNat']
    all_goals omega

/-- Every code point but the surrogates is that of a character. -/
theorem exists_char {n : Nat} (h : n < 0xd800 ∨ (0xdfff < n ∧ n < 0x110000)) :
    ∃ c : Char, c.val.toNat = n :=
  ⟨Char.ofNatAux n h, rfl⟩

theorem ofNat_eq {byte : UInt8} {n : Nat} (h : n = byte.toNat) : UInt8.ofNat n = byte := by
  rw [h, UInt8.ofNat_toNat]

/-- The bytes of a character are the encoding of one. -/
theorem Character.exists_utf8EncodeChar {bytes : List UInt8} (h : Character bytes) :
    ∃ c : Char, String.utf8EncodeChar c = bytes := by
  cases h with
  | @one a first =>
    obtain ⟨c, hc⟩ := @exists_char a.toNat (by omega)
    refine ⟨c, ?_⟩
    simp only [String.utf8EncodeChar, hc]
    rw [if_pos first, UInt8.ofNat_toNat]
  | @two a b first second =>
    obtain ⟨hlow, hhigh⟩ := second
    obtain ⟨c, hc⟩ := @exists_char ((a.toNat - 0xc0) * 64 + (b.toNat - 0x80)) (by omega)
    refine ⟨c, ?_⟩
    simp only [String.utf8EncodeChar, hc]
    rw [if_neg (by omega), if_pos (by omega), @ofNat_eq a _ (by omega), @ofNat_eq b _ (by omega)]
  | @three a b c first second third shortest scalar =>
    obtain ⟨hlow, hhigh⟩ := second
    obtain ⟨hlow', hhigh'⟩ := third
    obtain ⟨char, hchar⟩ := @exists_char
      ((a.toNat - 0xe0) * 4096 + (b.toNat - 0x80) * 64 + (c.toNat - 0x80)) (by omega)
    refine ⟨char, ?_⟩
    simp only [String.utf8EncodeChar, hchar]
    rw [if_neg (by omega), if_neg (by omega), if_pos (by omega), @ofNat_eq a _ (by omega),
      @ofNat_eq b _ (by omega), @ofNat_eq c _ (by omega)]
  | @four a b c d first second third fourth shortest bounded =>
    obtain ⟨hlow, hhigh⟩ := second
    obtain ⟨hlow', hhigh'⟩ := third
    obtain ⟨hlow'', hhigh''⟩ := fourth
    obtain ⟨char, hchar⟩ := @exists_char ((a.toNat - 0xf0) * 262144 + (b.toNat - 0x80) * 4096 +
      (c.toNat - 0x80) * 64 + (d.toNat - 0x80)) (by omega)
    refine ⟨char, ?_⟩
    simp only [String.utf8EncodeChar, hchar]
    rw [if_neg (by omega), if_neg (by omega), if_neg (by omega), @ofNat_eq a _ (by omega),
      @ofNat_eq b _ (by omega), @ofNat_eq c _ (by omega), @ofNat_eq d _ (by omega)]

/-- Well-formed bytes are those of characters. -/
theorem wellFormed_iff {bytes : List UInt8} :
    WellFormed bytes ↔ ∃ cs : List Char, bytes = cs.flatMap String.utf8EncodeChar := by
  constructor
  · intro h
    induction h with
    | nil => exact ⟨[], rfl⟩
    | cons character more ih =>
      obtain ⟨c, rfl⟩ := character.exists_utf8EncodeChar
      obtain ⟨cs, rfl⟩ := ih
      exact ⟨c :: cs, rfl⟩
  · rintro ⟨cs, rfl⟩
    induction cs with
    | nil => exact .nil
    | cons c cs ih => exact .cons (character_utf8EncodeChar c) ih

theorem isValidUTF8_iff {bytes : ByteArray} :
    bytes.IsValidUTF8 ↔ WellFormed bytes.data.toList := by
  rw [wellFormed_iff]
  constructor
  · rintro ⟨cs, rfl⟩
    exact ⟨cs, List.toList_data_toByteArray⟩
  · rintro ⟨cs, hcs⟩
    refine ⟨cs, ByteArray.ext (Array.toList_inj.1 ?_)⟩
    rw [hcs, List.utf8Encode, List.toList_data_toByteArray]

/-- Bytes are decoded exactly if they are well formed. -/
theorem exists_decode_iff {bytes : ByteArray} :
    (∃ text, decode bytes = .ok text) ↔ WellFormed bytes.data.toList := by
  rw [← isValidUTF8_iff, decode, String.fromUTF8?]
  split_ifs with hvalid
  · simp [hvalid]
  · simp [hvalid]

end ByteMachine.Text.Utf8
