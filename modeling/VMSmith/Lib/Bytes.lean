/-
Byte strings, the way the source language has its strings, and the UTF-8 reading of
one.
-/
import Mathlib.Data.String.Basic

namespace Go

/-- A string of the source: its bytes, which need not be UTF-8. -/
abbrev Bytes := List UInt8

/-- The bytes of a text of ASCII characters. -/
def ascii (s : String) : Bytes := s.toList.map fun c => c.toNat.toUInt8

/-- The UTF-8 bytes of some characters. -/
def utf8 (cs : List Char) : Bytes := cs.flatMap String.utf8EncodeChar

@[simp] theorem utf8_nil : utf8 [] = [] := rfl

@[simp] theorem utf8_cons (c : Char) (cs : List Char) :
    utf8 (c :: cs) = String.utf8EncodeChar c ++ utf8 cs := rfl

/-- The number of bytes the first one announces, `0` for a byte that begins nothing. -/
def runeLength (b : UInt8) : Nat :=
  if b < 0x80 then 1
  else if b < 0xC2 then 0
  else if b < 0xE0 then 2
  else if b < 0xF0 then 3
  else if b ≤ 0xF4 then 4
  else 0

/-- The bytes that may come second after `first`. -/
def secondByte (first b : UInt8) : Bool :=
  if first = 0xE0 then 0xA0 ≤ b && b ≤ 0xBF
  else if first = 0xED then 0x80 ≤ b && b ≤ 0x9F
  else if first = 0xF0 then 0x90 ≤ b && b ≤ 0xBF
  else if first = 0xF4 then 0x80 ≤ b && b ≤ 0x8F
  else 0x80 ≤ b && b ≤ 0xBF

/-- `unicode/utf8.RuneError`. -/
def runeError : Char := '\uFFFD'

/-- `utf8.DecodeRune`, of bytes that are not empty: the first character and how many bytes
it takes.  Bytes that are no UTF-8 are passed over one at a time. -/
def decodeRune (first : UInt8) (rest : Bytes) : Char × Nat :=
  match runeLength first, rest with
  | 1, _ => (Char.ofNat first.toNat, 1)
  | 2, b₁ :: _ =>
      if secondByte first b₁ then (Char.ofNat (first.toNat % 32 * 64 + b₁.toNat % 64), 2)
      else (runeError, 1)
  | 3, b₁ :: b₂ :: _ =>
      if secondByte first b₁ && secondByte 0 b₂ then
        (Char.ofNat ((first.toNat % 16 * 64 + b₁.toNat % 64) * 64 + b₂.toNat % 64), 3)
      else (runeError, 1)
  | 4, b₁ :: b₂ :: b₃ :: _ =>
      if secondByte first b₁ && secondByte 0 b₂ && secondByte 0 b₃ then
        (Char.ofNat (((first.toNat % 8 * 64 + b₁.toNat % 64) * 64 + b₂.toNat % 64) * 64
          + b₃.toNat % 64), 4)
      else (runeError, 1)
  | _, _ => (runeError, 1)

/-- No encoded character begins another. -/
theorem utf8EncodeChar_append_inj {c c' : Char} {x y : Bytes}
    (h : String.utf8EncodeChar c ++ x = String.utf8EncodeChar c' ++ y) : c = c' ∧ x = y := by
  have hdecode : ∀ (d : Char) (z : Bytes),
      (String.utf8EncodeChar d ++ z).toByteArray.utf8DecodeChar? 0 = some d := by
    intro d z
    rw [List.toByteArray_append]
    exact ByteArray.utf8DecodeChar?_utf8EncodeChar_append
  have hc : c = c' := by
    have hsome := hdecode c x
    rw [h, hdecode c' y] at hsome
    exact (Option.some.inj hsome).symm
  subst hc
  exact ⟨rfl, List.append_cancel_left h⟩

instance uint8LinearOrder : LinearOrder UInt8 where
  le_refl _ := UInt8.le_refl _
  le_trans _ _ _ := UInt8.le_trans
  le_antisymm _ _ := UInt8.le_antisymm
  le_total := UInt8.le_total
  lt_iff_le_not_ge a b := by
    rw [UInt8.not_le]
    exact ⟨fun h => ⟨UInt8.le_of_lt h, h⟩, And.right⟩
  toDecidableLE := inferInstance

end Go
