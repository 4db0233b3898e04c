/-
The characters of a byte string, `[]rune(s)`, and when enough bytes of one are there.

Encoding is undone by decoding whatever follows the bytes.  The other direction holds only of
UTF-8: a byte that belongs to no character decodes to the replacement character, which three
other bytes encode.
-/
import VMSmith.Lib.Fields
import Mathlib.Tactic.SplitIfs

namespace Go

/-! ### Decoding what was encoded -/

theorem runeLength_eq (b : UInt8) : runeLength b =
    if b.toNat < 0x80 then 1
    else if b.toNat < 0xC2 then 0
    else if b.toNat < 0xE0 then 2
    else if b.toNat < 0xF0 then 3
    else if b.toNat ≤ 0xF4 then 4
    else 0 := by
  unfold runeLength
  simp only [UInt8.lt_iff_toNat_lt, UInt8.le_iff_toNat_le]
  rfl

theorem secondByte_iff (first b : UInt8) : secondByte first b = true ↔
    (if first.toNat = 0xE0 then 0xA0 else if first.toNat = 0xF0 then 0x90 else 0x80) ≤ b.toNat ∧
    b.toNat ≤ (if first.toNat = 0xED then 0x9F else if first.toNat = 0xF4 then 0x8F else 0xBF) := by
  have hfirst : ∀ n : UInt8, (first = n ↔ first.toNat = n.toNat) := fun n => UInt8.toNat_inj.symm
  unfold secondByte
  simp only [hfirst]
  split_ifs <;> simp_all [UInt8.le_iff_toNat_le]

theorem toNat_charOfNat {n : Nat} (h : n < 0xD800 ∨ 0xDFFF < n ∧ n < 0x110000) :
    (Char.ofNat n).toNat = n := by
  have hvalid : n.isValidChar := h
  unfold Char.ofNat
  rw [dif_pos hvalid]
  rfl

/-- Bytes that are not ASCII are decoded to characters that are not. -/
theorem le_decodeRune {b : UInt8} (hb : 0x80 ≤ b.toNat) (x : Bytes) :
    0x80 ≤ (decodeRune b x).1.toNat := by
  have herror : 0x80 ≤ runeError.toNat := by decide
  have hlt := b.toNat_lt
  have htail : ∀ {c : UInt8}, secondByte 0 c = true → 0x80 ≤ c.toNat ∧ c.toNat ≤ 0xBF := by
    intro c hc
    rw [secondByte_iff] at hc
    exact hc
  have hsecond : ∀ {c : UInt8}, secondByte b c = true → 0x80 ≤ c.toNat ∧ c.toNat ≤ 0xBF ∧
      (b.toNat = 0xE0 → 0xA0 ≤ c.toNat) ∧ (b.toNat = 0xF0 → 0x90 ≤ c.toNat) ∧
      (b.toNat = 0xED → c.toNat ≤ 0x9F) ∧ (b.toNat = 0xF4 → c.toNat ≤ 0x8F) := by
    intro c hc
    rw [secondByte_iff] at hc
    split_ifs at hc <;> omega
  have hlength := runeLength_eq b
  unfold decodeRune
  split
  next h1 =>
    rw [h1] at hlength
    split_ifs at hlength <;> omega
  next b₁ _ h2 =>
    split
    · next h =>
      have h₁ := hsecond h
      rw [h2] at hlength
      rw [toNat_charOfNat] <;> (split_ifs at hlength <;> omega)
    · exact herror
  next b₁ b₂ _ h3 =>
    split
    · next h =>
      rw [Bool.and_eq_true] at h
      have h₁ := hsecond h.1
      have h₂ := htail h.2
      rw [h3] at hlength
      rw [toNat_charOfNat] <;> (split_ifs at hlength <;> omega)
    · exact herror
  next b₁ b₂ b₃ _ h4 =>
    split
    · next h =>
      rw [Bool.and_eq_true, Bool.and_eq_true] at h
      have h₁ := hsecond h.1.1
      have h₂ := htail h.1.2
      have h₃ := htail h.2
      rw [h4] at hlength
      rw [toNat_charOfNat] <;> (split_ifs at hlength <;> omega)
    · exact herror
  next => exact herror

/-- Only an ASCII byte is decoded to an ASCII character. -/
theorem of_decodeRune_ascii {a : UInt8} (ha : a < 0x80) {b : UInt8} {x : Bytes}
    (h : (decodeRune b x).1 = Char.ofNat a.toNat) : b = a := by
  have ha' : a.toNat < 0x80 := UInt8.lt_iff_toNat_lt.mp ha
  have hvalue : (decodeRune b x).1.toNat = a.toNat := by
    rw [h, toNat_charOfNat (Or.inl (by omega))]
  by_cases hb : b < 0x80
  · have hb' : b.toNat < 0x80 := UInt8.lt_iff_toNat_lt.mp hb
    rw [decodeRune_ascii hb, toNat_charOfNat (Or.inl (by omega))] at hvalue
    exact UInt8.toNat_inj.mp hvalue
  · have hnot : 0x80 ≤ b.toNat := by
      rw [UInt8.lt_iff_toNat_lt] at hb
      exact not_lt.mp hb
    have hle := le_decodeRune hnot x
    omega

/-! ### One character a byte -/

/-- The text that has a character for every byte.  It is read as a number where the bytes
are. -/
def latin1 (s : Bytes) : String := String.ofList (s.map fun b => Char.ofNat b.toNat)

/-- An ASCII text has the bytes of its characters. -/
theorem latin1_ascii {s : String} (h : ∀ c ∈ s.toList, c.toNat < 0x80) : latin1 (ascii s) = s := by
  have hbyte : ∀ c ∈ s.toList, Char.ofNat c.toNat.toUInt8.toNat = c := by
    intro c hc
    have hlt := h c hc
    have hnat : c.toNat.toUInt8.toNat = c.toNat := by
      rw [Nat.toUInt8_eq, UInt8.toNat_ofNat']
      omega
    rw [hnat, Char.ofNat_toNat]
  rw [latin1, ascii, List.map_map, List.map_congr_left (f := _ ∘ _) (g := id) hbyte, List.map_id,
    String.ofList_toList]

/-- A byte below 0x80 is a character of its own. -/
theorem eq_of_mem_utf8EncodeChar {c : Char} {b : UInt8} (hb : b ∈ String.utf8EncodeChar c)
    (hlow : b.toNat < 0x80) : c.toNat = b.toNat := by
  have hcode : c.val.toNat = c.toNat := rfl
  have hnat : ∀ n : Nat, (UInt8.ofNat n).toNat = n % 256 := fun n => UInt8.toNat_ofNat'
  revert hb
  fun_cases String.utf8EncodeChar with
  | case1 v h =>
      intro hb
      rw [List.mem_singleton.mp hb, hnat]
      omega
  | case2 v h h' =>
      intro hb
      simp only [List.mem_cons, List.not_mem_nil, or_false] at hb
      rcases hb with rfl | rfl <;> rw [hnat] at hlow <;> omega
  | case3 v h h' h'' =>
      intro hb
      simp only [List.mem_cons, List.not_mem_nil, or_false] at hb
      rcases hb with rfl | rfl | rfl <;> rw [hnat] at hlow <;> omega
  | case4 v h h' h'' =>
      intro hb
      simp only [List.mem_cons, List.not_mem_nil, or_false] at hb
      rcases hb with rfl | rfl | rfl | rfl <;> rw [hnat] at hlow <;> omega

theorem utf8_ascii {s : String} (h : ∀ c ∈ s.toList, c.toNat < 0x80) : utf8 s.toList = ascii s := by
  have hchar : ∀ c : Char, c.toNat < 0x80 → String.utf8EncodeChar c = [c.toNat.toUInt8] := by
    intro c hc
    have hval : c.val.toNat ≤ 127 := Nat.le_of_lt_succ hc
    unfold String.utf8EncodeChar
    simp only [if_pos hval]
    rfl
  unfold ascii
  generalize s.toList = cs at h
  induction cs with
  | nil => rfl
  | cons c cs ih =>
      rw [utf8_cons, List.map_cons, hchar c (h c List.mem_cons_self),
        ih fun d hd => h d (List.mem_cons_of_mem c hd)]
      rfl

/-! ### Characters -/

/-- `utf8.FullRune`, of bytes that are not empty: whether a whole character is there, or bytes
that begin none. -/
def fullRune (first : UInt8) (rest : Bytes) : Bool :=
  if runeLength first ≤ rest.length + 1 then true
  else
    match rest with
    | [] => false
    | b₁ :: rest =>
        if secondByte first b₁ then
          match rest with
          | [] => false
          | b₂ :: _ => !secondByte 0 b₂
        else true

/-- An ASCII byte leaves no doubt about what comes before it. -/
theorem fullRune_append_ascii {a : UInt8} (ha : a < 0x80) (b : UInt8) (x y : Bytes) :
    fullRune b (x ++ a :: y) = true := by
  have hsecond := secondByte_ascii ha
  have hlength : runeLength b ≤ 4 := by
    rw [runeLength_eq]
    split_ifs <;> omega
  unfold fullRune
  rcases x with _ | ⟨b₁, _ | ⟨b₂, _ | ⟨b₃, x⟩⟩⟩
  · simp [hsecond]
  · simp [hsecond]
  · rw [if_pos]
    simp; omega
  · rw [if_pos]
    simp; omega

/-- The characters of some bytes, where `skip` bytes of the last one are still to come. -/
def runesFrom : Nat → Bytes → List Char
  | _, [] => []
  | skip + 1, _ :: rest => runesFrom skip rest
  | 0, b :: rest =>
      let (c, width) := decodeRune b rest
      c :: runesFrom (width - 1) rest

/-- `[]rune(s)`. -/
def runes (s : Bytes) : List Char := runesFrom 0 s

@[simp] theorem runes_nil : runes [] = [] := rfl

theorem runesFrom_eq (skip : Nat) (s : Bytes) : runesFrom skip s = runes (s.drop skip) := by
  induction s generalizing skip with
  | nil => cases skip <;> rfl
  | cons b s ih =>
      cases skip with
      | zero => rfl
      | succ skip => rw [runesFrom, ih, List.drop_succ_cons]

theorem runes_cons (b : UInt8) (rest : Bytes) :
    runes (b :: rest) = (decodeRune b rest).1 :: runes (rest.drop ((decodeRune b rest).2 - 1)) := by
  rw [runes, runesFrom]
  dsimp only
  rw [runesFrom_eq]

end Go
