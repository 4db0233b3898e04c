/-
Numbers as big-endian bytes.

Texts of one length stand in the order of the numbers they encode, which is what lets a
store that orders its keys as texts walk its entries by number.
-/
import VMSmith.Lib.Bytes
import Mathlib.Data.List.Lex
import Mathlib.Tactic.Ring

namespace Go

/-- The last `width` bytes of a number, the highest first. -/
def bigEndian : Nat → Nat → Bytes
  | 0, _ => []
  | width + 1, n => (n / 256 ^ width).toUInt8 :: bigEndian width n

/-- The number some bytes encode. -/
def ofBigEndian : Bytes → Nat
  | [] => 0
  | b :: rest => b.toNat * 256 ^ rest.length + ofBigEndian rest

theorem ofBigEndian_cons (b : UInt8) (rest : Bytes) :
    ofBigEndian (b :: rest) = b.toNat * 256 ^ rest.length + ofBigEndian rest := rfl

@[simp] theorem length_bigEndian (width n : Nat) : (bigEndian width n).length = width := by
  induction width with
  | zero => rfl
  | succ width ih => simp [bigEndian, ih]

theorem ofBigEndian_lt (bs : Bytes) : ofBigEndian bs < 256 ^ bs.length := by
  induction bs with
  | nil => simp [ofBigEndian]
  | cons b rest ih =>
      have hb : b.toNat < 256 := UInt8.toNat_lt b
      have hpow : 256 ^ (b :: rest).length = 256 * 256 ^ rest.length := by
        rw [List.length_cons, pow_succ, Nat.mul_comm]
      rw [hpow, ofBigEndian_cons]
      calc b.toNat * 256 ^ rest.length + ofBigEndian rest
          < b.toNat * 256 ^ rest.length + 256 ^ rest.length := by omega
        _ = (b.toNat + 1) * 256 ^ rest.length := by ring
        _ ≤ 256 * 256 ^ rest.length := Nat.mul_le_mul_right _ (by omega)

theorem ofBigEndian_bigEndian (width n : Nat) :
    ofBigEndian (bigEndian width n) = n % 256 ^ width := by
  induction width with
  | zero => simp [bigEndian, ofBigEndian, Nat.mod_one]
  | succ width ih =>
      have hbyte : (n / 256 ^ width).toUInt8.toNat = n / 256 ^ width % 256 := UInt8.toNat_ofNat'
      unfold bigEndian
      rw [ofBigEndian_cons, ih, length_bigEndian, hbyte, pow_succ, Nat.mod_mul]
      ring

/-- Bytes of one length are ordered as the numbers they encode. -/
theorem lt_iff_ofBigEndian_lt {bs cs : Bytes} (hlen : bs.length = cs.length) :
    bs < cs ↔ ofBigEndian bs < ofBigEndian cs := by
  induction bs generalizing cs with
  | nil =>
      rw [List.eq_nil_of_length_eq_zero hlen.symm]
      simp
  | cons b rest ih =>
      cases cs with
      | nil => exact absurd hlen (by simp)
      | cons c more =>
          have hlen' : rest.length = more.length := by simpa using hlen
          have hrest := ofBigEndian_lt rest
          have hmore := ofBigEndian_lt more
          rw [List.cons_lt_cons_iff, ih hlen', ofBigEndian_cons, ofBigEndian_cons]
          rw [← hlen'] at hmore ⊢
          constructor
          · rintro (h | ⟨rfl, h⟩)
            · have hb : b.toNat + 1 ≤ c.toNat := UInt8.lt_iff_toNat_lt.mp h
              calc b.toNat * 256 ^ rest.length + ofBigEndian rest
                  < (b.toNat + 1) * 256 ^ rest.length := by rw [Nat.add_one_mul]; omega
                _ ≤ c.toNat * 256 ^ rest.length := Nat.mul_le_mul_right _ hb
                _ ≤ c.toNat * 256 ^ rest.length + ofBigEndian more := Nat.le_add_right _ _
            · omega
          · intro h
            rcases Nat.lt_trichotomy b.toNat c.toNat with hlt | heq | hgt
            · exact .inl (UInt8.lt_iff_toNat_lt.mpr hlt)
            · refine .inr ⟨UInt8.toNat_inj.mp heq, ?_⟩
              rw [heq] at h
              omega
            · exfalso
              have hc : (c.toNat + 1) * 256 ^ rest.length ≤ b.toNat * 256 ^ rest.length :=
                Nat.mul_le_mul_right _ hgt
              rw [Nat.add_one_mul] at hc
              omega

theorem ofBigEndian_inj {bs cs : Bytes} (hlen : bs.length = cs.length)
    (h : ofBigEndian bs = ofBigEndian cs) : bs = cs := by
  rcases lt_trichotomy bs cs with hlt | heq | hgt
  · exact absurd ((lt_iff_ofBigEndian_lt hlen).mp hlt) (by omega)
  · exact heq
  · exact absurd ((lt_iff_ofBigEndian_lt hlen.symm).mp hgt) (by omega)

theorem bigEndian_ofBigEndian {bs : Bytes} {width : Nat} (hlen : bs.length = width) :
    bigEndian width (ofBigEndian bs) = bs := by
  refine ofBigEndian_inj (by rw [length_bigEndian, hlen]) ?_
  rw [ofBigEndian_bigEndian, ← hlen, Nat.mod_eq_of_lt (ofBigEndian_lt bs)]

end Go
