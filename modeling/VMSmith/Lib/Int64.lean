/-
The 64-bit integers, as integers.

A shift to the left multiplies and wraps, a shift to the right divides and rounds down,
and a mask of low bits is zero on the multiples of a power of two.
-/
import Mathlib.Data.Int.Basic
import Mathlib.Algebra.GroupWithZero.Divisibility
import Mathlib.Tactic.NormNum

namespace Int64

theorem toInt_eq_toNat (x : Int64) : x.toInt = (x.toBitVec.toNat : Int).bmod (2 ^ 64) := by
  rw [← Int64.toInt_toBitVec, BitVec.toInt_eq_toNat_bmod]

section

variable {n : Int64} {k : Nat}

/-- A shift by `k` to the left. -/
theorem toInt_shiftLeft (x : Int64) (hn : BitVec.smod n.toBitVec 64 = BitVec.ofNat 64 k)
    (hk : k < 64) : (x <<< n).toInt = (x.toInt * 2 ^ k).bmod (2 ^ 64) := by
  have hcast : ((x.toBitVec.toNat <<< k : Nat) : Int) = (x.toBitVec.toNat : Int) * 2 ^ k := by
    rw [Nat.shiftLeft_eq]
    push_cast
    rfl
  have hnat : (BitVec.ofNat 64 k).toNat = k := by
    rw [BitVec.toNat_ofNat]
    exact Nat.mod_eq_of_lt (by omega)
  rw [← Int64.toInt_toBitVec, Int64.toBitVec_shiftLeft, hn, BitVec.shiftLeft_eq', hnat,
    BitVec.toInt_shiftLeft, hcast, toInt_eq_toNat, Int.bmod_mul_bmod]

/-- A shift by `k` to the right. -/
theorem toInt_shiftRight (x : Int64) (hn : BitVec.smod n.toBitVec 64 = BitVec.ofNat 64 k)
    (hk : k < 64) : (x >>> n).toInt = x.toInt / 2 ^ k := by
  have hnat : (BitVec.ofNat 64 k).toNat = k := by
    rw [BitVec.toNat_ofNat]
    exact Nat.mod_eq_of_lt (by omega)
  rw [← Int64.toInt_toBitVec, Int64.toBitVec_shiftRight, hn, BitVec.sshiftRight_eq', hnat,
    BitVec.toInt_sshiftRight, Int64.toInt_toBitVec, Int.shiftRight_eq_div_pow]
  push_cast
  rfl

end

/-- The mask of the `k` low bits. -/
theorem and_mask_eq_zero_iff (x : Int64) {mask : Int64} {k : Nat}
    (hmask : mask.toBitVec = BitVec.ofNat 64 (2 ^ k - 1)) (hk : k < 64) :
    x &&& mask = 0 ↔ x.toInt % 2 ^ k = 0 := by
  have hlt : 2 ^ k - 1 < 2 ^ 64 :=
    lt_of_le_of_lt (Nat.sub_le _ _) (Nat.pow_lt_pow_right (by decide) hk)
  have hdvd : ((2 : Int) ^ k) ∣ ((2 ^ 64 : Nat) : Int) := by
    rw [Nat.cast_pow, Nat.cast_ofNat]
    exact pow_dvd_pow 2 hk.le
  have hmod : (x.toBitVec.toNat : Int).bmod (2 ^ 64) % 2 ^ k = (x.toBitVec.toNat : Int) % 2 ^ k := by
    rw [← Int.emod_emod_of_dvd _ hdvd, Int.bmod_emod, Int.emod_emod_of_dvd _ hdvd]
  rw [← Int64.toBitVec_inj, Int64.toBitVec_and, hmask, ← BitVec.toNat_inj, BitVec.toNat_and,
    BitVec.toNat_ofNat, Nat.mod_eq_of_lt hlt, Nat.and_two_pow_sub_one_eq_mod, toInt_eq_toNat, hmod]
  show x.toBitVec.toNat % 2 ^ k = 0 ↔ _
  exact_mod_cast Iff.rfl

end Int64
