import Mathlib.Data.Nat.Bitwise

/-!
# 64-bit registers as numbers

What the register operations of a copy loop do to the numbers they hold: signed comparisons
below `2 ^ 63`, masks of low bits, shifts, and pointers and counts that are stepped.
-/

set_option autoImplicit false

namespace Libsysve.Word64

theorem slt_iff {a b : BitVec 64} (ha : a.toNat < 2 ^ 63) (hb : b.toNat < 2 ^ 63) :
    a.slt b = true ↔ a.toNat < b.toNat := by
  rw [BitVec.slt_iff_toInt_lt, BitVec.toInt_eq_toNat_of_lt (by omega),
    BitVec.toInt_eq_toNat_of_lt (by omega)]
  omega

theorem sle_iff {a b : BitVec 64} (ha : a.toNat < 2 ^ 63) (hb : b.toNat < 2 ^ 63) :
    a.sle b = true ↔ a.toNat ≤ b.toNat := by
  rw [BitVec.sle_iff_toInt_le, BitVec.toInt_eq_toNat_of_lt (by omega),
    BitVec.toInt_eq_toNat_of_lt (by omega)]
  omega

theorem ofNat_toNat {k : Nat} (lt : k < 2 ^ 64) : (BitVec.ofNat 64 k).toNat = k := by
  rw [BitVec.toNat_ofNat, Nat.mod_eq_of_lt lt]

theorem mask_lt {j : Nat} (le : j ≤ 64) : 2 ^ j - 1 < 2 ^ 64 := by
  have power : 2 ^ j ≤ 2 ^ 64 := Nat.pow_le_pow_right (by decide) le
  omega

theorem and_low (x : BitVec 64) {j : Nat} (le : j ≤ 64) :
    (x &&& .ofNat 64 (2 ^ j - 1)).toNat = x.toNat % 2 ^ j := by
  rw [BitVec.toNat_and, ofNat_toNat (mask_lt le), Nat.and_two_pow_sub_one_eq_mod]

theorem and_high_eq_zero (x : BitVec 64) {j : Nat} (le : j ≤ 64) :
    x &&& ~~~(.ofNat 64 (2 ^ j - 1)) = 0 ↔ x.toNat < 2 ^ j := by
  have parts : x.toNat < 2 ^ j ↔ x &&& .ofNat 64 (2 ^ j - 1) = x := by
    rw [← BitVec.toNat_inj, and_low x le, Nat.mod_eq_iff_lt (Nat.two_pow_pos j).ne']
  rw [parts]
  constructor
  · intro zero
    have whole : (x &&& .ofNat 64 (2 ^ j - 1)) ||| (x &&& ~~~(.ofNat 64 (2 ^ j - 1))) = x := by
      rw [← BitVec.and_or_distrib_left, BitVec.or_not_self, BitVec.and_allOnes]
    rw [zero] at whole
    exact BitVec.or_zero.symm.trans whole
  · intro low
    rw [← low, BitVec.and_assoc, BitVec.and_not_self]
    exact BitVec.and_zero

theorem shiftLeft_ofNat (k j : Nat) :
    BitVec.ofNat 64 k <<< j = BitVec.ofNat 64 (k * 2 ^ j) := by
  rw [← BitVec.toNat_inj, BitVec.toNat_shiftLeft, BitVec.toNat_ofNat, BitVec.toNat_ofNat,
    Nat.shiftLeft_eq, Nat.mod_mul_mod]

theorem sshiftRight_ofNat {k : Nat} (j : Nat) (lt : k < 2 ^ 63) :
    (BitVec.ofNat 64 k).sshiftRight j = BitVec.ofNat 64 (k / 2 ^ j) := by
  have value := ofNat_toNat (show k < 2 ^ 64 by omega)
  have sign : (BitVec.ofNat 64 k).msb = false := by
    rw [BitVec.msb_eq_false_iff_two_mul_lt, value]
    omega
  have smaller : k / 2 ^ j ≤ k := Nat.div_le_self _ _
  rw [BitVec.sshiftRight_eq_of_msb_false sign, ← BitVec.toNat_inj, BitVec.toNat_ushiftRight,
    value, ofNat_toNat (by omega), Nat.shiftRight_eq_div_pow]

theorem signExtend_mod {w : Nat} (v : Nat) (le : w ≤ 64) :
    ((BitVec.ofNat w v).signExtend 64).toNat % 2 ^ w = v % 2 ^ w := by
  have small : v % 2 ^ w < 2 ^ 64 :=
    lt_of_lt_of_le (Nat.mod_lt _ (Nat.two_pow_pos w)) (Nat.pow_le_pow_right (by decide) le)
  have sign : 2 ^ 64 - 2 ^ w = 2 ^ w * (2 ^ (64 - w) - 1) := by
    rw [Nat.mul_sub, Nat.mul_one, pow_mul_pow_sub 2 le]
  rw [BitVec.toNat_signExtend, BitVec.toNat_setWidth, BitVec.toNat_ofNat, Nat.mod_eq_of_lt small]
  split
  · rw [sign, Nat.add_mul_mod_self_left, Nat.mod_mod]
  · rw [Nat.add_zero, Nat.mod_mod]

theorem add_add (p : BitVec 64) (k m : Nat) :
    p + .ofNat 64 k + .ofNat 64 m = p + .ofNat 64 (k + m) := by
  rw [BitVec.add_assoc, BitVec.ofNat_add]

theorem add_toNat {p : BitVec 64} {k : Nat} (lt : p.toNat + k < 2 ^ 64) :
    (p + .ofNat 64 k).toNat = p.toNat + k := by
  rw [BitVec.toNat_add, BitVec.toNat_ofNat, Nat.add_mod_mod, Nat.mod_eq_of_lt lt]

theorem sub_ofNat {k m : Nat} (le : m ≤ k) :
    BitVec.ofNat 64 k - .ofNat 64 m = .ofNat 64 (k - m) := by
  obtain ⟨rest, rfl⟩ := Nat.exists_eq_add_of_le le
  rw [Nat.add_sub_cancel_left, Nat.add_comm, BitVec.ofNat_add, BitVec.add_sub_cancel]

end Libsysve.Word64
