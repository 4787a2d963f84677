import Mathlib.Data.BitVec

/-!
# Fields of machine words

A word that packs numbers side by side is taken apart by right shifts and by
masks of low ones. On a word given as a natural number below its modulus these
are division by a power of two and the remainder modulo one.
-/
namespace Osh.BitField
variable {n : ℕ}

/-- A right shift divides. -/
theorem ofNat_ushiftRight {w : ℕ} (hw : w < 2 ^ n) (k : ℕ) :
    BitVec.ofNat n w >>> k = BitVec.ofNat n (w / 2 ^ k) := by
  apply BitVec.eq_of_toNat_eq
  have hk : w / 2 ^ k < 2 ^ n := lt_of_le_of_lt (Nat.div_le_self _ _) hw
  rw [BitVec.toNat_ushiftRight, BitVec.toNat_ofNat, BitVec.toNat_ofNat, Nat.mod_eq_of_lt hw,
    Nat.mod_eq_of_lt hk, Nat.shiftRight_eq_div_pow]

/-- A left shift by a fixed amount commutes with the reduction to a word. -/
theorem ofNat_shiftLeft (a k : ℕ) : BitVec.ofNat n a <<< k = BitVec.ofNat n (a <<< k) := by
  apply BitVec.eq_of_toNat_eq
  rw [BitVec.toNat_shiftLeft, BitVec.toNat_ofNat, BitVec.toNat_ofNat, Nat.shiftLeft_eq,
    Nat.shiftLeft_eq, Nat.mod_mul_mod]

/-- A mask of low ones keeps the remainder. -/
theorem ofNat_and_mask {w : ℕ} (hw : w < 2 ^ n) {m : ℕ} (hm : m ≤ n) :
    BitVec.ofNat n w &&& BitVec.ofNat n (2 ^ m - 1) = BitVec.ofNat n (w % 2 ^ m) := by
  apply BitVec.eq_of_toNat_eq
  have hmask : 2 ^ m - 1 < 2 ^ n :=
    lt_of_lt_of_le (Nat.sub_lt (Nat.two_pow_pos m) Nat.one_pos)
      (Nat.pow_le_pow_right (by decide) hm)
  have hrem : w % 2 ^ m < 2 ^ n := lt_of_le_of_lt (Nat.mod_le _ _) hw
  rw [BitVec.toNat_and, BitVec.toNat_ofNat, BitVec.toNat_ofNat, BitVec.toNat_ofNat,
    Nat.mod_eq_of_lt hw, Nat.mod_eq_of_lt hmask, Nat.mod_eq_of_lt hrem,
    Nat.and_two_pow_sub_one_eq_mod]

/-- The field of width `m` at bit `k`. -/
theorem ofNat_field {w : ℕ} (hw : w < 2 ^ n) (k : ℕ) {m : ℕ} (hm : m ≤ n) :
    BitVec.ofNat n w >>> k &&& BitVec.ofNat n (2 ^ m - 1) = BitVec.ofNat n (w / 2 ^ k % 2 ^ m) := by
  rw [ofNat_ushiftRight hw, ofNat_and_mask (lt_of_le_of_lt (Nat.div_le_self _ _) hw) hm]

end Osh.BitField
