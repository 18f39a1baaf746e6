import Mathlib.Tactic

set_option autoImplicit false

/-!
# Rounding words down

Masking away the low bits of a word rounds it down to a multiple of a power of two.

* `and_mask`; **`toNat_and_mask`**.
-/

namespace AlignDown

variable {w : ℕ}

theorem and_mask (x : BitVec w) (k : ℕ) :
    x &&& (BitVec.allOnes w <<< k) = (x >>> k) <<< k := by
  ext i hi
  rw [BitVec.getElem_and, BitVec.getElem_shiftLeft, BitVec.getElem_shiftLeft]
  by_cases h : i < k
  · simp [h]
  · simp [h, Nat.add_sub_cancel' (not_lt.mp h), hi]

/-- **The mask rounds down to a multiple of `2 ^ k`.** -/
theorem toNat_and_mask {x mask : BitVec w} {k : ℕ} (h : mask = BitVec.allOnes w <<< k) :
    (x &&& mask).toNat = x.toNat / 2 ^ k * 2 ^ k := by
  have hle : x.toNat / 2 ^ k * 2 ^ k ≤ x.toNat := Nat.div_mul_le_self _ _
  have hlt := x.isLt
  rw [h, and_mask, BitVec.toNat_shiftLeft, BitVec.toNat_ushiftRight, Nat.shiftRight_eq_div_pow,
    Nat.shiftLeft_eq, Nat.mod_eq_of_lt (by omega)]

end AlignDown
