import Mathlib.Tactic

set_option autoImplicit false

/-!
# Fields of a register

A register holds several values side by side, each in a field of its own width. A driver reads one
field, writes a whole register from the values of some fields, or modifies these fields only.

* `Field`, `FieldValue`: a field, and the values of some fields; `Field.val`, `Field.read`;
* `FieldValue.modify`, `FieldValue.write`: a modification, and a write, which zeroes all other bits;
* **`read_modify_val`**, **`read_modify_of_apart`**: a field that was modified is read back, and the
  others are as they were;
* `modify_add`: values that are put together are modified one after the other.
-/

namespace RegisterField

variable {w : ℕ}

/-- A field: its first bit, and its width. -/
structure Field where
  offset : ℕ
  numbits : ℕ

/-- The values of some fields of a register of `w` bits, and the bits of these fields. -/
structure FieldValue (w : ℕ) where
  mask : BitVec w
  value : BitVec w

namespace Field

variable (f : Field)

/-- The bits of the field, from bit 0 on. -/
def ones : BitVec w := (BitVec.allOnes f.numbits).setWidth w

/-- The field with the value `v`. Bits that do not fit are cut off. -/
def val (v : BitVec w) : FieldValue w := ⟨f.ones <<< f.offset, (v &&& f.ones) <<< f.offset⟩

/-- The value of the field in a register. -/
def read (x : BitVec w) : BitVec w := (x &&& f.ones <<< f.offset) >>> f.offset

/-- Whether a bit of the field is set. -/
def isSet (x : BitVec w) : Bool := x &&& f.ones <<< f.offset != 0

/-- The field lies in a register of `w` bits. -/
def Fits (w : ℕ) : Prop := f.offset + f.numbits ≤ w

/-- The fields have no bit in common. -/
def Apart (g : Field) : Prop :=
  f.offset + f.numbits ≤ g.offset ∨ g.offset + g.numbits ≤ f.offset

instance (w : ℕ) : Decidable (f.Fits w) := inferInstanceAs (Decidable (_ ≤ _))

instance (g : Field) : Decidable (f.Apart g) := inferInstanceAs (Decidable (_ ∨ _))

end Field

namespace FieldValue

/-- Values of different fields together. -/
instance : Add (FieldValue w) := ⟨fun a b => ⟨a.mask ||| b.mask, a.value ||| b.value⟩⟩

/-- Modify these fields of a register. -/
def modify (a : FieldValue w) (x : BitVec w) : BitVec w := x &&& ~~~a.mask ||| a.value

/-- The register after a write. -/
def write (a : FieldValue w) : BitVec w := a.value

end FieldValue

/-! ## Bit by bit -/

section

variable {f g : Field}

theorem getLsbD_ones (k : ℕ) : (f.ones : BitVec w).getLsbD k = decide (k < w ∧ k < f.numbits) := by
  rw [Field.ones, BitVec.getLsbD_setWidth, BitVec.getLsbD_allOnes, Bool.decide_and]

theorem getLsbD_read (hf : f.Fits w) (x : BitVec w) (k : ℕ) :
    (f.read x).getLsbD k = (decide (k < f.numbits) && x.getLsbD (f.offset + k)) := by
  have hle : f.offset + f.numbits ≤ w := hf
  have hk : f.offset + k - f.offset = k := by omega
  rw [Field.read, BitVec.getLsbD_ushiftRight, BitVec.getLsbD_and, BitVec.getLsbD_shiftLeft, hk,
    getLsbD_ones]
  by_cases h : k < f.numbits
  · simp [h, show f.offset + k < w by omega, show k < w by omega]
  · simp [h]

theorem getLsbD_mask_val (v : BitVec w) {p : ℕ} (hp : p < w) :
    (f.val v).mask.getLsbD p = decide (f.offset ≤ p ∧ p < f.offset + f.numbits) := by
  rw [Field.val, BitVec.getLsbD_shiftLeft, getLsbD_ones]
  by_cases h : f.offset ≤ p
  · have hiff : (p - f.offset < w ∧ p - f.offset < f.numbits) ↔ p < f.offset + f.numbits := by
      omega
    simp [h, hp, hiff]
  · simp [h]

theorem getLsbD_value_val (v : BitVec w) {p : ℕ} (hp : p < w) :
    (f.val v).value.getLsbD p =
      (decide (f.offset ≤ p ∧ p < f.offset + f.numbits) && v.getLsbD (p - f.offset)) := by
  rw [Field.val, BitVec.getLsbD_shiftLeft, BitVec.getLsbD_and, getLsbD_ones]
  by_cases h : f.offset ≤ p
  · have hiff : (p - f.offset < w ∧ p - f.offset < f.numbits) ↔ p < f.offset + f.numbits := by
      omega
    simp [h, hp, hiff, Bool.and_comm]
  · simp [h]

/-- What a modification of one field does to a bit. -/
theorem getLsbD_modify_val (v x : BitVec w) {p : ℕ} (hp : p < w) :
    ((f.val v).modify x).getLsbD p =
      if f.offset ≤ p ∧ p < f.offset + f.numbits then v.getLsbD (p - f.offset)
      else x.getLsbD p := by
  rw [FieldValue.modify, BitVec.getLsbD_or, BitVec.getLsbD_and, BitVec.getLsbD_not,
    getLsbD_mask_val v hp, getLsbD_value_val v hp]
  by_cases h : f.offset ≤ p ∧ p < f.offset + f.numbits <;> simp [h, hp]

/-! ## Reading back -/

/-- **A field that was modified is read back.** -/
theorem read_modify_val (hf : f.Fits w) (v x : BitVec w) :
    f.read ((f.val v).modify x) = v &&& f.ones := by
  have hle : f.offset + f.numbits ≤ w := hf
  apply BitVec.eq_of_getLsbD_eq
  intro k hk
  rw [getLsbD_read hf, BitVec.getLsbD_and, getLsbD_ones]
  by_cases h : k < f.numbits
  · rw [getLsbD_modify_val v x (by omega), if_pos (by omega), Nat.add_sub_cancel_left]
    simp [h, hk]
  · simp [h]

/-- **The modification of a field leaves those apart from it alone.** -/
theorem read_modify_of_apart (hf : f.Fits w) (h : f.Apart g) (v x : BitVec w) :
    f.read ((g.val v).modify x) = f.read x := by
  have hle : f.offset + f.numbits ≤ w := hf
  have hsep : f.offset + f.numbits ≤ g.offset ∨ g.offset + g.numbits ≤ f.offset := h
  apply BitVec.eq_of_getLsbD_eq
  intro k hk
  rw [getLsbD_read hf, getLsbD_read hf]
  by_cases hn : k < f.numbits
  · rw [getLsbD_modify_val v x (by omega), if_neg (by omega)]
  · simp [hn]

theorem read_eq_zero_iff (x : BitVec w) : f.read x = 0 ↔ x &&& f.ones <<< f.offset = 0 := by
  rw [Field.read]
  constructor
  · intro h
    apply BitVec.eq_of_getLsbD_eq
    intro p hp
    have hbit := congrArg (fun y : BitVec w => y.getLsbD (p - f.offset)) h
    simp only [BitVec.getLsbD_ushiftRight] at hbit
    rw [BitVec.getLsbD_and, BitVec.getLsbD_shiftLeft] at hbit ⊢
    by_cases hlt : p < f.offset
    · simp [hlt]
    · rw [show f.offset + (p - f.offset) = p by omega] at hbit
      rw [hbit]
      simp
  · intro h
    rw [h]
    exact BitVec.zero_ushiftRight

theorem isSet_eq_true_iff (x : BitVec w) : f.isSet x = true ↔ f.read x ≠ 0 := by
  rw [Field.isSet, bne_iff_ne, ne_eq, ne_eq, read_eq_zero_iff]

theorem isSet_modify_val (hf : f.Fits w) (v x : BitVec w) :
    f.isSet ((f.val v).modify x) = (v &&& f.ones != 0) := by
  rw [Bool.eq_iff_iff, isSet_eq_true_iff, read_modify_val hf, bne_iff_ne]

theorem isSet_modify_of_apart (hf : f.Fits w) (h : f.Apart g) (v x : BitVec w) :
    f.isSet ((g.val v).modify x) = f.isSet x := by
  rw [Bool.eq_iff_iff, isSet_eq_true_iff, isSet_eq_true_iff, read_modify_of_apart hf h]

/-- A value that fits is not cut off. -/
theorem and_ones {v : BitVec w} (h : v.toNat < 2 ^ f.numbits) : v &&& f.ones = v := by
  apply BitVec.eq_of_getLsbD_eq
  intro k hk
  rw [BitVec.getLsbD_and, getLsbD_ones]
  by_cases hn : k < f.numbits
  · simp [hn, hk]
  · rw [BitVec.getLsbD, Nat.testBit_lt_two_pow (h.trans_le (Nat.pow_le_pow_right (by decide)
      (not_lt.mp hn)))]
    rfl

end

/-! ## Values of several fields -/

section

variable (a b : FieldValue w)

theorem write_eq_modify : a.write = a.modify 0 := by
  have hzero : (0 : BitVec w) &&& ~~~a.mask = 0 := BitVec.zero_and
  rw [FieldValue.write, FieldValue.modify, hzero]
  exact BitVec.zero_or.symm

variable {a b}

/-- Values of different fields are modified one after the other. -/
theorem modify_add (h : a.value &&& b.mask = 0) (x : BitVec w) :
    (a + b).modify x = b.modify (a.modify x) := by
  change x &&& ~~~(a.mask ||| b.mask) ||| (a.value ||| b.value) =
    (x &&& ~~~a.mask ||| a.value) &&& ~~~b.mask ||| b.value
  have hb : ∀ p, a.value.getLsbD p = true → b.mask.getLsbD p = false := by
    intro p hp
    have hbit := congrArg (fun y : BitVec w => y.getLsbD p) h
    simpa [hp] using hbit
  apply BitVec.eq_of_getLsbD_eq
  intro p hp
  simp only [BitVec.getLsbD_or, BitVec.getLsbD_and, BitVec.getLsbD_not, hp, decide_true,
    Bool.true_and]
  cases ha : a.value.getLsbD p with
  | true => simp [hb p ha]
  | false => cases x.getLsbD p <;> cases a.mask.getLsbD p <;> simp

theorem value_and_mask_add {c : FieldValue w} (hb : a.value &&& b.mask = 0)
    (hc : a.value &&& c.mask = 0) : a.value &&& (b + c).mask = 0 := by
  have hor : (b + c).mask = b.mask ||| c.mask := rfl
  rw [hor, BitVec.and_or_distrib_left, hb, hc, BitVec.or_self]

/-- The value of a field has no bit in a field apart from it. -/
theorem value_and_mask_val {f g : Field} (h : f.Apart g) (v u : BitVec w) :
    (f.val v).value &&& (g.val u).mask = 0 := by
  have hsep : f.offset + f.numbits ≤ g.offset ∨ g.offset + g.numbits ≤ f.offset := h
  apply BitVec.eq_of_getLsbD_eq
  intro p hp
  rw [BitVec.getLsbD_and, getLsbD_value_val v hp, getLsbD_mask_val u hp]
  by_cases hf : f.offset ≤ p ∧ p < f.offset + f.numbits
  · have hg : ¬ (g.offset ≤ p ∧ p < g.offset + g.numbits) := by omega
    simp [hg]
  · simp [hf]

end

end RegisterField
