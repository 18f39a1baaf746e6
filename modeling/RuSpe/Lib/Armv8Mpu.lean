import RuSpe.Lib.AlignDown

set_option autoImplicit false

/-!
# The Armv8-M memory protection unit

What the region registers mean to unprivileged code. A region covers the bytes from its base to its
inclusive limit, in steps of 32 bytes. An access needs exactly one enabled region around the byte,
and execution needs the right to read.

* `Region`, `Region.Covers`, `Region.allows`: one pair of registers;
* `Allows`: a whole configuration;
* **`toNat_base`**, **`toNat_limit`**: the packed fields as numbers.
-/

namespace Armv8Mpu

abbrev Word := BitVec 32

/-- The register pair of one region. -/
structure Region where
  rbar : Word
  rlar : Word
  deriving DecidableEq, Repr

inductive Access
  | read
  | write
  | execute
  deriving DecidableEq, Repr

namespace Region

variable (r : Region)

/-- `RBAR[31:5]`, the first byte. -/
def base : Word := r.rbar &&& 0xFFFFFFE0#32

/-- `RLAR[31:5]`, extended to the last byte. -/
def limit : Word := r.rlar ||| 0x1F#32

/-- `RLAR.EN`. -/
def enabled : Bool := r.rlar.getLsbD 0

/-- `RBAR.AP[1]` in the low bit: any privilege may access the region. -/
def anyPrivilege : Bool := r.rbar.getLsbD 1

/-- `RBAR.AP[2]`: the region is read only. -/
def readOnly : Bool := r.rbar.getLsbD 2

/-- `RBAR.XN`. -/
def executeNever : Bool := r.rbar.getLsbD 0

/-- What unprivileged code may do in the region. -/
def allows : Access → Bool
  | .read => r.anyPrivilege
  | .write => r.anyPrivilege && !r.readOnly
  | .execute => r.anyPrivilege && !r.executeNever

/-- The byte at `a` is inside the enabled region. -/
def Covers (a : Word) : Prop := r.enabled = true ∧ r.base ≤ a ∧ a ≤ r.limit

instance (a : Word) : Decidable (r.Covers a) := inferInstanceAs (Decidable (_ ∧ _))

end Region

/-- Unprivileged code may make the access at `a`: one region is hit, and it allows it. A second
hit faults. -/
def Allows (regions : List Region) (acc : Access) (a : Word) : Prop :=
  ∃ r, (regions.filter fun r => r.Covers a) = [r] ∧ r.allows acc = true

/-- Whatever is allowed is allowed by a region around the byte. -/
theorem Allows.exists_covers {regions : List Region} {acc : Access} {a : Word}
    (h : Allows regions acc a) : ∃ r ∈ regions, r.Covers a ∧ r.allows acc = true := by
  obtain ⟨r, hr, ha⟩ := h
  have hm : r ∈ regions.filter fun r => r.Covers a := hr ▸ List.mem_singleton_self r
  obtain ⟨hmem, hc⟩ := List.mem_filter.mp hm
  exact ⟨r, hmem, of_decide_eq_true hc, ha⟩

/-! ## The packed fields as numbers -/

theorem toNat_and_base (x : Word) : (x &&& 0xFFFFFFE0#32).toNat = x.toNat / 32 * 32 :=
  AlignDown.toNat_and_mask (k := 5) (by decide)

theorem toNat_or_limit (x : Word) : (x ||| 0x1F#32).toNat = x.toNat / 32 * 32 + 31 := by
  have hx : x ||| 0x1F#32 = ((x >>> 5) <<< 5) + 0x1F#32 := by
    rw [BitVec.add_eq_or_of_and_eq_zero]
    all_goals
      apply BitVec.eq_of_getLsbD_eq
      intro i hi
      interval_cases i <;> simp
  rw [hx, BitVec.toNat_add, BitVec.toNat_shiftLeft, BitVec.toNat_ushiftRight,
    Nat.shiftRight_eq_div_pow, Nat.shiftLeft_eq, BitVec.toNat_ofNat]
  omega

/-- An aligned address has nothing in its low five bits. -/
theorem and_low_eq_zero_iff (x : Word) : x &&& 0x1F#32 = 0#32 ↔ x.toNat % 32 = 0 := by
  rw [← BitVec.toNat_inj, BitVec.toNat_and]
  exact iff_of_eq (congrArg (· = 0) (Nat.and_two_pow_sub_one_eq_mod x.toNat 5))

namespace Region

variable (r : Region)

@[simp] theorem toNat_base : r.base.toNat = r.rbar.toNat / 32 * 32 := toNat_and_base r.rbar

@[simp] theorem toNat_limit : r.limit.toNat = r.rlar.toNat / 32 * 32 + 31 := toNat_or_limit r.rlar

/-- The covered bytes as numbers. -/
theorem covers_iff (a : Word) : r.Covers a ↔
    r.enabled = true ∧ r.rbar.toNat / 32 ≤ a.toNat / 32 ∧ a.toNat / 32 ≤ r.rlar.toNat / 32 := by
  rw [Covers, BitVec.le_def, BitVec.le_def, toNat_base, toNat_limit]
  refine and_congr_right fun _ => ?_
  omega

end Region

end Armv8Mpu
