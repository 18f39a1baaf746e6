import RuSpe.Lib.BitTable
import RuSpe.Lib.RegisterBank

set_option autoImplicit false

/-!
# The targets of the interrupts

Interrupt `k` is non-secure when bit `k % 32` of register `itns[k / 32]` of the interrupt controller
is set. The boot code hands whole ranges of interrupts to the non-secure side.

* `Itns`, `nonSecureMask`, `setInterruptNonSecure`: the registers and the two loops;
* `getLsbD_nonSecureMask`: what the inner loop makes of one register;
* **`setInterruptNonSecure_exact`**: exactly the interrupts of the range become non-secure.
-/

namespace RuSpe

open BitTable (bit getLsbD_foldl_or)
open RegisterBank

/-! ## The registers -/

/-- `itns`. -/
abbrev Itns := Bank 16 32

/-- The inner loop of `set_interrupt_non_secure`, on the content of one register. -/
def nonSecureMask (startId endId block mask : BitVec 32) : BitVec 32 :=
  (upTo (block * 32) ((block + 1) * 32)).foldl (fun mask interrupt =>
    if interrupt ≥ startId ∧ interrupt ≤ endId then mask ||| 1#32 <<< (interrupt % 32)
    else mask) mask

/-- `set_interrupt_non_secure`. An index out of bounds panics. -/
def setInterruptNonSecure (startId endId : BitVec 32) (itns : Itns) : Option Itns :=
  (upThrough (startId / 32) (endId / 32)).foldlM (fun itns block =>
    modify (nonSecureMask startId endId block) block.toNat itns) itns

/-! ## One register -/

section

variable {startId endId block : BitVec 32}

/-- The inner loop sets the bits of the interrupts that are in the range. -/
theorem getLsbD_nonSecureMask (hb : block.toNat < 16) (mask : BitVec 32) {j : ℕ} (hj : j < 32) :
    (nonSecureMask startId endId block mask).getLsbD j = (mask.getLsbD j ||
      decide (startId.toNat ≤ 32 * block.toNat + j ∧ 32 * block.toNat + j ≤ endId.toNat)) := by
  have hlo : (block * 32).toNat = 32 * block.toNat := by bv_omega
  have hhi : ((block + 1) * 32).toNat = 32 * block.toNat + 32 := by bv_omega
  refine (getLsbD_foldl_or (fun interrupt => interrupt ≥ startId ∧ interrupt ≤ endId)
    (fun interrupt => (interrupt % 32).toNat) _ mask hj).trans ?_
  refine congrArg _ (decide_eq_decide.mpr ⟨?_, fun h => ?_⟩)
  · rintro ⟨a, ha, ⟨hs, he⟩, hpos⟩
    rw [mem_upTo, BitVec.le_def, BitVec.lt_def, hlo, hhi] at ha
    rw [ge_iff_le, BitVec.le_def] at hs
    rw [BitVec.le_def] at he
    rw [BitVec.toNat_umod, show (32 : BitVec 32).toNat = 32 from rfl] at hpos
    omega
  · have ha : (BitVec.ofNat 32 (32 * block.toNat + j)).toNat = 32 * block.toNat + j := by
      rw [BitVec.toNat_ofNat, Nat.mod_eq_of_lt (by omega)]
    refine ⟨BitVec.ofNat 32 (32 * block.toNat + j), ?_, ⟨?_, ?_⟩, ?_⟩
    · rw [mem_upTo, BitVec.le_def, BitVec.lt_def, hlo, hhi, ha]
      omega
    · rw [ge_iff_le, BitVec.le_def, ha]
      exact h.1
    · rw [BitVec.le_def, ha]
      exact h.2
    · rw [BitVec.toNat_umod, ha, show (32 : BitVec 32).toNat = 32 from rfl]
      omega

/-! ## The range -/

/-- **Exactly the interrupts of the range become non-secure**, whatever the registers were. -/
theorem setInterruptNonSecure_exact (hlt : endId < 512) (itns : Itns) :
    ∃ itns', setInterruptNonSecure startId endId itns = some itns' ∧
      ∀ k, bit (word itns') k =
        (bit (word itns) k || decide (startId.toNat ≤ k ∧ k ≤ endId.toNat)) := by
  have hend : endId.toNat < 512 := BitVec.lt_def.mp hlt
  have hs : (startId / 32).toNat = startId.toNat / 32 := BitVec.toNat_udiv
  have he : (endId / 32).toNat = endId.toNat / 32 := BitVec.toNat_udiv
  have hidx : ∀ a ∈ upThrough (startId / 32) (endId / 32), a.toNat < 16 := by
    intro a ha
    have hle := BitVec.le_def.mp (mem_upThrough.mp ha).2
    omega
  obtain ⟨itns', hok, hword⟩ := foldlM_modify_toNat (nonSecureMask startId endId)
    (nodup_upThrough (startId / 32) (endId / 32)) hidx itns
  refine ⟨itns', hok, fun k => ?_⟩
  have hmem : k / 32 ∈ (upThrough (startId / 32) (endId / 32)).map BitVec.toNat ↔
      startId.toNat / 32 ≤ k / 32 ∧ k / 32 ≤ endId.toNat / 32 := by
    rw [map_toNat_upThrough, List.mem_range'_1, hs, he]
    omega
  rw [bit, bit, hword]
  split_ifs with hk
  · have hk := hmem.mp hk
    have hb : (BitVec.ofNat 32 (k / 32)).toNat = k / 32 := by
      rw [BitVec.toNat_ofNat, Nat.mod_eq_of_lt (by omega)]
    rw [getLsbD_nonSecureMask (by omega) _ (Nat.mod_lt k (by decide)), hb, Nat.div_add_mod]
  · have hk : ¬ (startId.toNat / 32 ≤ k / 32 ∧ k / 32 ≤ endId.toNat / 32) :=
      fun h => hk (hmem.mpr h)
    rw [decide_eq_false (by omega), Bool.or_false]

/-- A range that begins and ends inside a register. -/
theorem setInterruptNonSecure_exact_inside :
    ∃ itns', setInterruptNonSecure 30 140 (Vector.replicate 16 0x80000001) = some itns' ∧
      bit (word itns') 29 = false ∧ bit (word itns') 30 = true ∧ bit (word itns') 64 = true ∧
      bit (word itns') 140 = true ∧ bit (word itns') 141 = false := by
  obtain ⟨itns', hok, hbit⟩ := @setInterruptNonSecure_exact 30 140 (by decide)
    (Vector.replicate 16 0x80000001)
  refine ⟨itns', hok, ?_, ?_, ?_, ?_, ?_⟩
  all_goals
    rw [hbit]
    decide

end

end RuSpe
