import RuSpe.Lib.RegisterBank
import RuSpe.Psa.Types

set_option autoImplicit false

/-!
# The peripheral protection controller of the PSC3

The controller has a protection context mask of eight bits for each region of the peripherals; the
masks of four regions are a register. `set_protection_context` changes one mask, `set_pc_masks_range`
rewrites whole registers for a range of regions.

* `PcMasks`, `regionMask`: the registers, and the mask of a region;
* `setProtectionContext`, `setPcMasksRange`: the driver;
* `regionMask_setProtectionContext`, **`regionMask_setPcMasksRange`**: every mask after a call;
* **`updatesRange_iff`**: for which ranges and contents only the masks of the range change.
-/

namespace RuSpe

open RegisterBank

/-! ## The registers -/

/-- `ppc_pc_masks`. -/
abbrev PcMasks := Bank 1024 32

/-- `PPC_REGION_COUNT`. -/
def ppcRegionCount : ℕ := 222

/-- The protection context mask of a region. -/
def regionMask (r : PcMasks) (region : ℕ) : BitVec 8 := slot 8 (region % 4) (word r (region / 4))

/-! ## The driver -/

/-- `div_ceil`. -/
def divCeil (a b : Usize) : Usize := if a % b > 0 then a / b + 1 else a / b

/-- `set_protection_context`. An index out of bounds panics. -/
def setProtectionContext (regionIndex : Usize) (context : BitVec 8) (r : PcMasks) :
    Option PcMasks :=
  let regIndex := regionIndex / 4
  let bitIndex := regionIndex % 4 * 8
  modify (fun x => x &&& ~~~(0xFF#32 <<< bitIndex) ||| context.setWidth 32 <<< bitIndex)
    regIndex.toNat r

/-- The word that `set_pc_masks_range` writes to register `regIdx`. -/
def rangeWord (stop : Usize) (pcMask : BitVec 8) (exclude : List (BitVec 16)) (regIdx : Usize) :
    BitVec 32 :=
  let fullWord := pcMask.replicate 4
  (upTo (0 : BitVec 32) 4).foldl (fun val slot =>
    let region := regIdx * 4 + slot
    if region ≥ stop ∨ exclude.contains (region.setWidth 16) then
      val &&& ~~~(0xFF#32 <<< (slot * 8))
    else val) fullWord

/-- `set_pc_masks_range`, up to `stop` instead of `end`. An index out of bounds panics. -/
def setPcMasksRange (start stop : Usize) (pcMask : BitVec 8) (exclude : List (BitVec 16))
    (r : PcMasks) : Option PcMasks :=
  let startReg := start / 4
  let endReg := divCeil stop 4
  (upTo startReg endReg).foldlM (fun r regIdx =>
    modify (fun _ => rangeWord stop pcMask exclude regIdx) regIdx.toNat r) r

/-! ## One register -/

theorem slotMask_eq {slot : BitVec 32} (h : slot.toNat < 4) :
    0xFF#32 <<< (slot * 8) = slotMask 8 slot.toNat := by
  have hshift : (slot * 8).toNat = slot.toNat * 8 := by bv_omega
  rw [slotMask, ← hshift]
  rfl

/-- The value that is written for a region: nothing from `stop` on and for excluded regions. -/
def writtenMask (stop : Usize) (pcMask : BitVec 8) (exclude : List (BitVec 16)) (region : ℕ) :
    BitVec 8 :=
  if stop.toNat ≤ region ∨ BitVec.ofNat 16 region ∈ exclude then 0 else pcMask

theorem slot_rangeWord {regIdx : Usize} (hr : regIdx.toNat < 1024) (stop : Usize)
    (pcMask : BitVec 8) (exclude : List (BitVec 16)) {j : ℕ} (hj : j < 4) :
    slot 8 j (rangeWord stop pcMask exclude regIdx) =
      writtenMask stop pcMask exclude (4 * regIdx.toNat + j) := by
  have hfold : rangeWord stop pcMask exclude regIdx =
      (upTo (0 : BitVec 32) 4).foldl (fun val slot =>
        if regIdx * 4 + slot ≥ stop ∨ exclude.contains ((regIdx * 4 + slot).setWidth 16) then
          clear 8 slot.toNat val
        else val) (pcMask.replicate 4) := by
    refine List.foldl_ext _ _ _ fun val slot hslot => ?_
    rw [clear, ← slotMask_eq (mem_upTo.mp hslot).2]
  have hregion {slot : BitVec 32} (hslot : slot.toNat < 4) :
      (regIdx * 4 + slot).toNat = 4 * regIdx.toNat + slot.toNat := by bv_omega
  have hcut {slot : BitVec 32} (hslot : slot.toNat < 4) :
      (regIdx * 4 + slot ≥ stop ∨ exclude.contains ((regIdx * 4 + slot).setWidth 16)) ↔
        stop.toNat ≤ 4 * regIdx.toNat + slot.toNat ∨
          BitVec.ofNat 16 (4 * regIdx.toNat + slot.toNat) ∈ exclude := by
    rw [ge_iff_le, BitVec.le_def, hregion hslot, List.contains_iff_mem, ← hregion hslot,
      BitVec.ofNat_toNat]
  have hex : (∃ slot ∈ upTo (0 : BitVec 32) 4, (regIdx * 4 + slot ≥ stop ∨
      exclude.contains ((regIdx * 4 + slot).setWidth 16)) ∧ slot.toNat = j) ↔
        stop.toNat ≤ 4 * regIdx.toNat + j ∨ BitVec.ofNat 16 (4 * regIdx.toNat + j) ∈ exclude := by
    constructor
    · rintro ⟨slot, -, h, rfl⟩
      exact (hcut hj).mp h
    · intro h
      have hslot : (BitVec.ofNat 32 j).toNat = j := by
        rw [BitVec.toNat_ofNat, Nat.mod_eq_of_lt (by omega)]
      refine ⟨BitVec.ofNat 32 j, mem_upTo.mpr ⟨Nat.zero_le _, ?_⟩, (hcut ?_).mpr ?_, hslot⟩
      · rw [BitVec.lt_def, hslot]
        exact hj
      · rw [hslot]
        exact hj
      · rw [hslot]
        exact h
  rw [hfold, slot_foldl_clear 8 j BitVec.toNat, slot_replicate hj, writtenMask]
  by_cases h : stop.toNat ≤ 4 * regIdx.toNat + j ∨
      BitVec.ofNat 16 (4 * regIdx.toNat + j) ∈ exclude
  · rw [if_pos (hex.mpr h), if_pos h]
  · rw [if_neg fun h' => h (hex.mp h'), if_neg h]

/-! ## Every mask after a call -/

theorem toNat_divCeil_four (a : Usize) : (divCeil a 4).toNat = (a.toNat + 3) / 4 := by
  have hmod : (a % 4).toNat = a.toNat % 4 := BitVec.toNat_umod
  have hdiv : (a / 4).toNat = a.toNat / 4 := BitVec.toNat_udiv
  have ha := a.isLt
  rw [divCeil]
  split_ifs with h
  · rw [gt_iff_lt, BitVec.lt_def, hmod] at h
    rw [BitVec.toNat_add, hdiv, show (1 : Usize).toNat = 1 from rfl] at *
    have h0 : (0 : Usize).toNat = 0 := rfl
    omega
  · rw [gt_iff_lt, BitVec.lt_def, hmod] at h
    have h0 : (0 : Usize).toNat = 0 := rfl
    omega

/-- `set_protection_context` changes one mask. -/
theorem regionMask_setProtectionContext {regionIndex : Usize} (hr : regionIndex.toNat < 4096)
    (context : BitVec 8) (r : PcMasks) :
    ∃ r', setProtectionContext regionIndex context r = some r' ∧
      ∀ k, regionMask r' k = if k = regionIndex.toNat then context else regionMask r k := by
  have hdiv : (regionIndex / 4).toNat = regionIndex.toNat / 4 := BitVec.toNat_udiv
  have hmod : (regionIndex % 4).toNat = regionIndex.toNat % 4 := BitVec.toNat_umod
  have hbit : (regionIndex % 4 * 8).toNat = regionIndex.toNat % 4 * 8 := by
    rw [BitVec.toNat_mul, hmod, show (8 : Usize).toNat = 8 from rfl]
    omega
  have hstore (x : BitVec 32) : x &&& ~~~(0xFF#32 <<< (regionIndex % 4 * 8)) |||
      context.setWidth 32 <<< (regionIndex % 4 * 8) =
        store 8 (regionIndex.toNat % 4) context x := by
    rw [store, clear, slotMask, ← hbit]
    rfl
  obtain ⟨r', hok, hword⟩ := modify_of_lt (store 8 (regionIndex.toNat % 4) context) r
    (show regionIndex.toNat / 4 < 1024 by omega)
  refine ⟨r', ?_, fun k => ?_⟩
  · rw [setProtectionContext, funext hstore, hdiv]
    exact hok
  · rw [regionMask, regionMask, hword]
    by_cases hk : k / 4 = regionIndex.toNat / 4
    · have hiff : k % 4 = regionIndex.toNat % 4 ↔ k = regionIndex.toNat := by omega
      rw [hk, Function.update_self, slot_store (by omega), if_congr hiff rfl rfl]
    · rw [Function.update_of_ne hk, if_neg (by omega)]

/-- **Every mask of a register that is written gets the value for its region, and no other mask
changes.** -/
theorem regionMask_setPcMasksRange (start : Usize) {stop : Usize} (he : stop.toNat ≤ 4096)
    (mask : BitVec 8) (exclude : List (BitVec 16)) (r : PcMasks) :
    ∃ r', setPcMasksRange start stop mask exclude r = some r' ∧
      ∀ k, regionMask r' k = if start.toNat / 4 ≤ k / 4 ∧ k / 4 < (stop.toNat + 3) / 4 then
        writtenMask stop mask exclude k else regionMask r k := by
  have hs : (start / 4).toNat = start.toNat / 4 := BitVec.toNat_udiv
  have hend := toNat_divCeil_four stop
  have hidx : ∀ a ∈ upTo (start / 4) (divCeil stop 4), a.toNat < 1024 := by
    intro a ha
    have hlt := BitVec.lt_def.mp (mem_upTo.mp ha).2
    omega
  obtain ⟨r', hok, hword⟩ := foldlM_modify_toNat (fun a _ => rangeWord stop mask exclude a)
    (nodup_upTo (start / 4) (divCeil stop 4)) hidx r
  refine ⟨r', hok, fun k => ?_⟩
  have hmem : k / 4 ∈ (upTo (start / 4) (divCeil stop 4)).map BitVec.toNat ↔
      start.toNat / 4 ≤ k / 4 ∧ k / 4 < (stop.toNat + 3) / 4 := by
    rw [map_toNat_upTo, List.mem_range'_1, hs, hend]
    omega
  rw [regionMask, regionMask, hword]
  by_cases hk : start.toNat / 4 ≤ k / 4 ∧ k / 4 < (stop.toNat + 3) / 4
  · have ha : (BitVec.ofNat 32 (k / 4)).toNat = k / 4 := by
      rw [BitVec.toNat_ofNat, Nat.mod_eq_of_lt (by omega)]
    rw [if_pos (hmem.mpr hk), if_pos hk, slot_rangeWord (by omega) _ _ _ (Nat.mod_lt k (by decide)),
      ha, Nat.div_add_mod]
  · rw [if_neg fun h => hk (hmem.mp h), if_neg hk]

/-! ## The range -/

/-- Each region of the range that is not excluded has the mask, and no region outside the range has
changed. -/
structure UpdatesRange (start stop : Usize) (mask : BitVec 8) (exclude : List (BitVec 16))
    (r r' : PcMasks) : Prop where
  inside : ∀ k, start.toNat ≤ k → k < stop.toNat → BitVec.ofNat 16 k ∉ exclude →
    regionMask r' k = mask
  outside : ∀ k < ppcRegionCount, ¬ (start.toNat ≤ k ∧ k < stop.toNat) →
    regionMask r' k = regionMask r k

/-- A region outside the range whose mask lies in a register that is written. -/
structure Shares (start stop : Usize) (k : ℕ) : Prop where
  region : k < ppcRegionCount
  outside : ¬ (start.toNat ≤ k ∧ k < stop.toNat)
  first : start.toNat / 4 ≤ k / 4
  last : k / 4 < (stop.toNat + 3) / 4

section

variable {start stop : Usize} {mask : BitVec 8} {exclude : List (BitVec 16)}

/-- A call keeps to its range when the regions that share a register with it have the values that
are written for them. -/
theorem setPcMasksRange_updates_iff (he : stop.toNat ≤ ppcRegionCount) (r : PcMasks) :
    ∃ r', setPcMasksRange start stop mask exclude r = some r' ∧
      (UpdatesRange start stop mask exclude r r' ↔
        ∀ k, Shares start stop k → regionMask r k = writtenMask stop mask exclude k) := by
  obtain ⟨r', hok, hmask⟩ := regionMask_setPcMasksRange start (he.trans (by decide)) mask exclude r
  refine ⟨r', hok, fun h k hk => ?_, fun h => ⟨fun k hs hlt hx => ?_, fun k hk hout => ?_⟩⟩
  · rw [← h.outside k hk.region hk.outside, hmask, if_pos ⟨hk.first, hk.last⟩]
  · rw [hmask, if_pos (by omega), writtenMask, if_neg (not_or.mpr ⟨not_le.mpr hlt, hx⟩)]
  · rw [hmask]
    split_ifs with hreg
    · exact (h k ⟨hk, hout, hreg.1, hreg.2⟩).symm
    · rfl

/-- No region shares a register with a range of whole registers. -/
theorem not_shares_iff (hle : start ≤ stop) (he : stop.toNat ≤ ppcRegionCount) :
    (∀ k, ¬ Shares start stop k) ↔
      4 ∣ start.toNat ∧ (4 ∣ stop.toNat ∨ stop.toNat = ppcRegionCount) := by
  have hle := BitVec.le_def.mp hle
  rw [ppcRegionCount] at *
  constructor
  · intro h
    have hstart : 4 ∣ start.toNat := by
      by_contra hdvd
      exact h (start.toNat - 1) ⟨by rw [ppcRegionCount]; omega, by omega, by omega, by omega⟩
    refine ⟨hstart, ?_⟩
    by_contra hend
    exact h stop.toNat ⟨by rw [ppcRegionCount]; omega, by omega, by omega, by omega⟩
  · rintro ⟨hstart, hend⟩ k ⟨hk, hout, hfirst, hlast⟩
    rw [ppcRegionCount] at hk
    omega

/-- Any value can be the mask of every region. -/
theorem exists_regionMask (v : BitVec 8) :
    ∃ r : PcMasks, ∀ k < ppcRegionCount, regionMask r k = v := by
  refine ⟨Vector.replicate 1024 (v.replicate 4), fun k hk => ?_⟩
  have hlt : k / 4 < 1024 := by
    rw [ppcRegionCount] at hk
    omega
  rw [regionMask, word, Vector.getElem?_eq_getElem hlt, Vector.getElem_replicate]
  exact slot_replicate (Nat.mod_lt k (by decide)) v

/-- **A call keeps to its range exactly when the regions that share a register with it have the
values that are written for them.** It does so for all contents of the registers exactly when the
range consists of whole registers. -/
theorem updatesRange_iff (hle : start ≤ stop) (he : stop ≤ 222) :
    (∀ r, ∃ r', setPcMasksRange start stop mask exclude r = some r' ∧
      (UpdatesRange start stop mask exclude r r' ↔
        ∀ k, Shares start stop k → regionMask r k = writtenMask stop mask exclude k)) ∧
    ((∀ r r', setPcMasksRange start stop mask exclude r = some r' →
      UpdatesRange start stop mask exclude r r') ↔
        4 ∣ start.toNat ∧ (4 ∣ stop.toNat ∨ stop.toNat = ppcRegionCount)) := by
  have he : stop.toNat ≤ ppcRegionCount := BitVec.le_def.mp he
  refine ⟨setPcMasksRange_updates_iff he, ?_⟩
  rw [← not_shares_iff hle he]
  constructor
  · intro h k hk
    -- A content that differs from what is written for the region.
    obtain ⟨r, hr⟩ := exists_regionMask (~~~writtenMask stop mask exclude k)
    obtain ⟨r', hok, hiff⟩ := setPcMasksRange_updates_iff he r
    have heq := hiff.mp (h r r' hok) k hk
    rw [hr k hk.region] at heq
    have h0 := congrArg (fun x : BitVec 8 => x.getLsbD 0) heq
    simp at h0
  · intro h r r' hok
    obtain ⟨r'', hok', hiff⟩ := setPcMasksRange_updates_iff he r
    obtain rfl := Option.some.inj (hok.symm.trans hok')
    exact hiff.mpr fun k hk => absurd hk (h k)

/-- Two whole registers, with a region that is left out. -/
theorem updatesRange_iff_whole :
    ∃ r', setPcMasksRange 188 196 0x0C [190] (Vector.replicate 1024 0x01010101) = some r' ∧
      UpdatesRange 188 196 0x0C [190] (Vector.replicate 1024 0x01010101) r' := by
  obtain ⟨hone, hall⟩ := @updatesRange_iff 188 196 0x0C [190] (by decide) (by decide)
  obtain ⟨r', hok, -⟩ := hone (Vector.replicate 1024 0x01010101)
  exact ⟨r', hok, hall.mpr ⟨by decide, by decide⟩ _ _ hok⟩

end

/-- The range of the serial communication blocks: the CAN buffers before it get the mask, the
counters behind it lose theirs. -/
theorem setPcMasksRange_touches_neighbours :
    ∃ r', setPcMasksRange 191 197 0x0C [] (Vector.replicate 1024 0x01010101) = some r' ∧
      regionMask (Vector.replicate 1024 0x01010101) 190 = 0x01 ∧ regionMask r' 190 = 0x0C ∧
      regionMask (Vector.replicate 1024 0x01010101) 197 = 0x01 ∧ regionMask r' 197 = 0 ∧
      ¬ UpdatesRange 191 197 0x0C [] (Vector.replicate 1024 0x01010101) r' := by
  obtain ⟨r', hok, hmask⟩ := @regionMask_setPcMasksRange 191 197 (by decide) 0x0C []
    (Vector.replicate 1024 0x01010101)
  have h190 : regionMask r' 190 = 0x0C := by
    rw [hmask]
    decide
  have hbefore : regionMask (Vector.replicate 1024 0x01010101) 190 = 0x01 := by decide
  refine ⟨r', hok, hbefore, h190, by decide, ?_, fun h => ?_⟩
  · rw [hmask]
    decide
  · have heq := h.outside 190 (by decide) (by decide)
    rw [h190, hbefore] at heq
    exact absurd heq (by decide)

end RuSpe
