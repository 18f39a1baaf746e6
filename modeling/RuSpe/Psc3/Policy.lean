import RuSpe.Psc3.PpcTable

set_option autoImplicit false

/-!
# The protection policy of the PSC3

The policy is three lists of regions. Constant functions turn it into register contents, which are
written in bulk.

* `buildNsAttrs`, `buildNsPAttrs`, `buildPcMasks`: the register contents for given lists;
* `configureBulkNsAttrs`, `configureBulkPcMasks`: the bulk writes;
* `Ppc.table_configureBulk`: what the controller grants in each region after the bulk writes;
* **`bulk_eq_each`**: setting each region by itself, in any order, grants the same, and so does the
  loop over the range of all regions.
-/

namespace RuSpe

open BitTable (assign bit getLsbD_assign getLsbD_or_one_shiftLeft bit_update)
open RegisterBank

/-! ## The lists -/

abbrev RegionId := BitVec 16

def PpcRegion.protCryptoliteTrng : RegionId := 126
def PpcRegion.protScb0 : RegionId := 191
def PpcRegion.protEfuseCtl3 : RegionId := 185

/-! ## Register contents -/

/-- `contains_region`. -/
def containsRegion (values : List RegionId) (needle : RegionId) : Bool := values.contains needle

/-- `set_region_bit`. The index is in bounds. -/
def setRegionBit (mask : Bank 7 32) (region : RegionId) : Bank 7 32 :=
  let idx := region.toNat
  if idx < ppcRegionCount then
    let reg := idx / 32
    let bit := idx % 32
    put reg (word mask reg ||| 1#32 <<< bit) mask
  else mask

/-- `clear_region_bit`. The index is in bounds. -/
def clearRegionBit (mask : Bank 7 32) (region : RegionId) : Bank 7 32 :=
  let idx := region.toNat
  if idx < ppcRegionCount then
    let reg := idx / 32
    let bit := idx % 32
    put reg (word mask reg &&& ~~~(1#32 <<< bit)) mask
  else mask

/-- `build_full_ns_attr_mask`. -/
def buildFullNsAttrMask : Bank 7 32 :=
  ((List.range ppcRegionCount).map (BitVec.ofNat 16)).foldl setRegionBit (Vector.replicate 7 0)

/-- `build_ns_attrs`. -/
def buildNsAttrs (secureOnly : List RegionId) : Bank 7 32 :=
  secureOnly.foldl clearRegionBit buildFullNsAttrMask

/-- `build_ns_p_attrs`. -/
def buildNsPAttrs (unprivileged : List RegionId) : Bank 7 32 :=
  unprivileged.foldl setRegionBit (Vector.replicate 7 0)

/-- The word that `build_pc_masks` computes for register `regIdx`. -/
def pcMaskWord (excluded : List RegionId) (regIdx : ℕ) : BitVec 32 :=
  let fullWord := (0xFF : BitVec 8).replicate 4
  (List.range 4).foldl (fun value slot =>
    let region := regIdx * 4 + slot
    if region ≥ ppcRegionCount ∨ containsRegion excluded (.ofNat 16 region) then
      value &&& ~~~(0xFF#32 <<< (slot * 8))
    else value) fullWord

/-- `build_pc_masks`. -/
def buildPcMasks (excluded : List RegionId) : Bank 56 32 :=
  fill 56 (pcMaskWord excluded) (Vector.replicate 56 0)

/-! ## Bulk writes -/

/-- `configure_bulk_ns_attrs`. -/
def Ppc.configureBulkNsAttrs (nsAttrs nsPAttrs : Bank 7 32) (ppc : Ppc) : Ppc :=
  { ppc with
    ppcNsAttrs := fill 7 (word nsAttrs) ppc.ppcNsAttrs
    ppcNsPAttrs := fill 7 (word nsPAttrs) ppc.ppcNsPAttrs }

/-- `configure_bulk_pc_masks`. -/
def Ppc.configureBulkPcMasks (pcMasks : Bank 56 32) (ppc : Ppc) : Ppc :=
  { ppc with ppcPcMasks := fill 56 (word pcMasks) ppc.ppcPcMasks }

/-! ## Bits of the contents -/

theorem containsRegion_iff {l : List RegionId} {region : RegionId} :
    containsRegion l region = true ↔ region ∈ l := List.contains_iff_mem

theorem containsRegion_eq_false {l : List RegionId} {region : RegionId} (h : region ∉ l) :
    containsRegion l region = false :=
  Bool.eq_false_iff.mpr fun hc => h (containsRegion_iff.mp hc)

/-- The number of a region as an id. -/
theorem ofNat_eq_iff {k : ℕ} (hk : k < ppcRegionCount) (region : RegionId) :
    BitVec.ofNat 16 k = region ↔ k = region.toNat := by
  have hmod : k % 2 ^ 16 = k := Nat.mod_eq_of_lt (by unfold ppcRegionCount at hk; omega)
  rw [← BitVec.toNat_inj, BitVec.toNat_ofNat, hmod]

/-- Region `k` is among the ids. -/
def Lists (l : List RegionId) (k : ℕ) : Prop := k < ppcRegionCount ∧ BitVec.ofNat 16 k ∈ l

instance (l : List RegionId) (k : ℕ) : Decidable (Lists l k) := inferInstanceAs (Decidable (_ ∧ _))

/-- What setting and clearing have in common: the bit of one region becomes `v`. -/
def Assigns (v : Bool) (g : Bank 7 32 → RegionId → Bank 7 32) : Prop :=
  ∀ mask region k, bit (word (g mask region)) k = if Lists [region] k then v else bit (word mask) k

theorem assigns_of_bit {v : Bool} {f : ℕ → BitVec 32 → BitVec 32}
    (hf : ∀ i x j, j < 32 → (f i x).getLsbD j = if j = i then v else x.getLsbD j) :
    Assigns v fun mask region =>
      if region.toNat < ppcRegionCount then
        put (region.toNat / 32) (f (region.toNat % 32) (word mask (region.toNat / 32))) mask
      else mask := by
  intro mask region k
  dsimp only
  by_cases hr : region.toNat < ppcRegionCount
  · have hlt : region.toNat / 32 < 7 := by
      unfold ppcRegionCount at hr
      omega
    have hiff : Lists [region] k ↔ k = region.toNat := by
      rw [Lists, List.mem_singleton]
      constructor
      · exact fun h => (ofNat_eq_iff h.1 region).mp h.2
      · exact fun h => ⟨h ▸ hr, (ofNat_eq_iff (h ▸ hr) region).mpr h⟩
    rw [if_pos hr, word_put hlt, bit_update, if_congr hiff rfl rfl]
    by_cases hdiv : k / 32 = region.toNat / 32
    · rw [if_pos hdiv, hf _ _ _ (Nat.mod_lt k (by decide)), ← hdiv]
      exact if_congr ⟨BitTable.div_mod_inj hdiv, fun h => by rw [h]⟩ rfl rfl
    · rw [if_neg hdiv, if_neg fun h => hdiv (by rw [h])]
  · have hnot : ¬ Lists [region] k := by
      rw [Lists, List.mem_singleton]
      exact fun h => hr ((ofNat_eq_iff h.1 region).mp h.2 ▸ h.1)
    rw [if_neg hr, if_neg hnot]

theorem assigns_setRegionBit : Assigns true setRegionBit := by
  refine @assigns_of_bit true (fun i x => x ||| 1#32 <<< i) fun i x j hj => ?_
  rw [getLsbD_or_one_shiftLeft x hj]
  by_cases h : j = i <;> simp [h]

theorem assigns_clearRegionBit : Assigns false clearRegionBit := by
  refine @assigns_of_bit false (fun i x => x &&& ~~~(1#32 <<< i)) fun i x j hj => ?_
  have hassign : x &&& ~~~(1#32 <<< i) = assign i false x := by
    rw [assign]
    simp
  rw [hassign, getLsbD_assign x false i hj]

/-- A loop over ids. -/
theorem Assigns.foldl {v : Bool} {g : Bank 7 32 → RegionId → Bank 7 32} (hg : Assigns v g)
    (l : List RegionId) (mask : Bank 7 32) (k : ℕ) :
    bit (word (l.foldl g mask)) k = if Lists l k then v else bit (word mask) k := by
  induction l generalizing mask with
  | nil => exact (if_neg fun h => List.not_mem_nil h.2).symm
  | cons region l ih =>
    have hcons : Lists (region :: l) k ↔ Lists [region] k ∨ Lists l k := by
      rw [Lists, Lists, Lists, List.mem_cons, List.mem_singleton, and_or_left]
    rw [List.foldl_cons, ih, hg]
    by_cases hl : Lists l k
    · rw [if_pos hl, if_pos (hcons.mpr (.inr hl))]
    · rw [if_neg hl, if_congr (hcons.trans (or_iff_left hl)) rfl rfl]

theorem bit_zero (k : ℕ) : bit (word (Vector.replicate 7 (0 : BitVec 32))) k = false := by
  rw [bit, word_replicate_zero]
  exact BitVec.getLsbD_zero

theorem bit_buildNsAttrs (secureOnly : List RegionId) {k : ℕ} (hk : k < ppcRegionCount) :
    bit (word (buildNsAttrs secureOnly)) k = !containsRegion secureOnly (.ofNat 16 k) := by
  have hfull : Lists ((List.range ppcRegionCount).map (BitVec.ofNat 16)) k :=
    ⟨hk, List.mem_map_of_mem (List.mem_range.mpr hk)⟩
  rw [buildNsAttrs, Assigns.foldl assigns_clearRegionBit, buildFullNsAttrMask,
    Assigns.foldl assigns_setRegionBit, if_pos hfull]
  by_cases h : BitVec.ofNat 16 k ∈ secureOnly
  · rw [if_pos ⟨hk, h⟩, containsRegion_iff.mpr h, Bool.not_true]
  · rw [if_neg fun hl => h hl.2, containsRegion_eq_false h, Bool.not_false]

theorem bit_buildNsPAttrs (unprivileged : List RegionId) {k : ℕ} (hk : k < ppcRegionCount) :
    bit (word (buildNsPAttrs unprivileged)) k = containsRegion unprivileged (.ofNat 16 k) := by
  rw [buildNsPAttrs, Assigns.foldl assigns_setRegionBit, bit_zero]
  by_cases h : BitVec.ofNat 16 k ∈ unprivileged
  · rw [if_pos ⟨hk, h⟩, containsRegion_iff.mpr h]
  · rw [if_neg fun hl => h hl.2, containsRegion_eq_false h]

/-- The words of `build_pc_masks` are those of the loop over the range of all regions. -/
theorem pcMaskWord_eq (excluded : List RegionId) {regIdx : ℕ} (hr : regIdx < 1024) :
    pcMaskWord excluded regIdx = rangeWord 222 0xFF excluded (.ofNat 32 regIdx) := by
  have hup : upTo (0 : BitVec 32) 4 = (List.range 4).map (BitVec.ofNat 32) := rfl
  rw [pcMaskWord, rangeWord, hup, List.foldl_map]
  refine List.foldl_ext _ _ _ fun value slot hslot => ?_
  have hslot : slot < 4 := List.mem_range.mp hslot
  have hsum : BitVec.ofNat 32 regIdx * 4 + BitVec.ofNat 32 slot =
      BitVec.ofNat 32 (regIdx * 4 + slot) := by
    rw [BitVec.ofNat_add, BitVec.ofNat_mul]
    rfl
  have hnat : (BitVec.ofNat 32 (regIdx * 4 + slot)).toNat = regIdx * 4 + slot := by
    rw [BitVec.toNat_ofNat, Nat.mod_eq_of_lt (by omega)]
  have hge : BitVec.ofNat 32 (regIdx * 4 + slot) ≥ 222 ↔ regIdx * 4 + slot ≥ ppcRegionCount := by
    rw [ge_iff_le, BitVec.le_def, hnat]
    rfl
  have hid : (BitVec.ofNat 32 (regIdx * 4 + slot)).setWidth 16 =
      BitVec.ofNat 16 (regIdx * 4 + slot) :=
    BitVec.setWidth_ofNat_of_le (by decide) _
  have hshift : 0xFF#32 <<< (BitVec.ofNat 32 slot * 8) = 0xFF#32 <<< (slot * 8) := by
    have hmul : (BitVec.ofNat 32 slot * 8).toNat = slot * 8 := by
      rw [BitVec.toNat_mul, BitVec.toNat_ofNat, show (8 : BitVec 32).toNat = 8 from rfl]
      omega
    rw [← hmul]
    rfl
  dsimp only
  rw [hsum, hid, hshift]
  exact if_congr (or_congr hge.symm Iff.rfl) rfl rfl

/-- The slots of `build_pc_masks`. -/
theorem slot_buildPcMasks (excluded : List RegionId) {k : ℕ} (hk : k < 224) :
    slot 8 (k % 4) (word (buildPcMasks excluded) (k / 4)) = writtenMask 222 0xFF excluded k := by
  have hnat : (BitVec.ofNat 32 (k / 4)).toNat = k / 4 := by
    rw [BitVec.toNat_ofNat, Nat.mod_eq_of_lt (by omega)]
  rw [buildPcMasks, word_fill (le_refl 56), if_pos (by omega), pcMaskWord_eq excluded (by omega),
    slot_rangeWord (by omega) _ _ _ (Nat.mod_lt k (by decide)), hnat, Nat.div_add_mod]

/-! ## The policy -/

/-- Lists of regions: those that stay secure, those that unprivileged non-secure code may access,
and those that no protection context may access. -/
structure PpcPolicy where
  secureOnly : List RegionId
  unprivileged : List RegionId
  pcExcluded : List RegionId

/-- `NS_SECURE_ONLY_REGIONS`, `NS_UNPRIVILEGED_REGIONS` and `PC_MASK_EXCLUDED_REGIONS`. -/
def PpcPolicy.psc3 : PpcPolicy where
  secureOnly := [PpcRegion.protScb0]
  unprivileged := [PpcRegion.protCryptoliteTrng, PpcRegion.protEfuseCtl3]
  pcExcluded := [PpcRegion.protCryptoliteTrng, PpcRegion.protEfuseCtl3, PpcRegion.protScb0]

/-- What the policy says of each region. The secure unprivileged accesses stay as they are. -/
def PpcPolicy.table (p : PpcPolicy) (t : PpcTable) : PpcTable where
  permissions region := (!containsRegion p.secureOnly (.ofNat 16 region),
    containsRegion p.unprivileged (.ofNat 16 region), (t.permissions region).2.2)
  context region := if containsRegion p.pcExcluded (.ofNat 16 region) then 0 else 0xFF

/-- The three tables of the policy, written in bulk. -/
def Ppc.configureBulk (p : PpcPolicy) (ppc : Ppc) : Ppc :=
  (ppc.configureBulkNsAttrs (buildNsAttrs p.secureOnly) (buildNsPAttrs p.unprivileged))
    |>.configureBulkPcMasks (buildPcMasks p.pcExcluded)

theorem bit_fill_seven (b : Bank 32 32) (f : ℕ → BitVec 32) {k : ℕ} (hk : k < ppcRegionCount) :
    bit (word (fill 7 f b)) k = bit f k := by
  unfold ppcRegionCount at hk
  rw [bit, bit, word_fill (by decide), if_pos (by omega)]

/-- After the bulk writes the controller grants in each region what the policy says, whatever the
registers were. -/
theorem Ppc.table_configureBulk (p : PpcPolicy) (ppc : Ppc) :
    (ppc.configureBulk p).table = p.table ppc.table := by
  refine PpcTable.ext (funext fun region => ?_) (funext fun region => ?_)
  · have hlt : region.val < ppcRegionCount := region.isLt
    have hns := (bit_fill_seven ppc.ppcNsAttrs (word (buildNsAttrs p.secureOnly)) hlt).trans
      (bit_buildNsAttrs p.secureOnly hlt)
    have hnsP := (bit_fill_seven ppc.ppcNsPAttrs (word (buildNsPAttrs p.unprivileged)) hlt).trans
      (bit_buildNsPAttrs p.unprivileged hlt)
    simp only [Ppc.table, PpcPolicy.table, Ppc.configureBulk, Ppc.configureBulkPcMasks,
      Ppc.configureBulkNsAttrs, hns, hnsP]
  · have hlt := region.isLt
    have hmask : regionMask (ppc.configureBulk p).ppcPcMasks region =
        slot 8 (region % 4) (word (buildPcMasks p.pcExcluded) (region / 4)) := by
      rw [regionMask, Ppc.configureBulk, Ppc.configureBulkPcMasks, word_fill (by decide),
        if_pos (by omega)]
    have hstop : ¬ (222 : Usize).toNat ≤ region := not_le.mpr hlt
    change regionMask _ _ = _
    rw [hmask, slot_buildPcMasks _ (by omega), writtenMask]
    exact if_congr ((or_iff_right hstop).trans containsRegion_iff.symm) rfl rfl

/-! ## Region by region -/

/-- The call sets nothing but what the table says. -/
def PpcCall.Follows (t : PpcTable) : PpcCall → Prop
  | .setPermissions region p => p = t.permissions region
  | .getPermissions _ => True
  | .setProtectionContext region context => context = t.context region

/-- Calls that follow a table, one after another. -/
theorem run_follows {t : PpcTable} {calls : List PpcCall} (h : ∀ c ∈ calls, c.Follows t)
    (t₀ : PpcTable) (region : PpcRegion) :
    let t' := (Calls.run PpcCall.onTable calls t₀).2
    (t'.permissions region = t.permissions region ∨
      t'.permissions region = t₀.permissions region ∧
        PpcCall.setPermissions region (t.permissions region) ∉ calls) ∧
    (t'.context region = t.context region ∨
      t'.context region = t₀.context region ∧
        PpcCall.setProtectionContext region (t.context region) ∉ calls) := by
  induction calls generalizing t₀ with
  | nil => exact ⟨.inr ⟨rfl, List.not_mem_nil⟩, .inr ⟨rfl, List.not_mem_nil⟩⟩
  | cons c calls ih =>
    obtain ⟨hp, hc⟩ := ih (fun c hc => h c (List.mem_cons_of_mem _ hc)) (c.onTable t₀).2
    have hfollows := h c List.mem_cons_self
    rw [Calls.run_cons]
    refine ⟨?_, ?_⟩
    · rcases hp with hp | ⟨hp, hnot⟩
      · exact .inl hp
      · cases c with
        | setPermissions r p =>
          rcases eq_or_ne region r with rfl | hr
          · exact .inl (hp.trans ((Function.update_self ..).trans hfollows))
          · refine .inr ⟨hp.trans (Function.update_of_ne hr _ _), ?_⟩
            exact List.not_mem_cons_of_ne_of_not_mem
              (fun he => hr (PpcCall.setPermissions.inj he).1) hnot
        | getPermissions r => exact .inr ⟨hp, List.not_mem_cons_of_ne_of_not_mem nofun hnot⟩
        | setProtectionContext r c => exact .inr ⟨hp, List.not_mem_cons_of_ne_of_not_mem nofun hnot⟩
    · rcases hc with hc | ⟨hc, hnot⟩
      · exact .inl hc
      · cases c with
        | setPermissions r p => exact .inr ⟨hc, List.not_mem_cons_of_ne_of_not_mem nofun hnot⟩
        | getPermissions r => exact .inr ⟨hc, List.not_mem_cons_of_ne_of_not_mem nofun hnot⟩
        | setProtectionContext r c =>
          rcases eq_or_ne region r with rfl | hr
          · exact .inl (hc.trans ((Function.update_self ..).trans hfollows))
          · refine .inr ⟨hc.trans (Function.update_of_ne hr _ _), ?_⟩
            exact List.not_mem_cons_of_ne_of_not_mem
              (fun he => hr (PpcCall.setProtectionContext.inj he).1) hnot

/-- The calls set each region as the policy says, in some order. -/
structure PpcPolicy.Each (p : PpcPolicy) (t : PpcTable) (calls : List PpcCall) : Prop where
  follows : ∀ c ∈ calls, c.Follows (p.table t)
  permissions : ∀ region, .setPermissions region ((p.table t).permissions region) ∈ calls
  context : ∀ region, .setProtectionContext region ((p.table t).context region) ∈ calls

/-- A loop over all regions. -/
def PpcPolicy.calls (p : PpcPolicy) (t : PpcTable) : List PpcCall :=
  (List.finRange 222).flatMap fun region =>
    [.setPermissions region ((p.table t).permissions region),
      .setProtectionContext region ((p.table t).context region)]

theorem PpcPolicy.each_calls (p : PpcPolicy) (t : PpcTable) : p.Each t (p.calls t) := by
  have hmem (region : PpcRegion) {c : PpcCall}
      (hc : c ∈ [.setPermissions region ((p.table t).permissions region),
        .setProtectionContext region ((p.table t).context region)]) : c ∈ p.calls t :=
    List.mem_flatMap.mpr ⟨region, List.mem_finRange region, hc⟩
  refine ⟨fun c hc => ?_, fun region => hmem region List.mem_cons_self,
    fun region => hmem region (.tail _ List.mem_cons_self)⟩
  obtain ⟨region, -, hc⟩ := List.mem_flatMap.mp hc
  simp only [List.mem_cons, List.not_mem_nil, or_false] at hc
  rcases hc with rfl | rfl
  · rfl
  · rfl

/-- **The bulk writes grant in each region what the policy says, as calls for each region do, in
whatever order these are made**, and write the masks that the loop over the range of all regions
writes. -/
theorem bulk_eq_each (p : PpcPolicy) (ppc : Ppc) :
    (ppc.configureBulk p).table = p.table ppc.table ∧
    (∀ calls, p.Each ppc.table calls →
      (Calls.run PpcCall.exec calls ppc).2.table = (ppc.configureBulk p).table) ∧
    setPcMasksRange 0 222 0xFF p.pcExcluded ppc.ppcPcMasks =
      some (ppc.configureBulk p).ppcPcMasks := by
  refine ⟨ppc.table_configureBulk p, fun calls h => ?_, ?_⟩
  · have hrun : (Calls.run PpcCall.onTable calls ppc.table).2 =
        (Calls.run PpcCall.exec calls ppc).2.table :=
      congrArg Prod.snd (Calls.Views.run PpcCall.views calls ppc)
    rw [ppc.table_configureBulk, ← hrun]
    refine PpcTable.ext (funext fun region => ?_) (funext fun region => ?_)
    · exact (run_follows h.follows ppc.table region).1.resolve_right
        fun hne => hne.2 (h.permissions region)
    · exact (run_follows h.follows ppc.table region).2.resolve_right
        fun hne => hne.2 (h.context region)
  · obtain ⟨r', hok, hmask⟩ := @regionMask_setPcMasksRange 0 222 (by decide) 0xFF p.pcExcluded
      ppc.ppcPcMasks
    rw [hok, Option.some_inj]
    refine ext_word fun i => @ext_slot 32 8 4 (by decide) _ _ fun j hj => ?_
    have hdiv : (4 * i + j) / 4 = i := by omega
    have hmod : (4 * i + j) % 4 = j := by omega
    have hslot := hmask (4 * i + j)
    rw [regionMask, regionMask, hdiv, hmod] at hslot
    have h222 : (222 : Usize).toNat = 222 := rfl
    have h0 : (0 : Usize).toNat = 0 := rfl
    rw [hslot, Ppc.configureBulk, Ppc.configureBulkPcMasks, Ppc.configureBulkNsAttrs,
      word_fill (by decide), h222, h0]
    by_cases hi : i < 56
    · rw [if_pos (by omega), if_pos hi]
      have hbuilt := slot_buildPcMasks p.pcExcluded (show 4 * i + j < 224 by omega)
      rw [hdiv, hmod] at hbuilt
      exact hbuilt.symm
    · rw [if_neg (by omega), if_neg hi]

/-- From cleared registers on, the loop over all regions grants what the bulk writes do. -/
theorem bulk_eq_each_loop :
    let ppc : Ppc := ⟨0, 0, .replicate _ 0, .replicate _ 0, .replicate _ 0, .replicate _ 0⟩
    (Calls.run PpcCall.exec (PpcPolicy.psc3.calls ppc.table) ppc).2.table =
      (ppc.configureBulk .psc3).table :=
  (bulk_eq_each .psc3 _).2.1 _ (PpcPolicy.each_calls _ _)

end RuSpe
