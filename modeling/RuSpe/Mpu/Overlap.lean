import RuSpe.Mpu.Placement

set_option autoImplicit false

/-!
# Whether regions overlap

Calls of `allocate_region` one after another, from the default configuration. The overlap test works
with ends: that of the range asked for, and those it computes back from the stored limits. All are
right as long as no range reaches the end of the address space.

* `allocateNext`, `allocateAll`: the calls;
* `Window.EndsInside`, **`Window.overlaps_iff`**: when the test is right;
* `NeverOverlaps`, **`neverOverlaps_of_endsInside`**: what then holds in every configuration.
-/

namespace RuSpe

open Armv8Mpu (Region)

variable {n : ℕ}

/-- The configuration after a call of `allocate_region`, whatever its result. -/
def allocateNext (config : MpuConfig n) (w : Window) : MpuConfig n :=
  (allocateRegion w.base w.size w.permissions config).toOption.getD config

variable (n) in
/-- The configuration after some calls. -/
def allocateAll (ws : List Window) : MpuConfig n := ws.foldl allocateNext (MpuConfig.default n)

theorem holds_allocateAll (ws : List Window) :
    Holds (allocateAll n ws) ((windowRules n).place ws) := by
  suffices h : ∀ (config : MpuConfig n) (placed : List Window), Holds config placed →
      Holds (ws.foldl allocateNext config) (ws.foldl (windowRules n).add placed) by
    exact h _ [] holds_default
  induction ws with
  | nil => exact fun config placed h => h
  | cons w ws ih => exact fun config placed h => ih _ _ (h.allocate w)

/-! ## The overlap test -/

/-- The range ends before the last byte of the address space. -/
def Window.EndsInside (w : Window) : Prop := w.base.toNat + w.size.toNat < 2 ^ 32

instance (w : Window) : Decidable w.EndsInside := inferInstanceAs (Decidable (_ < _))

section

variable {w w' : Window}

/-- **The test says whether the two ranges share a byte.** -/
theorem Window.overlaps_iff (hw : w.EndsInside) (hw' : w'.EndsInside)
    (ha : Allocatable w.base w.size) (ha' : Allocatable w'.base w'.size) :
    w.overlaps w' = true ↔ ∃ a, w'.Spans a ∧ w.Spans a := by
  have hs := ha.le_size
  have hs' := ha'.le_size
  rw [EndsInside] at hw hw'
  have hlt : w.overlaps w' = true ↔ w.base.toNat < w'.base.toNat + w'.size.toNat ∧
      w'.base.toNat < w.base.toNat + w.size.toNat := by
    rw [overlaps, Bool.and_eq_true, decide_eq_true_iff, decide_eq_true_iff, BitVec.lt_def,
      BitVec.lt_def, BitVec.toNat_add, BitVec.toNat_add, Nat.mod_eq_of_lt hw, Nat.mod_eq_of_lt hw']
  rw [hlt]
  constructor
  · rintro ⟨h, h'⟩
    -- the range that starts later starts inside the other one
    by_cases hle : w.base.toNat ≤ w'.base.toNat
    · exact ⟨w'.base, ⟨by omega, by omega, by omega⟩, ⟨by omega, by omega, by omega⟩⟩
    · exact ⟨w.base, ⟨by omega, by omega, by omega⟩, ⟨by omega, by omega, by omega⟩⟩
  · rintro ⟨a, h, h'⟩
    rw [Spans] at h h'
    omega

end

/-! ## Every configuration -/

/-- The configuration before a call for `w` has no byte in two regions, and the call does what the
range says. -/
structure NeverOverlaps (config : MpuConfig n) (w : Window) : Prop where
  disjoint : ∀ (i j : Fin n) (r r' : Region) (a : Usize), getElem config i i.isLt = some r →
    getElem config j j.isLt = some r' → r.Covers a → r'.Covers a → i = j
  overlap_iff : allocateRegion w.base w.size w.permissions config = .error .regionOverlap ↔
    Allocatable w.base w.size ∧
      ∃ (i : Fin n) (r : Region) (a : Usize),
        getElem config i i.isLt = some r ∧ r.Covers a ∧ w.Spans a
  added : ∀ config', allocateRegion w.base w.size w.permissions config = .ok config' →
    ∃ (i : Fin n) (r : Region), getElem config i i.isLt = none ∧
      config' = config.set i (some r) i.isLt ∧ ∀ a, r.Covers a ↔ w.Spans a
  refused : ∀ e, allocateRegion w.base w.size w.permissions config = .error e →
    allocateNext config w = config
  ends : Allocatable w.base w.size → (w.base + w.size).toNat = w.base.toNat + w.size.toNat
  existingEnds : ∀ (i : Fin n) (r : Region), getElem config i i.isLt = some r →
    (existingEnd r).toNat = (r.rlar &&& ~~~0x1F#32).toNat + 32

section

variable {config : MpuConfig n} {placed : List Window} {w : Window}

/-- A region of the configuration is that of a window that found a place. -/
theorem Holds.exists_window (h : Holds config placed) {i : Fin n} {r : Region}
    (hr : getElem config i i.isLt = some r) : ∃ w', placed[(i : ℕ)]? = some w' ∧ r = w'.region := by
  rw [h.slot i] at hr
  obtain ⟨w', hw', rfl⟩ := Option.map_eq_some_iff.mp hr
  exact ⟨w', hw', rfl⟩

/-- The bytes of a window that found a place. -/
theorem Holds.covers_iff (h : Holds config placed) (hw : w ∈ placed) (a : Usize) :
    w.region.Covers a ↔ w.Spans a :=
  covers_regionFor w.base w.size w.permissions (h.allocatable w hw) a

/-- Two windows that found a place share no byte. -/
theorem Holds.eq_of_covers (h : Holds config placed)
    (hp : placed.Pairwise fun w w' => w'.overlaps w = false) (he : ∀ w ∈ placed, w.EndsInside)
    {i j : ℕ} {w w' : Window} {a : Usize} (hi : placed[i]? = some w) (hj : placed[j]? = some w')
    (ha : w.Spans a) (ha' : w'.Spans a) : i = j := by
  obtain ⟨hil, rfl⟩ := List.getElem?_eq_some_iff.mp hi
  obtain ⟨hjl, rfl⟩ := List.getElem?_eq_some_iff.mp hj
  have hmi := List.getElem_mem hil
  have hmj := List.getElem_mem hjl
  have hpair := List.pairwise_iff_getElem.mp hp
  rcases lt_trichotomy i j with hlt | rfl | hlt
  · have ho := (Window.overlaps_iff (he _ hmj) (he _ hmi) (h.allocatable _ hmj)
      (h.allocatable _ hmi)).mpr ⟨a, ha, ha'⟩
    rw [hpair i j hil hjl hlt] at ho
    cases ho
  · rfl
  · have ho := (Window.overlaps_iff (he _ hmi) (he _ hmj) (h.allocatable _ hmi)
      (h.allocatable _ hmj)).mpr ⟨a, ha', ha⟩
    rw [hpair j i hjl hil hlt] at ho
    cases ho

/-- When a call is refused for an overlap. -/
theorem Holds.allocateRegion_eq_regionOverlap_iff (h : Holds config placed) :
    allocateRegion w.base w.size w.permissions config = .error .regionOverlap ↔
      Allocatable w.base w.size ∧ ∃ w' ∈ placed, w.overlaps w' = true := by
  by_cases ha : Allocatable w.base w.size
  swap
  · obtain ⟨e, hne, he⟩ := allocateRegion_of_not_allocatable ha
    rw [he]
    exact iff_of_false (fun heq => hne (Except.error.inj heq)) fun hw => ha hw.1
  have hany := h.any_overlaps w
  rw [allocateRegion_of_allocatable ha, and_iff_right ha]
  cases ho : (List.finRange n).any fun i =>
      RuSpe.overlaps w.base (w.base + w.size) (getElem config i i.isLt) with
  | true =>
    rw [ho] at hany
    refine iff_of_true rfl ?_
    by_contra hnone
    push Not at hnone
    exact Bool.noConfusion (hany.mpr fun w' hw' => Bool.eq_false_iff.mpr (hnone w' hw'))
  | false =>
    have hnone := hany.mp ho
    refine iff_of_false ?_ fun ⟨w', hw', hx⟩ => Bool.noConfusion ((hnone w' hw').symm.trans hx)
    cases RuSpe.freeSlot config <;> exact nofun

/-- The test says whether a region of the configuration shares a byte with the range. -/
theorem Holds.exists_overlaps_iff (h : Holds config placed) (he : ∀ w ∈ placed, w.EndsInside)
    (ha : Allocatable w.base w.size) (hw : w.EndsInside) :
    (∃ w' ∈ placed, w.overlaps w' = true) ↔
      ∃ (i : Fin n) (r : Region) (a : Usize),
        getElem config i i.isLt = some r ∧ r.Covers a ∧ w.Spans a := by
  constructor
  · rintro ⟨w', hw', ho⟩
    obtain ⟨a, ha', haw⟩ := (Window.overlaps_iff hw (he w' hw') ha (h.allocatable w' hw')).mp ho
    obtain ⟨i, hi, rfl⟩ := List.getElem_of_mem hw'
    refine ⟨⟨i, hi.trans_le h.length_le⟩, _, a, ?_, (h.covers_iff hw' a).mpr ha', haw⟩
    rw [h.slot, List.getElem?_eq_getElem hi, Option.map_some]
  · rintro ⟨i, r, a, hi, ha', haw⟩
    obtain ⟨w', hw', rfl⟩ := h.exists_window hi
    have hm := List.mem_of_getElem? hw'
    exact ⟨w', hm, (Window.overlaps_iff hw (he w' hm) ha (h.allocatable w' hm)).mpr
      ⟨a, (h.covers_iff hm a).mp ha', haw⟩⟩

/-- The end that is computed back from a stored limit. -/
theorem Holds.toNat_existingEnd (h : Holds config placed) (he : ∀ w ∈ placed, w.EndsInside)
    {i : Fin n} {r : Region} (hi : getElem config i i.isLt = some r) :
    (existingEnd r).toNat = (r.rlar &&& ~~~0x1F#32).toNat + 32 := by
  obtain ⟨w', hw', rfl⟩ := h.exists_window hi
  have hm := List.mem_of_getElem? hw'
  have hal := h.allocatable w' hm
  have hlt : w'.base.toNat + w'.size.toNat < 2 ^ 32 := he w' hm
  have hend := congrArg BitVec.toNat (existingEnd_region hal)
  have hs := hal.le_size
  rw [BitVec.toNat_add, Nat.mod_eq_of_lt hlt] at hend
  rw [hend]
  rw [existingEnd, BitVec.toNat_add, show (0x20 : Usize).toNat = 32 from rfl] at hend
  omega

end

/-- **As long as no range reaches the end of the address space, no configuration has overlapping
regions, and an overlap is refused exactly when there is one.** -/
theorem neverOverlaps_of_endsInside (ws : List Window) (w : Window)
    (he : ∀ w' ∈ ws ++ [w], Allocatable w'.base w'.size → w'.EndsInside) :
    NeverOverlaps (allocateAll n ws) w := by
  have h := holds_allocateAll (n := n) ws
  have hp : ((windowRules n).place ws).Pairwise fun w w' => w'.overlaps w = false :=
    FirstFit.pairwise_place (R := windowRules n)
  have hin : ∀ w' ∈ (windowRules n).place ws, w'.EndsInside := fun w' hw' =>
    he w' (List.mem_append_left _ (FirstFit.mem_of_mem_place w' hw')) (h.allocatable w' hw')
  have hw : Allocatable w.base w.size → w.EndsInside :=
    he w (List.mem_append_right _ (List.mem_singleton_self w))
  refine ⟨?_, ?_, ?_, ?_, ?_, ?_⟩
  · intro i j r r' a hi hj ha ha'
    obtain ⟨wi, hwi, rfl⟩ := h.exists_window hi
    obtain ⟨wj, hwj, rfl⟩ := h.exists_window hj
    have hai := (h.covers_iff (List.mem_of_getElem? hwi) a).mp ha
    have haj := (h.covers_iff (List.mem_of_getElem? hwj) a).mp ha'
    exact Fin.ext (h.eq_of_covers hp hin hwi hwj hai haj)
  · rw [h.allocateRegion_eq_regionOverlap_iff]
    exact and_congr_right fun ha => h.exists_overlaps_iff hin ha (hw ha)
  · intro config' hok
    obtain ⟨hal, -, i, hi, rfl⟩ := allocateRegion_eq_ok_iff.mp hok
    exact ⟨i, w.region, freeSlot_eq_some hi, rfl,
      covers_regionFor w.base w.size w.permissions hal⟩
  · intro e hr
    rw [allocateNext, hr]
    rfl
  · intro ha
    have hlt : w.base.toNat + w.size.toNat < 2 ^ 32 := hw ha
    rw [BitVec.toNat_add, Nat.mod_eq_of_lt hlt]
  · intro i r hi
    exact h.toNat_existingEnd hin hi

/-! ## The end of the address space -/

/-- The last granule. -/
def topWindow : Window := ⟨0xFFFFFFE0, 32, .readWriteXN⟩

/-- Two regions of the RAM, one behind the other. -/
theorem neverOverlaps_ram : NeverOverlaps (allocateAll 8 [⟨0x20000000, 0x1000, .readWriteXN⟩])
    ⟨0x20001000, 0x100, .readXN⟩ :=
  neverOverlaps_of_endsInside _ _ (by decide)

/-- The last granule is given away twice. -/
theorem not_neverOverlaps_top : ¬ NeverOverlaps (allocateAll 8 [topWindow]) topWindow := by
  intro h
  have hslot : (allocateAll 8 [topWindow])[(0 : Fin 8)] = some topWindow.region := by decide
  have hno := h.overlap_iff.mpr ⟨by decide, 0, topWindow.region, 0xFFFFFFE0, hslot, by decide,
    by decide⟩
  exact absurd hno (by decide)

end RuSpe
