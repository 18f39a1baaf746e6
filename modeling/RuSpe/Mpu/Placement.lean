import RuSpe.Lib.FirstFit
import RuSpe.Mpu.Region

set_option autoImplicit false

/-!
# What finds a place in the MPU

`allocate_region` called for one window after another, with its errors ignored, keeps the windows
that find a place: the aligned ones, as long as there is a free slot, unless they overlap one that
was kept before.

* `Window`, `Window.Spans`, `windowRules`;
* `Holds`, **`Holds.allocate`**: a configuration holds the windows that found a place;
* **`Holds.exists_region_iff`**: what its regions allow, read off the windows.
-/

namespace RuSpe

open Armv8Mpu (Region Access)
open FirstFit (Rules)

/-- What `allocate_region` is asked for. -/
structure Window where
  base : Usize
  size : Usize
  permissions : Permissions
  deriving DecidableEq, Repr

instance (base size : Usize) : Decidable (Allocatable base size) :=
  decidable_of_iff (base.toNat % 32 = 0 ∧ 32 ≤ size.toNat ∧ size.toNat % 32 = 0)
    ⟨fun ⟨hb, hs, ha⟩ => ⟨hb, hs, ha⟩, fun ⟨hb, hs, ha⟩ => ⟨hb, hs, ha⟩⟩

namespace Window

variable (w w' : Window)

/-- The register pair for the window. -/
def region : Region := regionFor w.base w.size w.permissions

/-- The bytes of the window; if it wraps, there are none. -/
def Spans (a : Usize) : Prop :=
  w.base.toNat + w.size.toNat ≤ 2 ^ 32 ∧ w.base.toNat ≤ a.toNat ∧
    a.toNat < w.base.toNat + w.size.toNat

instance (a : Usize) : Decidable (w.Spans a) := inferInstanceAs (Decidable (_ ∧ _ ∧ _))

/-- The overlap test of `allocate_region`, whose ends wrap. -/
def overlaps : Bool := decide (w.base < w'.base + w'.size) && decide (w'.base < w.base + w.size)

end Window

/-- When a window finds a place in an MPU with `n` regions. -/
def windowRules (n : ℕ) : Rules Window where
  capacity := n
  fits w := decide (Allocatable w.base w.size)
  clash := Window.overlaps

variable {n : ℕ} {config : MpuConfig n} {ws : List Window}

/-- The configuration holds the windows in this order, in its first slots. -/
structure Holds (config : MpuConfig n) (ws : List Window) : Prop where
  allocatable : ∀ w ∈ ws, Allocatable w.base w.size
  length_le : ws.length ≤ n
  slot : ∀ i : Fin n, config[i] = (ws[(i : ℕ)]?).map Window.region

theorem holds_default : Holds (MpuConfig.default n) [] where
  allocatable _ h := nomatch h
  length_le := Nat.zero_le n
  slot i := by simp [MpuConfig.default]

/-- The end that `allocate_region` computes back from a stored region. -/
def existingEnd (r : Region) : Usize := (r.rlar &&& ~~~0x1F#32) + 0x20

theorem existingEnd_region {w : Window} (ha : Allocatable w.base w.size) :
    existingEnd w.region = w.base + w.size := by
  have hb := ha.base_aligned
  have hs := ha.size_aligned
  have hl := congrArg BitVec.toNat (limit_regionFor w.base w.size w.permissions)
  rw [Region.toNat_limit, Armv8Mpu.toNat_or_limit] at hl
  have hadd := BitVec.toNat_add w.base w.size
  have hsub := BitVec.toNat_sub (w.base + w.size) 1
  rw [show (1 : Usize).toNat = 1 from rfl] at hsub
  rw [existingEnd, show ~~~0x1F#32 = 0xFFFFFFE0#32 from rfl, ← BitVec.toNat_inj, BitVec.toNat_add,
    Armv8Mpu.toNat_and_base, show w.region.rlar.toNat / 32 * 32 =
      (w.base + w.size - 1).toNat / 32 * 32 by
        rw [Window.region]
        omega]
  rw [show (0x20 : Usize).toNat = 32 from rfl, hsub, hadd]
  omega

/-- The overlap test on a stored window. -/
theorem overlaps_region {w w' : Window} (h : Allocatable w'.base w'.size) :
    RuSpe.overlaps w.base (w.base + w.size) (some w'.region) = w.overlaps w' := by
  have hb := h.base_aligned
  have hbase : w'.region.rbar &&& ~~~0x1F#32 = w'.base := by
    rw [show ~~~0x1F#32 = 0xFFFFFFE0#32 from rfl]
    refine (base_regionFor w'.base w'.size w'.permissions).trans ?_
    rw [← BitVec.toNat_inj, Armv8Mpu.toNat_and_base]
    omega
  have hend : (w'.region.rlar &&& ~~~0x1F#32) + 0x20 = w'.base + w'.size := existingEnd_region h
  rw [RuSpe.overlaps, hbase, hend, Window.overlaps]

/-- The first free slot comes after the windows. -/
theorem Holds.freeSlot (h : Holds config ws) :
    freeSlot config = if hlt : ws.length < n then some ⟨ws.length, hlt⟩ else none := by
  have hnone : ∀ i : Fin n, config[i].isNone = decide (ws.length ≤ i) := by
    intro i
    rw [h.slot i, Option.isNone_map, Bool.eq_iff_iff, Option.isNone_iff_eq_none,
      List.getElem?_eq_none_iff, decide_eq_true_iff]
  split_ifs with hlt
  · refine List.find?_eq_some_iff_getElem.mpr ⟨by rw [hnone, decide_eq_true_iff],
      ws.length, by rwa [List.length_finRange], by rw [List.getElem_finRange]; rfl, fun j hj => ?_⟩
    rw [hnone, List.getElem_finRange]
    simpa using hj
  · refine List.find?_eq_none.mpr fun i _ => ?_
    rw [hnone, decide_eq_true_iff]
    have := i.isLt
    omega

/-- Whether a window overlaps a slot that is in use. -/
theorem Holds.any_overlaps (h : Holds config ws) (w : Window) :
    ((List.finRange n).any fun i =>
      RuSpe.overlaps w.base (w.base + w.size) (getElem config i i.isLt)) = false ↔
      ∀ w' ∈ ws, w.overlaps w' = false := by
  rw [List.any_eq_false]
  constructor
  · intro hn w' hw
    obtain ⟨i, hi, rfl⟩ := List.getElem_of_mem hw
    have := hn ⟨i, hi.trans_le h.length_le⟩ (List.mem_finRange _)
    rw [h.slot, List.getElem?_eq_getElem hi, Option.map_some,
      overlaps_region (h.allocatable _ hw)] at this
    exact Bool.eq_false_iff.mpr this
  · intro hn i _
    rw [h.slot]
    cases hw : ws[(i : ℕ)]? with
    | none => exact Bool.false_ne_true
    | some w' =>
      have hmem := List.mem_of_getElem? hw
      rw [Option.map_some, overlaps_region (h.allocatable _ hmem), hn w' hmem]
      exact Bool.false_ne_true

/-- A window is stored exactly when it finds a place. -/
theorem Holds.allocateRegion_eq_ok_iff (h : Holds config ws) (w : Window) {config' : MpuConfig n} :
    allocateRegion w.base w.size w.permissions config = .ok config' ↔
      ∃ ha : (windowRules n).Admits ws w,
        config' = config.set ws.length (some w.region) (show ws.length < n from ha.2.1) := by
  rw [RuSpe.allocateRegion_eq_ok_iff, h.any_overlaps, h.freeSlot]
  constructor
  · rintro ⟨hfit, hclash, i, hi, rfl⟩
    have hlt : ws.length < n := by
      by_contra hlt
      rw [dif_neg hlt] at hi
      cases hi
    rw [dif_pos hlt] at hi
    obtain rfl := Option.some.inj hi
    exact ⟨⟨decide_eq_true hfit, hlt, hclash⟩, rfl⟩
  · rintro ⟨⟨hfit, hlt, hclash⟩, rfl⟩
    exact ⟨of_decide_eq_true hfit, hclash, _, dif_pos hlt, rfl⟩

/-- **One call of `allocate_region`**, its error ignored. -/
theorem Holds.allocate (h : Holds config ws) (w : Window) :
    Holds ((allocateRegion w.base w.size w.permissions config).toOption.getD config)
      ((windowRules n).add ws w) := by
  by_cases ha : (windowRules n).Admits ws w
  · rw [(h.allocateRegion_eq_ok_iff w).mpr ⟨ha, rfl⟩, FirstFit.add_of_admits ha]
    refine ⟨fun w' hw => ?_, ?_, fun i => ?_⟩
    · rcases List.mem_append.mp hw with hw | hw
      · exact h.allocatable w' hw
      · rw [List.mem_singleton.mp hw]
        exact of_decide_eq_true ha.1
    · rw [List.length_append]
      exact ha.2.1
    · have hslot := h.slot i
      by_cases hi : ws.length = i
      · simp [Except.toOption, ← hi]
      · rw [show config[i] = config[(i : ℕ)] from rfl] at hslot
        by_cases hlt : (i : ℕ) < ws.length
        · simpa [Except.toOption, hi, List.getElem?_append_left hlt] using hslot
        · have hnone : (ws ++ [w])[(i : ℕ)]? = none := by
            rw [List.getElem?_eq_none_iff, List.length_append, List.length_singleton]
            omega
          rw [List.getElem?_eq_none (not_lt.mp hlt)] at hslot
          simpa [Except.toOption, hi, hnone] using hslot
  · rw [FirstFit.add_of_not_admits ha]
    cases hr : allocateRegion w.base w.size w.permissions config with
    | error e => exact h
    | ok config' =>
      obtain ⟨ha', -⟩ := (h.allocateRegion_eq_ok_iff w).mp hr
      exact absurd ha' ha

/-- **Which regions there are**, once the configuration is programmed. -/
theorem Holds.exists_region_iff (h : Holds config ws) {P : Region → Prop}
    (h₀ : ¬ P ⟨0, 0⟩) : (∃ r ∈ (configureMpu config).toList, P r) ↔ ∃ w ∈ ws, P w.region := by
  constructor
  · rintro ⟨r, hr, hp⟩
    obtain ⟨i, hi, rfl⟩ := List.getElem_of_mem hr
    have hin : i < n := by simpa using hi
    have hslot : config[i] = (ws[i]?).map Window.region := h.slot ⟨i, hin⟩
    have hget : (configureMpu config).toList[i] = config[i].getD ⟨0, 0⟩ := by simp [configureMpu]
    rw [hget, hslot] at hp
    cases hw : ws[i]? with
    | none =>
      rw [hw] at hp
      exact absurd hp h₀
    | some w =>
      rw [hw] at hp
      exact ⟨w, List.mem_of_getElem? hw, hp⟩
  · rintro ⟨w, hw, hp⟩
    obtain ⟨i, hi, rfl⟩ := List.getElem_of_mem hw
    have hin : i < n := hi.trans_le h.length_le
    have hslot : config[i] = (ws[i]?).map Window.region := h.slot ⟨i, hin⟩
    have hlen : i < (configureMpu config).toList.length := by simpa using hin
    refine ⟨(configureMpu config).toList[i], List.getElem_mem hlen, ?_⟩
    simp only [configureMpu, Vector.getElem_toList, Vector.getElem_map, hslot,
      List.getElem?_eq_getElem hi, Option.map_some, Option.getD_some]
    exact hp

end RuSpe
