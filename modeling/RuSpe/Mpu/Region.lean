import RuSpe.Lib.Armv8Mpu
import RuSpe.Psa.Types

set_option autoImplicit false

/-!
# Allocating MPU regions

`Mpu::allocate_region` packs a base, a size and a permission into a register pair and puts it into
the first free slot of a configuration.

* `Permissions`, `MpuError`, `MpuConfig`, `allocateRegion`, `configureMpu`;
* `regionFor`, **`allocateRegion_eq_ok_iff`**: what is stored, and when;
* `Faithful`, **`allocateRegion_faithful_iff`**: the stored pair means what was asked for exactly when the range
  does not wrap and the permission is not one of the two whose execute bit is turned around.
-/

namespace RuSpe

open Armv8Mpu (Region Access)

inductive Permissions
  | readWriteExecute
  | readWriteXN
  | readXN
  | readExecute
  | readPrivXN
  | readPrivExecute
  deriving DecidableEq, Repr

inductive MpuError
  | addressNotAligned
  | sizeTooSmall
  | noRegionsAvailable
  | regionOverlap
  deriving DecidableEq, Repr

/-- `MpuConfig`: the regions that are in use. -/
abbrev MpuConfig (n : ℕ) := Vector (Option Region) n

/-- `MpuConfig::default`. -/
def MpuConfig.default (n : ℕ) : MpuConfig n := Vector.replicate n none

/-- The value of a register field: `Field::val`. -/
def fieldVal (offset numbits : ℕ) (value : Usize) : Usize :=
  (value &&& (BitVec.ofNat 32 (2 ^ numbits - 1))) <<< offset

namespace MpuRbar

def base (value : Usize) : Usize := fieldVal 5 27 value
def sh (value : Usize) : Usize := fieldVal 3 2 value
def apReadWrite : Usize := fieldVal 1 2 0b01
def apReadOnlyPrivilegedOnly : Usize := fieldVal 1 2 0b10
def apReadOnly : Usize := fieldVal 1 2 0b11
def xnDisable : Usize := fieldVal 0 1 0
def xnEnable : Usize := fieldVal 0 1 1

end MpuRbar

namespace MpuRlar

def limit (value : Usize) : Usize := fieldVal 5 27 value
def pxnDisable : Usize := fieldVal 4 1 1
def attrindx (value : Usize) : Usize := fieldVal 1 3 value
def enableSet : Usize := fieldVal 0 1 1

end MpuRlar

/-- The `match permissions` of `allocate_region`: the fields AP and XN. -/
def Permissions.fields : Permissions → Usize × Usize
  | .readWriteExecute => (MpuRbar.apReadWrite, MpuRbar.xnEnable)
  | .readWriteXN => (MpuRbar.apReadWrite, MpuRbar.xnDisable)
  | .readXN => (MpuRbar.apReadOnly, MpuRbar.xnEnable)
  | .readExecute => (MpuRbar.apReadOnly, MpuRbar.xnDisable)
  | .readPrivXN => (MpuRbar.apReadOnlyPrivilegedOnly, MpuRbar.xnEnable)
  | .readPrivExecute => (MpuRbar.apReadOnlyPrivilegedOnly, MpuRbar.xnDisable)

/-- The overlap test of `allocate_region` against one slot. -/
def overlaps (baseAddr endAddr : Usize) : Option Region → Bool
  | none => false
  | some region =>
    let existingBase := region.rbar &&& ~~~0x1F#32
    let existingEnd := (region.rlar &&& ~~~0x1F#32) + 0x20
    decide (baseAddr < existingEnd) && decide (existingBase < endAddr)

variable {n : ℕ}

/-- The first slot that is not in use. -/
def freeSlot (config : MpuConfig n) : Option (Fin n) :=
  (List.finRange n).find? fun i => config[i].isNone

/-- `allocate_region`. The addition wraps, as in the release build. -/
def allocateRegion (base size : Usize) (permissions : Permissions) (config : MpuConfig n) :
    Except MpuError (MpuConfig n) :=
  let (access, execute) := permissions.fields
  if base &&& 0x1F#32 ≠ 0 then .error .addressNotAligned
  else
    let rbarVal := MpuRbar.base (base >>> 5) ||| MpuRbar.sh 0 ||| access ||| execute
    let endAddr := base + size
    if size < 32 then .error .sizeTooSmall
    else if endAddr &&& 0x1F#32 ≠ 0 then .error .addressNotAligned
    else
      let rlarVal := MpuRlar.enableSet ||| MpuRlar.limit ((endAddr - 1) >>> 5) |||
        MpuRlar.pxnDisable ||| MpuRlar.attrindx 0
      if (List.finRange n).any fun i => overlaps base endAddr config[i] then .error .regionOverlap
      else
        match freeSlot config with
        | some i => .ok (config.set i (some ⟨rbarVal, rlarVal⟩))
        | none => .error .noRegionsAvailable

/-- `configure_mpu`: the register pairs after programming every slot; a free slot is cleared. -/
def configureMpu (config : MpuConfig n) : Vector Region n :=
  config.map fun region => region.getD ⟨0, 0⟩

/-! ## What is stored -/

/-- The pair `allocate_region` stores. -/
def regionFor (base size : Usize) (permissions : Permissions) : Region where
  rbar := MpuRbar.base (base >>> 5) ||| MpuRbar.sh 0 ||| permissions.fields.1 |||
    permissions.fields.2
  rlar := MpuRlar.enableSet ||| MpuRlar.limit ((base + size - 1) >>> 5) ||| MpuRlar.pxnDisable |||
    MpuRlar.attrindx 0

/-- The checks of `allocate_region` on its arguments. -/
structure Allocatable (base size : Usize) : Prop where
  base_aligned : base.toNat % 32 = 0
  le_size : 32 ≤ size.toNat
  size_aligned : size.toNat % 32 = 0

section

variable {base size : Usize} {p : Permissions} {config : MpuConfig n}

/-- A range that is not aligned or too small is refused before the slots are looked at. -/
theorem allocateRegion_of_not_allocatable (h : ¬ Allocatable base size) :
    ∃ e, e ≠ .regionOverlap ∧ allocateRegion base size p config = .error e := by
  have hbase := Armv8Mpu.and_low_eq_zero_iff base
  have hend := Armv8Mpu.and_low_eq_zero_iff (base + size)
  rw [allocateRegion]
  dsimp only
  by_cases h1 : base &&& 0x1F#32 = 0
  swap
  · exact ⟨.addressNotAligned, nofun, if_pos h1⟩
  rw [if_neg (not_not.mpr h1)]
  by_cases h2 : size < 32
  · exact ⟨.sizeTooSmall, nofun, if_pos h2⟩
  rw [if_neg h2]
  by_cases h3 : (base + size) &&& 0x1F#32 = 0
  swap
  · exact ⟨.addressNotAligned, nofun, if_pos h3⟩
  have hb := hbase.mp h1
  have he := hend.mp h3
  have hs : 32 ≤ size.toNat := not_lt.mp h2
  rw [BitVec.toNat_add] at he
  exact absurd ⟨hb, hs, by omega⟩ h

/-- A range that is aligned and large enough goes to the first free slot, unless it overlaps. -/
theorem allocateRegion_of_allocatable (h : Allocatable base size) :
    allocateRegion base size p config =
      if (List.finRange n).any fun i => overlaps base (base + size) config[i] then
        .error .regionOverlap
      else
        match freeSlot config with
        | some i => .ok (config.set i (some (regionFor base size p)))
        | none => .error .noRegionsAvailable := by
  have hb := h.base_aligned
  have hs := h.size_aligned
  have h1 : base &&& 0x1F#32 = 0 := (Armv8Mpu.and_low_eq_zero_iff base).mpr hb
  have h2 : ¬ size < 32 := not_lt.mpr h.le_size
  have h3 : (base + size) &&& 0x1F#32 = 0 := by
    refine (Armv8Mpu.and_low_eq_zero_iff (base + size)).mpr ?_
    rw [BitVec.toNat_add]
    omega
  rw [allocateRegion]
  dsimp only
  rw [if_neg (not_not.mpr h1), if_neg h2, if_neg (not_not.mpr h3)]
  rfl

/-- **What `allocate_region` stores, and when.** -/
theorem allocateRegion_eq_ok_iff {config' : MpuConfig n} :
    allocateRegion base size p config = .ok config' ↔
      Allocatable base size ∧
      ((List.finRange n).any fun i => overlaps base (base + size) config[i]) = false ∧
      ∃ i, freeSlot config = some i ∧
        config' = config.set i (some (regionFor base size p)) := by
  by_cases hal : Allocatable base size
  swap
  · obtain ⟨e, -, he⟩ := allocateRegion_of_not_allocatable hal
    rw [he]
    exact ⟨nofun, fun h => absurd h.1 hal⟩
  rw [allocateRegion_of_allocatable hal]
  cases hany : (List.finRange n).any fun i => overlaps base (base + size) config[i] with
  | true => exact ⟨nofun, fun ⟨_, h, _⟩ => nomatch h⟩
  | false =>
    cases hf : freeSlot config with
    | none => exact ⟨nofun, fun ⟨_, _, i, hi, _⟩ => nomatch hi⟩
    | some i =>
      constructor
      · intro h
        exact ⟨hal, rfl, i, rfl, (Except.ok.inj h).symm⟩
      · rintro ⟨_, _, j, hj, rfl⟩
        obtain rfl := Option.some.inj hj
        rfl

end

/-! ## What the pair means -/

variable (base size : Usize) (p : Permissions)

/-- The name of a permission read as rights of unprivileged code. -/
def Permissions.grants : Permissions → Access → Bool
  | .readWriteExecute, _ => true
  | .readWriteXN, acc => acc != .execute
  | .readXN, acc => acc == .read
  | .readExecute, acc => acc != .write
  | .readPrivXN, _ => false
  | .readPrivExecute, _ => false

/-- The fields of `RBAR` below the base. -/
def Permissions.low (p : Permissions) : Usize := MpuRbar.sh 0 ||| p.fields.1 ||| p.fields.2

theorem rbar_regionFor : (regionFor base size p).rbar = MpuRbar.base (base >>> 5) ||| p.low := by
  simp only [regionFor, Permissions.low, BitVec.or_assoc]

/-- The base field leaves the low five bits alone. -/
theorem getLsbD_base (value : Usize) {i : ℕ} (hi : i < 5) :
    (MpuRbar.base value).getLsbD i = false := by
  simp [MpuRbar.base, fieldVal, hi]

theorem base_regionFor : (regionFor base size p).base = base &&& 0xFFFFFFE0#32 := by
  have hlow : p.low &&& 0xFFFFFFE0#32 = 0#32 := by cases p <;> decide
  have hb : MpuRbar.base (base >>> 5) &&& 0xFFFFFFE0#32 = base &&& 0xFFFFFFE0#32 := by
    apply BitVec.eq_of_getLsbD_eq
    intro i hi
    interval_cases i <;> simp [MpuRbar.base, fieldVal]
  rw [Region.base, rbar_regionFor, BitVec.and_or_distrib_right, hlow, hb, BitVec.or_zero]

theorem limit_regionFor : (regionFor base size p).limit = (base + size - 1) ||| 0x1F#32 := by
  have h5 : (MpuRlar.enableSet ||| MpuRlar.pxnDisable ||| MpuRlar.attrindx 0) ||| 0x1F#32 =
      0x1F#32 := by decide
  have hl : MpuRlar.limit ((base + size - 1) >>> 5) ||| 0x1F#32 = (base + size - 1) ||| 0x1F#32 := by
    apply BitVec.eq_of_getLsbD_eq
    intro i hi
    interval_cases i <;> simp [MpuRlar.limit, fieldVal]
  have hr : (regionFor base size p).rlar = MpuRlar.limit ((base + size - 1) >>> 5) |||
      (MpuRlar.enableSet ||| MpuRlar.pxnDisable ||| MpuRlar.attrindx 0) := by
    simp only [regionFor]
    ac_rfl
  rw [Region.limit, hr, BitVec.or_assoc, h5, hl]

theorem enabled_regionFor : (regionFor base size p).enabled = true := by
  simp [Region.enabled, regionFor, MpuRlar.limit, MpuRlar.pxnDisable, MpuRlar.attrindx,
    MpuRlar.enableSet, fieldVal]

/-- The stored pair grants what the permission says, but for the two permissions whose execute bit
is turned around. -/
theorem allows_regionFor (acc : Access) : (regionFor base size p).allows acc =
    ((p.grants acc || decide (p = .readWriteXN)) &&
      !(decide (p = .readWriteExecute) && decide (acc = .execute))) := by
  have h : ∀ i < 5, (regionFor base size p).rbar.getLsbD i = p.low.getLsbD i := fun i hi => by
    rw [rbar_regionFor, BitVec.getLsbD_or, getLsbD_base _ hi, Bool.false_or]
  cases acc <;>
    simp only [Region.allows, Region.anyPrivilege, Region.readOnly, Region.executeNever,
      h 0 (by omega), h 1 (by omega), h 2 (by omega)] <;>
    cases p <;> decide

/-- The last byte as a number, when the range ends inside the address space or at its end. -/
theorem toNat_last {base size : Usize} (hs : 32 ≤ size.toNat) (h : base.toNat + size.toNat ≤ 2 ^ 32) :
    (base + size - 1).toNat = base.toNat + size.toNat - 1 := by
  bv_omega

/-- A range that wraps ends before it starts. -/
theorem toNat_last_of_wraps {base size : Usize} (hs : 32 ≤ size.toNat)
    (h : 2 ^ 32 < base.toNat + size.toNat) :
    (base + size - 1).toNat = base.toNat + size.toNat - 2 ^ 32 - 1 := by
  bv_omega

/-- **The bytes the stored pair covers**: those asked for, or none if the range wraps. -/
theorem covers_regionFor (h : Allocatable base size) (a : Usize) :
    (regionFor base size p).Covers a ↔ base.toNat + size.toNat ≤ 2 ^ 32 ∧
      base.toNat ≤ a.toNat ∧ a.toNat < base.toNat + size.toNat := by
  have hb := h.base_aligned
  have hs := h.le_size
  have hsa := h.size_aligned
  rw [Region.Covers, enabled_regionFor, base_regionFor, limit_regionFor, BitVec.le_def,
    BitVec.le_def, Armv8Mpu.toNat_and_base, Armv8Mpu.toNat_or_limit, eq_self_iff_true, true_and]
  by_cases hw : base.toNat + size.toNat ≤ 2 ^ 32
  · rw [toNat_last hs hw]
    omega
  · rw [toNat_last_of_wraps hs (by omega)]
    omega

/-! ## Faithful encoding -/

/-- The pair `r` is an enabled region over exactly `[base, base + size)` that grants unprivileged
code exactly the rights `p` says. -/
def Faithful (r : Region) (base size : Usize) (p : Permissions) : Prop :=
  r.enabled = true ∧
  (∀ a : Usize, r.Covers a ↔ base.toNat ≤ a.toNat ∧ a.toNat < base.toNat + size.toNat) ∧
  ∀ acc, r.allows acc = p.grants acc

theorem allows_regionFor_eq_iff :
    (∀ acc, (regionFor base size p).allows acc = p.grants acc) ↔
      p ≠ .readWriteExecute ∧ p ≠ .readWriteXN := by
  constructor
  · intro h
    have hx := h .execute
    rw [allows_regionFor] at hx
    cases p <;> simp_all [Permissions.grants]
  · rintro ⟨h1, h2⟩ acc
    rw [allows_regionFor]
    simp [h1, h2]

theorem faithful_regionFor_iff (h : Allocatable base size) :
    Faithful (regionFor base size p) base size p ↔
      p ≠ .readWriteExecute ∧ p ≠ .readWriteXN ∧ base.toNat + size.toNat ≤ 2 ^ 32 := by
  have hcov : (∀ a : Usize, (regionFor base size p).Covers a ↔
      base.toNat ≤ a.toNat ∧ a.toNat < base.toNat + size.toNat) ↔
      base.toNat + size.toNat ≤ 2 ^ 32 := by
    constructor
    · intro hc
      have hs := h.le_size
      exact ((covers_regionFor base size p h base).mp ((hc base).mpr ⟨le_rfl, by omega⟩)).1
    · intro hw a
      rw [covers_regionFor base size p h]
      exact and_iff_right hw
  rw [Faithful, hcov, allows_regionFor_eq_iff]
  simp only [enabled_regionFor, true_and]
  tauto

theorem freeSlot_eq_some {config : MpuConfig n} {i : Fin n} (h : freeSlot config = some i) :
    config[i] = none := by
  have hi := List.find?_some h
  exact Option.isNone_iff_eq_none.mp hi

/-- A region put into a free slot can be told from the configuration. -/
theorem set_some_inj {config : MpuConfig n} {i j : Fin n} {r r' : Region} (h : config[i] = none)
    (heq : config.set i (some r) = config.set j (some r')) : r = r' := by
  have hi := congrArg (fun config : MpuConfig n => config[i]) heq
  by_cases hj : (j : ℕ) = i
  · obtain rfl := Fin.ext hj
    simpa using hi
  · have h' : config[(i : ℕ)] = none := h
    simp [hj, h'] at hi

/-- **The stored pair is faithful exactly when the permission is neither `ReadWriteExecute` nor
`ReadWriteXN` and the range does not wrap.** -/
theorem allocateRegion_faithful_iff {config config' : MpuConfig n}
    (h : allocateRegion base size p config = .ok config') :
    (∃ (i : Fin n) (r : Region), config[i] = none ∧ config' = config.set i (some r) ∧
      Faithful r base size p) ↔
      p ≠ .readWriteExecute ∧ p ≠ .readWriteXN ∧ base.toNat + size.toNat ≤ 2 ^ 32 := by
  obtain ⟨hal, -, i, hi, rfl⟩ := allocateRegion_eq_ok_iff.mp h
  have hfree : config[i] = none := freeSlot_eq_some hi
  rw [← faithful_regionFor_iff base size p hal]
  constructor
  · rintro ⟨j, r, -, hset, hr⟩
    obtain rfl := set_some_inj hfree hset
    exact hr
  · intro hr
    exact ⟨i, _, hfree, rfl, hr⟩

/-- A case of the two permissions that are turned around: a stack region becomes executable. -/
theorem readWriteXN_executable :
    ∃ config', allocateRegion 0x20000000 0x1000 .readWriteXN (MpuConfig.default 8) = .ok config' ∧
      ¬ ∃ (i : Fin 8) (r : Region), (MpuConfig.default 8)[i] = none ∧
        config' = (MpuConfig.default 8).set i (some r) ∧
        Faithful r 0x20000000 0x1000 .readWriteXN := by
  have h : allocateRegion 0x20000000 0x1000 .readWriteXN (MpuConfig.default 8) =
      .ok ((MpuConfig.default 8).set 0 (some (regionFor 0x20000000 0x1000 .readWriteXN))) := by
    decide
  refine ⟨_, h, ?_⟩
  rintro ⟨i, r, -, hset, -, -, hr⟩
  obtain rfl := set_some_inj (freeSlot_eq_some (i := 0) (by decide)) hset
  exact absurd (hr .execute) (by decide)

/-- The kernel's stack-like region with read-only rights is stored as asked for. -/
theorem readXN_faithful : ∃ config',
    allocateRegion 0x20000000 0x1000 .readXN (MpuConfig.default 8) = .ok config' ∧
      ∃ (i : Fin 8) (r : Region), (MpuConfig.default 8)[i] = none ∧
        config' = (MpuConfig.default 8).set i (some r) ∧
        Faithful r 0x20000000 0x1000 .readXN := by
  have h : allocateRegion 0x20000000 0x1000 .readXN (MpuConfig.default 8) =
      .ok ((MpuConfig.default 8).set 0 (some (regionFor 0x20000000 0x1000 .readXN))) := by
    decide
  exact ⟨_, h, (allocateRegion_faithful_iff _ _ _ h).mpr (by decide)⟩

end RuSpe
