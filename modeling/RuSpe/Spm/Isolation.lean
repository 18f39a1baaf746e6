import RuSpe.CortexM.Cmse
import RuSpe.CortexM.Sau
import RuSpe.Lib.BitTable
import RuSpe.Spm.CallFromSlices

set_option autoImplicit false

/-!
# The memory of non-secure callers

The SPM tests the two ends of each vector of a call. The answers tell the region of the attribution
unit, so a vector of a non-secure caller does not reach from one region into another, whatever the
memory protection unit says.

* `muscaHasPermissionOnMemory`: the permission check of the other platform;
* `RefusesSecure`: a check that finds both ends of a range non-secure;
* `numbered_attribution`, `mem_attribution`: the regions of the unit;
* `InNonSecureRegion`, `inNonSecureRegion_of_allowed`, `entry_of_inNonSecureRegion`: one vector;
* `forall_vecs_of_ok`: from one vector to all vectors of a call;
* **`nonSecureVecs_in_region`**: each vector of an accepted call lies in one non-secure region.
-/

namespace RuSpe

open Armv8mTt (Numbered covers_of_lookup getLsbD_response lookup_of_not_secure region_of_response)
open BitTable (ushiftRight_and_one_ne_zero)
open SauRegisters

/-! ## The Musca-B1 platform -/

namespace TestTarget

def nsReadable (self : TestTarget) : Bool := (self.bits >>> 20) &&& 1 ≠ 0

def nsReadAndWritable (self : TestTarget) : Bool := (self.bits >>> 21) &&& 1 ≠ 0

/-- The closure of `has_permission_on_memory` of the Musca-B1. -/
def muscaPermits (target : TestTarget) (isWrite : Bool) (caller : CallerAttributes) : Bool :=
  if caller.ns then
    if isWrite then target.nsReadAndWritable else target.nsReadable
  else if isWrite then target.readAndWritable else target.readable

end TestTarget

/-- `MuscaB1SecPlatform::has_permission_on_memory`. -/
def muscaHasPermissionOnMemory (sys : TtSystem) (base len : Usize) (isWrite : Bool)
    (caller : CallerAttributes) : Bool :=
  if len = 0 then true
  else if base = 0 then false
  else
    (TestTarget.checkRange sys base len (accessTypeFor caller)).any fun target =>
      target.muscaPermits isWrite caller

/-! ## Both ends are non-secure -/

/-- A range that is granted to a non-secure caller has one answer at both ends, and is not secure
there. -/
def RefusesSecure (sys : TtSystem) (perm : PermissionOracle) : Prop :=
  ∀ (base len : Usize) (isWrite : Bool) (caller : CallerAttributes), caller.ns = true → len ≠ 0 →
    base.toNat + len.toNat < 2 ^ 32 → perm base len isWrite caller = true →
    sys.answer (accessTypeFor caller) ((base.toNat + len.toNat - 1) / 32) =
        sys.answer (accessTypeFor caller) (base.toNat / 32) ∧
      Armv8mTt.secure sys.sau (base.toNat / 32) = false

section

variable {sys : TtSystem} {base len : Usize} {accessType : AccessType} {r : TestTarget}

/-- A range that passes the test has one answer at both ends. -/
theorem answer_ends_of_checkRange (hsum : base.toNat + len.toNat < 2 ^ 32)
    (h : TestTarget.checkRange sys base len accessType = some r) :
    r = TestTarget.check sys base accessType ∧
      sys.answer accessType ((base.toNat + len.toNat - 1) / 32) =
        sys.answer accessType (base.toNat / 32) := by
  have hwraps : ¬ SumWraps base len := fun hw => hsum.ne hw.2.2
  obtain ⟨rfl, hpos, -, hone | hsame⟩ := (checkRange_eq_some_iff hwraps).mp h
  · refine ⟨rfl, ?_⟩
    rw [show (base.toNat + len.toNat - 1) / 32 = base.toNat / 32 by omega]
  · exact ⟨rfl, hsame.2.2⟩

theorem secure_check (base : Usize) : (TestTarget.check sys base accessType).secure =
    Armv8mTt.secure sys.sau (base.toNat / 32) := by
  rw [← (getLsbD_response (base.toNat / 32)).1, Bool.eq_iff_iff, TestTarget.secure,
    decide_eq_true_iff]
  exact ushiftRight_and_one_ne_zero _ 22

theorem nsReadable_check (base : Usize) : (TestTarget.check sys base accessType).nsReadable =
    (((sys.mpu accessType).perms (sys.privilegedFor accessType) (base.toNat / 32)).r &&
      !Armv8mTt.secure sys.sau (base.toNat / 32)) := by
  rw [← (getLsbD_response (base.toNat / 32)).2.2, Bool.eq_iff_iff, TestTarget.nsReadable,
    decide_eq_true_iff]
  exact ushiftRight_and_one_ne_zero _ 20

theorem nsReadAndWritable_check (base : Usize) :
    (TestTarget.check sys base accessType).nsReadAndWritable =
      (((sys.mpu accessType).perms (sys.privilegedFor accessType) (base.toNat / 32)).rw &&
        !Armv8mTt.secure sys.sau (base.toNat / 32)) := by
  rw [← (getLsbD_response (base.toNat / 32)).2.1, Bool.eq_iff_iff, TestTarget.nsReadAndWritable,
    decide_eq_true_iff]
  exact ushiftRight_and_one_ne_zero _ 21

end

theorem refusesSecure_psc3 (sys : TtSystem) :
    RefusesSecure sys (hasPermissionOnMemory sys) := by
  intro base len isWrite caller hns hlen hsum h
  rw [hasPermissionOnMemory, if_neg hlen] at h
  split_ifs at h with hnull
  obtain ⟨r, hr, hpermits⟩ := (Option.any_eq_true _ _).mp h
  obtain ⟨rfl, hends⟩ := answer_ends_of_checkRange hsum hr
  refine ⟨hends, ?_⟩
  rw [TestTarget.permits, if_pos hns, Bool.and_eq_true, secure_check] at hpermits
  simpa using hpermits.1

theorem refusesSecure_musca (sys : TtSystem) :
    RefusesSecure sys (muscaHasPermissionOnMemory sys) := by
  intro base len isWrite caller hns hlen hsum h
  rw [muscaHasPermissionOnMemory, if_neg hlen] at h
  split_ifs at h with hnull
  obtain ⟨r, hr, hpermits⟩ := (Option.any_eq_true _ _).mp h
  obtain ⟨rfl, hends⟩ := answer_ends_of_checkRange hsum hr
  refine ⟨hends, ?_⟩
  rw [TestTarget.muscaPermits, if_pos hns] at hpermits
  split_ifs at hpermits with hw
  · rw [nsReadAndWritable_check, Bool.and_eq_true] at hpermits
    simpa using hpermits.2
  · rw [nsReadable_check, Bool.and_eq_true] at hpermits
    simpa using hpermits.2

/-! ## The regions of the unit -/

/-- A region of the unit begins and ends with a granule. -/
theorem SauRegion.granule_ofRegisters (rbar rlar : BitVec 32) :
    (SauRegion.ofRegisters rbar rlar).baseAddress.toNat % 32 = 0 ∧
      (SauRegion.ofRegisters rbar rlar).limitAddress.toNat % 32 = 31 := by
  have hlow (x : BitVec 32) : (x <<< 5) &&& 0x1F = 0 := by
    apply BitVec.eq_of_getLsbD_eq
    intro p hp
    rw [BitVec.getLsbD_and, BitVec.getLsbD_shiftLeft]
    by_cases h5 : p < 5
    · simp [h5]
    · have hzero : (0x1F : BitVec 32).getLsbD p = false := by
        interval_cases p <;> rfl
      rw [hzero, Bool.and_false]
      exact BitVec.getLsbD_zero.symm
  constructor
  · exact (and_31_eq_iff _ 0).mp (hlow _)
  · refine (and_31_eq_iff _ 0x1F).mp ?_
    have hor : (SauRegion.ofRegisters rbar rlar).limitAddress =
        rlarLaddr.read rlar <<< 5 ||| 0x1F := rfl
    rw [hor]
    apply BitVec.eq_of_getLsbD_eq
    intro p hp
    rw [BitVec.getLsbD_and, BitVec.getLsbD_or]
    cases (0x1F : BitVec 32).getLsbD p <;> simp

section

variable {n : BitVec 8} (s : Sau n)

/-- Where an entry of the attribution comes from. -/
theorem mem_attribution {r : Armv8mTt.Region Bool} (h : r ∈ s.table.attribution n.toNat) :
    s.table.enabled = true ∧ ∃ k < n.toNat, (s.region k).attr ≠ .secure ∧
      r = ⟨.ofNat 8 k, (s.region k).baseAddress.toNat / 32, (s.region k).limitAddress.toNat / 32,
        (s.region k).attr = .nonSecureCallable⟩ := by
  rw [SauTable.attribution] at h
  split_ifs at h with hon
  · obtain ⟨k, hk, hr⟩ := List.mem_filterMap.mp h
    refine ⟨hon, k, List.mem_range.mp hk, ?_⟩
    change (s.region k).granules k = some r at hr
    rw [SauRegion.granules] at hr
    cases hattr : (s.region k).attr with
    | secure =>
      rw [hattr] at hr
      cases hr
    | nonSecureCallable =>
      rw [hattr] at hr
      exact ⟨by decide, (Option.some.inj hr).symm⟩
    | nonSecure =>
      rw [hattr] at hr
      exact ⟨by decide, (Option.some.inj hr).symm⟩
  · cases h

/-- **The regions of the unit have different numbers.** -/
theorem numbered_attribution : Numbered (s.table.attribution n.toNat) := by
  intro r hr r' hr' hnumber
  obtain ⟨-, k, hk, -, rfl⟩ := mem_attribution s hr
  obtain ⟨-, k', hk', -, rfl⟩ := mem_attribution s hr'
  have hn := n.isLt
  have hnat := congrArg BitVec.toNat hnumber
  simp only [BitVec.toNat_ofNat] at hnat
  rw [Nat.mod_eq_of_lt (by omega), Nat.mod_eq_of_lt (by omega)] at hnat
  rw [hnat]

/-- The range lies in a region of the unit that is non-secure and not callable. -/
def InNonSecureRegion (base len : Usize) : Prop :=
  s.table.enabled = true ∧ ∃ k < n.toNat, (s.region k).attr = .nonSecure ∧
    (s.region k).baseAddress.toNat ≤ base.toNat ∧
    base.toNat + len.toNat ≤ (s.region k).limitAddress.toNat + 1

variable {s} {sys : TtSystem} {perm : PermissionOracle} {caller : CallerAttributes}

/-- Neither end of a vector of a non-secure caller is secure. -/
theorem not_secure_ends (hperm : RefusesSecure sys perm) (hns : caller.ns = true) {isWrite : Bool}
    {base len : Usize} (h : VecAllowed perm caller isWrite base len) (hlen : len ≠ 0) :
    Armv8mTt.secure sys.sau (base.toNat / 32) = false ∧
      Armv8mTt.secure sys.sau ((base.toNat + len.toNat - 1) / 32) = false := by
  obtain ⟨-, hsum, hgranted⟩ := h hlen
  obtain ⟨hends, hsecure⟩ := hperm base len isWrite caller hns hlen hsum hgranted
  have hbit := congrArg (BitVec.getLsbD · 22) hends
  exact ⟨hsecure, (getLsbD_response _).1.symm.trans
    (hbit.trans ((getLsbD_response _).1.trans hsecure))⟩

theorem inNonSecureRegion_of_allowed (hsau : sys.sau = s.table.attribution n.toNat)
    (hperm : RefusesSecure sys perm) (hns : caller.ns = true) {isWrite : Bool} {base len : Usize}
    (h : VecAllowed perm caller isWrite base len) (hlen : len ≠ 0) :
    InNonSecureRegion s base len := by
  obtain ⟨-, hsum, hgranted⟩ := h hlen
  obtain ⟨hends, hsecure⟩ := hperm base len isWrite caller hns hlen hsum hgranted
  have hnumbered : Numbered sys.sau := by
    rw [hsau]
    exact numbered_attribution s
  obtain ⟨r, hr, hattrs, hfirst, hlast⟩ := region_of_response hnumbered hends.symm hsecure
  rw [hsau] at hr
  obtain ⟨hon, k, hk, hne, rfl⟩ := mem_attribution s hr
  obtain ⟨hbase, hlimit⟩ := SauRegion.granule_ofRegisters (RegisterBank.word s.rbar k)
    (RegisterBank.word s.rlar k)
  have hpos : 0 < len.toNat := Nat.pos_of_ne_zero fun h0 => hlen (BitVec.eq_of_toNat_eq h0)
  have hfirst := hfirst.1
  have hlast := hlast.2
  dsimp only at hfirst hlast
  change (s.region k).baseAddress.toNat % 32 = 0 at hbase
  change (s.region k).limitAddress.toNat % 32 = 31 at hlimit
  refine ⟨hon, k, hk, ?_, by omega, by omega⟩
  cases hattr : (s.region k).attr with
  | secure => exact absurd hattr hne
  | nonSecureCallable =>
    dsimp only at hattrs
    rw [hattr] at hattrs
    cases hattrs
  | nonSecure => rfl

/-- What is so of each vector that is allowed is so of each vector of an accepted call. -/
theorem forall_vecs_of_ok {P : Usize × Usize → Prop} {handle : ServiceHandle}
    {ctrlParam : CtrlParam} {ins : List FFInVec} {outs outs' : List FFOutVec} {c : Connection}
    (h : (callFromSlices perm handle ctrlParam ins outs caller).1 = .ok (c, outs'))
    (hP : ∀ isWrite base len, len ≠ 0 → VecAllowed perm caller isWrite base len → P (base, len)) :
    ∀ p ∈ ins.map (fun v => (v.base, v.len)) ++ outs.map (fun v => (v.base, v.len)), p.2 ≠ 0 →
      P p := by
  obtain ⟨hA, -, -⟩ := acceptable_of_ok h
  intro p hp hlen
  rcases List.mem_append.mp hp with hp | hp
  · obtain ⟨v, hv, rfl⟩ := List.mem_map.mp hp
    exact hP false v.base v.len hlen (hA.ins v hv)
  · obtain ⟨v, hv, rfl⟩ := List.mem_map.mp hp
    exact hP true v.base v.len hlen (hA.outs v hv)

/-- In a unit that has been configured the region is an entry of the list. -/
theorem entry_of_inNonSecureRegion {l : List (BitVec 8 × SauRegion)}
    (hl : l.map (·.1.toNat) = List.range l.length) (hset : Sau.Settable n l)
    (hrest : s.RestSecure l.length) {base len : Usize}
    (h : InNonSecureRegion (Sau.configure l s).2 base len) :
    ∃ p ∈ l, p.2.attr = .nonSecure ∧ p.2.baseAddress.toNat ≤ base.toNat ∧
      base.toNat + len.toNat ≤ p.2.limitAddress.toNat + 1 := by
  obtain ⟨-, k, hk, hattr, hbase, hlimit⟩ := h
  have hregion : (Sau.configure l s).2.region = Sau.setAll l s.region :=
    congrArg SauTable.regions (Sau.table_configure s hset).2
  rw [hregion] at hattr hbase hlimit
  rcases Nat.lt_or_ge k l.length with hlt | hge
  · have hmem : k ∈ l.map (·.1.toNat) := by rwa [hl, List.mem_range]
    obtain ⟨p, hp, rfl⟩ := List.mem_map.mp hmem
    rw [Sau.setAll_of_mem (hl ▸ List.nodup_range) hp] at hattr hbase hlimit
    exact ⟨p, hp, hattr, hbase, hlimit⟩
  · rw [Sau.setAll_of_notMem (by rwa [hl, List.mem_range, not_lt]), hrest k hge hk] at hattr
    cases hattr

end

namespace OneRegion

/-- A unit with one region. -/
def unit : Sau 8 :=
  (Sau.setRegion 0 ⟨0x24004000, 0x2400EFFF, .nonSecure⟩
    ⟨0, 0, .replicate _ 0, .replicate _ 0⟩).2.enable

/-- Everything is permitted by the memory protection units. -/
def system : TtSystem :=
  ⟨⟨[], fun _ => ⟨true, true⟩⟩, ⟨[], fun _ => ⟨true, true⟩⟩, unit.table.attribution 8, true⟩

def accepted : Except StatusCode (Connection × List FFOutVec) :=
  (callFromSlices (muscaHasPermissionOnMemory system) .crypto (.new 1 1 true 1 true)
    [⟨0x24004000, 16⟩] [⟨0x24004100, 8⟩] .nsUnprivileged).1

def conn : Connection := (accepted.toOption.map Prod.fst).getD default

end OneRegion

end RuSpe
