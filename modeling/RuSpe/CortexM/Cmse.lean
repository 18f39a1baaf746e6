import RuSpe.Lib.Armv8mTt
import RuSpe.Spm.Accept

set_option autoImplicit false

/-!
# Tests of memory ranges

A range of memory is tested at its two ends. What lies between them is not looked at.

* `TtSystem`, `TestTarget.check`, `TestTarget.checkRange`, `hasPermissionOnMemory`;
* `checkRange_eq_some_iff`: the result when the sum in the granule test does not wrap;
* `CoversRange`: the result holds for every byte of the range;
* `SumWraps`, `HidesChange`; **`coversRange_iff`**: when it does.
-/

namespace RuSpe

open Armv8mTt (response IsBoundary Separate)

/-! ## The functions -/

inductive AccessType
  | current
  | unprivileged
  | nonSecure
  | nonSecureUnprivileged
  deriving DecidableEq, Repr

/-- What a test in the secure state depends on: the units, and the current privilege. -/
structure TtSystem where
  secureMpu : Armv8mTt.Mpu
  nonSecureMpu : Armv8mTt.Mpu
  sau : Armv8mTt.Sau
  privileged : Bool

namespace TtSystem

variable (sys : TtSystem)

/-- The memory protection unit a variant of the instruction asks. -/
def mpu : AccessType → Armv8mTt.Mpu
  | .current | .unprivileged => sys.secureMpu
  | .nonSecure | .nonSecureUnprivileged => sys.nonSecureMpu

/-- Whether it asks for a privileged access. -/
def privilegedFor : AccessType → Bool
  | .current | .nonSecure => sys.privileged
  | .unprivileged | .nonSecureUnprivileged => false

/-- The answer for a granule. -/
def answer (accessType : AccessType) (g : ℕ) : BitVec 32 :=
  response (sys.mpu accessType) sys.sau (sys.privilegedFor accessType) g

end TtSystem

structure TestTarget where
  bits : BitVec 32
  accessType : AccessType
  deriving DecidableEq

namespace TestTarget

/-- `TestTarget::check`: one of the instructions `tt`, `ttt`, `tta` and `ttat`. -/
def check (sys : TtSystem) (addr : Usize) (accessType : AccessType) : TestTarget :=
  ⟨sys.answer accessType (addr.toNat / 32), accessType⟩

/-- `TestTarget::check_range`. -/
def checkRange (sys : TtSystem) (addr size : Usize) (accessType : AccessType) :
    Option TestTarget :=
  if size = 0 then none
  else
    match checkedAdd addr (size - 1) with
    | none => none
    | some last =>
      let testStart := check sys addr accessType
      let singleCheck := addr % 32 + size ≤ 32
      if singleCheck then some testStart
      else
        let testEnd := check sys last accessType
        if testStart.bits = testEnd.bits then some testStart else none

def readable (self : TestTarget) : Bool := (self.bits >>> 18) &&& 1 ≠ 0

def readAndWritable (self : TestTarget) : Bool := (self.bits >>> 19) &&& 1 ≠ 0

def secure (self : TestTarget) : Bool := (self.bits >>> 22) &&& 1 ≠ 0

end TestTarget

/-- The variant of the instruction for a caller. -/
def accessTypeFor (caller : CallerAttributes) : AccessType :=
  match caller.ns, caller.privileged with
  | true, false => .nonSecureUnprivileged
  | true, true => .nonSecure
  | false, false => .unprivileged
  | false, true => .current

/-- The closure of `has_permission_on_memory`. -/
def TestTarget.permits (target : TestTarget) (isWrite : Bool) (caller : CallerAttributes) : Bool :=
  let isSecurityStateValid := if caller.ns then !target.secure else target.secure
  let hasPermission := if isWrite then target.readAndWritable else target.readable
  isSecurityStateValid && hasPermission

/-- `Psc3SecPlatform::has_permission_on_memory`. -/
def hasPermissionOnMemory (sys : TtSystem) (base len : Usize) (isWrite : Bool)
    (caller : CallerAttributes) : Bool :=
  if len = 0 then true
  else if base = 0 then false
  else
    (TestTarget.checkRange sys base len (accessTypeFor caller)).any fun target =>
      target.permits isWrite caller

/-! ## What is claimed of a range -/

/-- A range that passes is one, and has the result at every byte; no sum wraps on the way. -/
structure CoversRange (sys : TtSystem) (addr size : Usize) (accessType : AccessType) : Prop where
  covered : ∀ r, TestTarget.checkRange sys addr size accessType = some r →
    0 < size.toNat ∧ addr.toNat + size.toNat ≤ 2 ^ 32 ∧
      ∀ k < size.toNat, (TestTarget.check sys (addr + BitVec.ofNat 32 k) accessType).bits = r.bits
  noOverflow : 0 < size.toNat → addr.toNat + (size.toNat - 1) < 2 ^ 32 →
    addr.toNat % 32 + size.toNat < 2 ^ 32

/-- The range begins behind the first byte of the address space, in its first granule, and reaches
to its end. -/
def SumWraps (addr size : Usize) : Prop :=
  0 < addr.toNat ∧ addr.toNat < 32 ∧ addr.toNat + size.toNat = 2 ^ 32

/-- The range is longer than a granule, and both of its ends have the same answer. -/
def SameEnds (sys : TtSystem) (addr size : Usize) (accessType : AccessType) : Prop :=
  addr.toNat + size.toNat ≤ 2 ^ 32 ∧ 32 < addr.toNat % 32 + size.toNat ∧
    sys.answer accessType ((addr.toNat + size.toNat - 1) / 32) =
      sys.answer accessType (addr.toNat / 32)

/-- Both ends have the same answer, but a boundary of a region between them has another one. -/
def HidesChange (sys : TtSystem) (addr size : Usize) (accessType : AccessType) : Prop :=
  SameEnds sys addr size accessType ∧
    ∃ g, addr.toNat / 32 < g ∧ g ≤ (addr.toNat + size.toNat - 1) / 32 ∧
      (IsBoundary (sys.mpu accessType).regions g ∨ IsBoundary sys.sau g) ∧
      sys.answer accessType g ≠ sys.answer accessType (addr.toNat / 32)

variable {sys : TtSystem} {addr size : Usize} {accessType : AccessType}

/-! ## The result -/

theorem not_wraps_of_not_sumWraps (h : ¬ SumWraps addr size)
    (hle : addr.toNat + size.toNat ≤ 2 ^ 32) : addr.toNat % 32 + size.toNat < 2 ^ 32 := by
  have hlt := size.isLt
  unfold SumWraps at h
  omega

/-- The result, when the sum does not wrap. -/
theorem checkRange_eq_some_iff (h : ¬ SumWraps addr size) {r : TestTarget} :
    TestTarget.checkRange sys addr size accessType = some r ↔
      r = TestTarget.check sys addr accessType ∧ 0 < size.toNat ∧
        addr.toNat + size.toNat ≤ 2 ^ 32 ∧
        (addr.toNat % 32 + size.toNat ≤ 32 ∨ SameEnds sys addr size accessType) := by
  have hzero : size = 0 ↔ size.toNat = 0 := by rw [← BitVec.toNat_inj]; rfl
  rw [TestTarget.checkRange]
  by_cases hsize : size = 0
  · rw [if_pos hsize]
    refine iff_of_false nofun fun hr => ?_
    rw [hzero] at hsize
    omega
  rw [if_neg hsize]
  rw [hzero] at hsize
  have hpred : (size - 1).toNat = size.toNat - 1 := by bv_omega
  rw [checkedAdd, hpred]
  by_cases hend : addr.toNat + (size.toNat - 1) < 2 ^ 32
  · rw [if_pos hend]
    dsimp only
    have hnowrap := not_wraps_of_not_sumWraps h (by omega)
    have hmod : (addr % 32).toNat = addr.toNat % 32 := BitVec.toNat_umod
    have hsum : (addr % 32 + size).toNat = addr.toNat % 32 + size.toNat := by
      rw [BitVec.toNat_add_of_lt (by rw [hmod]; exact hnowrap), hmod]
    have hlast : (addr + (size - 1)).toNat = addr.toNat + size.toNat - 1 := by
      rw [BitVec.toNat_add_of_lt (by rw [hpred]; exact hend), hpred]
      omega
    have hsingle : addr % 32 + size ≤ 32 ↔ addr.toNat % 32 + size.toNat ≤ 32 := by
      rw [BitVec.le_def, hsum]
      rfl
    by_cases hone : addr.toNat % 32 + size.toNat ≤ 32
    · rw [if_pos (hsingle.mpr hone), Option.some_inj, eq_comm]
      exact (and_iff_left ⟨by omega, by omega, .inl hone⟩).symm
    · rw [if_neg (fun hs => hone (hsingle.mp hs))]
      have hbits : (TestTarget.check sys addr accessType).bits
          = (TestTarget.check sys (addr + (size - 1)) accessType).bits ↔
          SameEnds sys addr size accessType := by
        unfold TestTarget.check SameEnds
        rw [hlast]
        dsimp only
        constructor
        · intro heq
          exact ⟨by omega, by omega, heq.symm⟩
        · rintro ⟨-, -, heq⟩
          exact heq.symm
      by_cases hsame : SameEnds sys addr size accessType
      · rw [if_pos (hbits.mpr hsame), Option.some_inj, eq_comm]
        exact (and_iff_left ⟨by omega, by omega, .inr hsame⟩).symm
      · rw [if_neg (fun hb => hsame (hbits.mp hb))]
        refine iff_of_false nofun ?_
        rintro ⟨-, -, -, hone' | hsame'⟩
        · exact hone hone'
        · exact hsame hsame'
  · rw [if_neg hend]
    refine iff_of_false nofun ?_
    rintro ⟨-, hpos, hle, -⟩
    omega

/-! ## When it holds for the whole range -/

/-- The byte with index `k`. -/
theorem bits_check_add {k : ℕ} (hk : k < size.toNat) (hle : addr.toNat + size.toNat ≤ 2 ^ 32) :
    (TestTarget.check sys (addr + BitVec.ofNat 32 k) accessType).bits
      = sys.answer accessType ((addr.toNat + k) / 32) := by
  have hk32 : (BitVec.ofNat 32 k).toNat = k := by
    rw [BitVec.toNat_ofNat, Nat.mod_eq_of_lt (by omega)]
  rw [TestTarget.check, BitVec.toNat_add_of_lt (by omega), hk32]

theorem not_coversRange_of_sumWraps (h : SumWraps addr size) :
    ¬ CoversRange sys addr size accessType := by
  intro hc
  obtain ⟨hpos, hlt, hsum⟩ := h
  have hno := hc.noOverflow (by omega) (by omega)
  omega

theorem not_coversRange_of_hidesChange (h : HidesChange sys addr size accessType) :
    ¬ CoversRange sys addr size accessType := by
  intro hc
  by_cases hwraps : SumWraps addr size
  · exact not_coversRange_of_sumWraps hwraps hc
  obtain ⟨hsame, g, hlt, hle, -, hne⟩ := h
  have hsum := hsame.1
  have hlong := hsame.2.1
  obtain ⟨-, -, hbytes⟩ := hc.covered _
    ((checkRange_eq_some_iff hwraps).mpr ⟨rfl, by omega, hsum, .inr hsame⟩)
  -- The first byte of the granule that differs.
  have hbyte := hbytes (g * 32 - addr.toNat) (by omega)
  rw [bits_check_add (by omega) hsum, show (addr.toNat + (g * 32 - addr.toNat)) / 32 = g by omega]
    at hbyte
  exact hne hbyte

/-- All bytes of the range have the answer of the first one. -/
theorem answer_eq (hhides : ¬ HidesChange sys addr size accessType) {k : ℕ}
    (hk : k < size.toNat)
    (h : addr.toNat % 32 + size.toNat ≤ 32 ∨ SameEnds sys addr size accessType) :
    sys.answer accessType ((addr.toNat + k) / 32) = sys.answer accessType (addr.toNat / 32) := by
  rcases h with hone | hsame
  · rw [show (addr.toNat + k) / 32 = addr.toNat / 32 by omega]
  · refine Armv8mTt.response_eq_of_boundaries ?_ _ (by omega)
      (show (addr.toNat + k) / 32 ≤ (addr.toNat + size.toNat - 1) / 32 by omega)
    intro x hlt hle hb
    by_contra hne
    exact hhides ⟨hsame, x, hlt, hle, hb, hne⟩

/-- A region lies between the ends of the range. -/
def HidesRegion (sys : TtSystem) (addr size : Usize) (accessType : AccessType) : Prop :=
  SameEnds sys addr size accessType ∧
    ((∃ r ∈ (sys.mpu accessType).regions, addr.toNat / 32 < r.first ∧
        r.last < (addr.toNat + size.toNat - 1) / 32) ∨
      ∃ r ∈ sys.sau, addr.toNat / 32 < r.first ∧ r.last < (addr.toNat + size.toNat - 1) / 32)

/-- **A range that passes has the result at every byte iff the sum does not wrap and no boundary
between equal ends has another answer.** With regions that are apart, this means that no region lies
between equal ends. -/
theorem coversRange_iff (sys : TtSystem) (addr size : Usize) (accessType : AccessType) :
    (CoversRange sys addr size accessType ↔
      ¬ SumWraps addr size ∧ ¬ HidesChange sys addr size accessType) ∧
    (Separate (sys.mpu accessType).regions → Separate sys.sau →
      (HidesChange sys addr size accessType ↔ HidesRegion sys addr size accessType)) := by
  refine ⟨⟨?_, ?_⟩, ?_⟩
  · intro hc
    exact ⟨fun h => not_coversRange_of_sumWraps h hc, fun h => not_coversRange_of_hidesChange h hc⟩
  · rintro ⟨hwraps, hhides⟩
    refine ⟨?_, ?_⟩
    · intro r hr
      obtain ⟨rfl, hpos, hsum, hcase⟩ := (checkRange_eq_some_iff hwraps).mp hr
      refine ⟨hpos, hsum, fun k hk => ?_⟩
      rw [bits_check_add hk hsum, answer_eq hhides hk hcase]
      rfl
    · intro hpos hend
      exact not_wraps_of_not_sumWraps hwraps (by omega)
  · intro hm hs
    unfold HidesChange HidesRegion
    refine and_congr_right fun hsame => ?_
    have hiff := Armv8mTt.forall_boundary_iff hm hs hsame.2.2
    simp only [not_and, not_lt] at hiff
    rw [← not_iff_not]
    push Not
    exact hiff

/-- What is permitted for such a range is permitted for every byte of it. -/
theorem permits_of_hasPermissionOnMemory {isWrite : Bool} {caller : CallerAttributes}
    (hc : CoversRange sys addr size (accessTypeFor caller))
    (h : hasPermissionOnMemory sys addr size isWrite caller = true) {k : ℕ}
    (hk : k < size.toNat) :
    (TestTarget.check sys (addr + BitVec.ofNat 32 k) (accessTypeFor caller)).permits isWrite caller
      = true := by
  have hsize : size ≠ 0 := by
    rintro rfl
    exact Nat.not_lt_zero k hk
  rw [hasPermissionOnMemory, if_neg hsize] at h
  split_ifs at h with hnull
  obtain ⟨r, hr, hpermits⟩ := (Option.any_eq_true _ _).mp h
  obtain ⟨-, -, hbytes⟩ := hc.covered r hr
  have hbits := hbytes k hk
  unfold TestTarget.permits TestTarget.secure TestTarget.readAndWritable TestTarget.readable
    at hpermits ⊢
  rw [hbits]
  exact hpermits

/-! ## A range that passes although it should not -/

/-- The non-secure unit has one region, which is read-only; all memory is non-secure. -/
def readOnlyGranule : TtSystem where
  secureMpu := ⟨[], fun _ => ⟨true, true⟩⟩
  nonSecureMpu := ⟨[⟨0, 0x1000001, 0x1000001, fun _ => ⟨true, false⟩⟩], fun _ => ⟨true, true⟩⟩
  sau := [⟨0, 0, 0x7FFFFFF, false⟩]
  privileged := true

theorem not_coversRange_readOnlyGranule :
    ¬ ∀ (sys : TtSystem) (addr size : Usize) (accessType : AccessType),
      CoversRange sys addr size accessType := by
  intro hall
  refine not_coversRange_of_hidesChange ?_ (hall readOnlyGranule 0x20000000 96 .nonSecure)
  exact ⟨⟨by decide, by decide, by decide⟩, 0x1000001, by decide, by decide,
    .inl ⟨_, List.mem_cons_self, .inl rfl⟩, by decide⟩

end RuSpe
