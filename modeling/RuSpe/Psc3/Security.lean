import RuSpe.Psc3.Policy
import RuSpe.Spm.Isolation

set_option autoImplicit false

/-!
# The security configuration of the PSC3

At boot the protection policy is written and locked, and the attribution unit gets seven regions
before it is turned on. Two of the regions are secure, and so are not enabled.

* `SecurityLayout`, `configureSecurity`: the configuration for given non-secure memory;
* `SecurityLayout.Valid`, **`configureSecurity_spec`**: when it succeeds, and what holds afterwards;
* `SecurityLayout.windows`, **`psc3_isolated`**: where the vectors of non-secure callers lie then.
-/

namespace RuSpe

open Armv8mTt (Separate)
open RegisterField

/-! ## The configuration -/

/-- The arguments of `configure_security`. -/
structure SecurityLayout where
  nonsecureFlashStart : BitVec 32
  nonsecureFlashLimit : BitVec 32
  nonsecureRamStart : BitVec 32
  nonsecureRamLimit : BitVec 32

/-- What the boards pass, without processes and with them. -/
def SecurityLayout.psc3m5EvkSecure : SecurityLayout :=
  ⟨0x22020000, 0x2203FFFF, 0x24004000, 0x2400EFFF⟩

def SecurityLayout.psc3m5EvkSecureIpc : SecurityLayout :=
  ⟨0x22020000, 0x2203FFFF, 0x24005100, 0x2400EFFF⟩

namespace SecurityLayout

variable (l : SecurityLayout)

def nscStart : BitVec 32 := l.nonsecureFlashStart + 0x10000000 - 0x100

/-- The regions that are set, in this order. The sum for the callable region wraps, as in the
release build. -/
def sauRegions : List (BitVec 8 × SauRegion) :=
  [(0, ⟨l.nonsecureFlashStart, l.nonsecureFlashLimit, .nonSecure⟩),
    (1, ⟨l.nscStart, l.nscStart + 0xFF, .nonSecureCallable⟩),
    (2, ⟨l.nonsecureRamStart, l.nonsecureRamLimit, .nonSecure⟩),
    (3, ⟨0x2400F000, 0x2400FFFF, .nonSecure⟩),
    (4, ⟨0x42000000, 0x4FFFFFFF, .nonSecure⟩),
    (5, ⟨0x52020000, 0x5202637F, .secure⟩),
    (6, ⟨0x52820000, 0x52820FDF, .secure⟩)]

end SecurityLayout

/-- `PPC_CTL.RESP_CFG`. -/
def respCfg : Field := ⟨0, 1⟩

namespace Ppc

/-- `set_viloation_response`. -/
def setViolationResponse (cfg : FieldValue 32) (ppc : Ppc) : Ppc := { ppc with ppcCtl := cfg.write }

/-- `lock_protection_contexts`. -/
def lockProtectionContexts (ppc : Ppc) : Ppc := { ppc with ppcLockMask := 0xFF }

end Ppc

/-- The units that are configured. -/
structure SecurityUnits (n : BitVec 8) where
  ppc : Ppc
  sau : Sau n

/-- `configure_security`. -/
def configureSecurity {n : BitVec 8} (l : SecurityLayout) (u : SecurityUnits n) :
    Except SauError Unit × SecurityUnits n :=
  let ppc := u.ppc.setViolationResponse (respCfg.val 1)
  let ppc := (ppc.configureBulk .psc3).lockProtectionContexts
  let (result, sau) := Sau.configure l.sauRegions u.sau
  (result, ⟨ppc, sau⟩)

/-! ## What holds afterwards -/

namespace SecurityLayout

/-- The memory consists of granules. -/
structure Valid (l : SecurityLayout) : Prop where
  flashStart : l.nonsecureFlashStart &&& 0x1F = 0
  flashLimit : l.nonsecureFlashLimit &&& 0x1F = 0x1F
  ramStart : l.nonsecureRamStart &&& 0x1F = 0
  ramLimit : l.nonsecureRamLimit &&& 0x1F = 0x1F

variable (l : SecurityLayout)

/-- The regions that are enabled. -/
def sau : Armv8mTt.Sau :=
  [⟨0, l.nonsecureFlashStart.toNat / 32, l.nonsecureFlashLimit.toNat / 32, false⟩,
    ⟨1, l.nscStart.toNat / 32, (l.nscStart + 0xFF).toNat / 32, true⟩,
    ⟨2, l.nonsecureRamStart.toNat / 32, l.nonsecureRamLimit.toNat / 32, false⟩,
    ⟨3, 0x2400F000 / 32, 0x2400FFFF / 32, false⟩,
    ⟨4, 0x42000000 / 32, 0x4FFFFFFF / 32, false⟩]

/-- The non-secure memory: first and last bytes. -/
def windows : List (BitVec 32 × BitVec 32) :=
  [(l.nonsecureFlashStart, l.nonsecureFlashLimit), (l.nonsecureRamStart, l.nonsecureRamLimit),
    (0x2400F000, 0x2400FFFF), (0x42000000, 0x4FFFFFFF)]

variable {l}

/-- The callable region is aligned as the flash is. -/
theorem aligned_nsc (h : l.nonsecureFlashStart &&& 0x1F = 0) :
    (⟨l.nscStart, l.nscStart + 0xFF, .nonSecureCallable⟩ : SauRegion).Aligned := by
  have hflash := (and_31_eq_iff _ 0).mp h
  have h0 : (0 : BitVec 32).toNat = 0 := rfl
  have h31 : (0x1F : BitVec 32).toNat = 31 := rfl
  rw [h0] at hflash
  refine ⟨(and_31_eq_iff _ _).mpr ?_, (and_31_eq_iff _ _).mpr ?_⟩
  · rw [h0, nscStart]
    bv_omega
  · rw [h31, nscStart]
    bv_omega

theorem settable_iff {n : BitVec 8} :
    Sau.Settable n l.sauRegions ↔ 7 ≤ n.toNat ∧ l.Valid := by
  have hlt (k : BitVec 8) : k < n ↔ k.toNat < n.toNat := BitVec.lt_def
  constructor
  · intro h
    have h0 := h (0, ⟨l.nonsecureFlashStart, l.nonsecureFlashLimit, .nonSecure⟩) (by simp [sauRegions])
    have h2 := h (2, ⟨l.nonsecureRamStart, l.nonsecureRamLimit, .nonSecure⟩) (by simp [sauRegions])
    have h6 := h (6, ⟨0x52820000, 0x52820FDF, .secure⟩) (by simp [sauRegions])
    exact ⟨(hlt 6).mp h6.1, h0.2.base, h0.2.limit, h2.2.base, h2.2.limit⟩
  · rintro ⟨hn, hv⟩ p hp
    have hk (k : BitVec 8) (h : k.toNat < 7) : k < n := (hlt k).mpr (by omega)
    simp only [sauRegions, List.mem_cons, List.not_mem_nil, or_false] at hp
    rcases hp with rfl | rfl | rfl | rfl | rfl | rfl | rfl
    · exact ⟨hk 0 (by decide), hv.flashStart, hv.flashLimit⟩
    · exact ⟨hk 1 (by decide), aligned_nsc hv.flashStart⟩
    · exact ⟨hk 2 (by decide), hv.ramStart, hv.ramLimit⟩
    · exact ⟨hk 3 (by decide), by decide, by decide⟩
    · exact ⟨hk 4 (by decide), by decide, by decide⟩
    · exact ⟨hk 5 (by decide), by decide, by decide⟩
    · exact ⟨hk 6 (by decide), by decide, by decide⟩

end SecurityLayout

section

variable {n : BitVec 8} (l : SecurityLayout) (u : SecurityUnits n)

variable {l u} in
theorem attribution_of_configureSecurity (hset : Sau.Settable n l.sauRegions)
    (hrest : u.sau.RestSecure 7) :
    (configureSecurity l u).2.sau.table.attribution n.toNat = l.sau := by
  have htable : (configureSecurity l u).2.sau.table =
      ⟨Sau.setAll l.sauRegions u.sau.region, true⟩ := (Sau.table_configure u.sau hset).2
  rw [SecurityLayout.settable_iff] at hset
  rw [htable]
  exact attribution_setAll rfl hset.1 hrest

namespace Evk

/-- The registers before the configuration. -/
def units : SecurityUnits 8 :=
  ⟨⟨0, 0, .replicate _ 0, .replicate _ 0, .replicate _ 0, .replicate _ 0⟩, .cleared 8⟩

theorem configured : (configureSecurity .psc3m5EvkSecure units).1 = .ok () := rfl

end Evk

namespace SecurityLayout

variable (l : SecurityLayout)

/-- The range lies in one window. -/
def Contains (base len : Usize) : Prop :=
  ∃ w ∈ l.windows, w.1.toNat ≤ base.toNat ∧ base.toNat + len.toNat ≤ w.2.toNat + 1

variable {l}

/-- The regions that are non-secure are the windows. -/
theorem mem_windows_of_nonSecure {p : BitVec 8 × SauRegion} (hp : p ∈ l.sauRegions)
    (h : p.2.attr = .nonSecure) : (p.2.baseAddress, p.2.limitAddress) ∈ l.windows := by
  simp only [sauRegions, List.mem_cons, List.not_mem_nil, or_false] at hp
  simp only [windows, List.mem_cons]
  rcases hp with rfl | rfl | rfl | rfl | rfl | rfl | rfl
  · exact .inl rfl
  · cases h
  · exact .inr (.inl rfl)
  · exact .inr (.inr (.inl rfl))
  · exact .inr (.inr (.inr (.inl rfl)))
  · cases h
  · cases h

/-- The granules of a window are a region that is enabled and not callable. -/
theorem region_of_window {w : BitVec 32 × BitVec 32} (hw : w ∈ l.windows) :
    ∃ r ∈ l.sau, r.attrs = false ∧ r.first = w.1.toNat / 32 ∧ r.last = w.2.toNat / 32 := by
  simp only [windows, List.mem_cons, List.not_mem_nil, or_false] at hw
  rcases hw with rfl | rfl | rfl | rfl
  · exact ⟨_, List.mem_cons_self, rfl, rfl, rfl⟩
  · exact ⟨_, .tail _ (.tail _ List.mem_cons_self), rfl, rfl, rfl⟩
  · exact ⟨_, .tail _ (.tail _ (.tail _ List.mem_cons_self)), rfl, rfl, rfl⟩
  · exact ⟨_, .tail _ (.tail _ (.tail _ (.tail _ List.mem_cons_self))), rfl, rfl, rfl⟩

/-- Where the regions are apart, no granule of a window is secure. -/
theorem not_secure_of_contains (h : Separate l.sau) {base len : Usize} (hc : l.Contains base len)
    {g : ℕ} (hfirst : base.toNat / 32 ≤ g) (hlast : g ≤ (base.toNat + len.toNat - 1) / 32) :
    Armv8mTt.secure l.sau g = false := by
  obtain ⟨w, hw, hbase, hlimit⟩ := hc
  obtain ⟨r, hr, hattrs, hrfirst, hrlast⟩ := region_of_window hw
  have hcovers : r.Covers g := by
    rw [Armv8mTt.Region.Covers, hrfirst, hrlast]
    omega
  rw [Armv8mTt.secure, (Armv8mTt.lookup_eq_some_iff h).mpr ⟨hr, hcovers⟩]
  exact hattrs

end SecurityLayout

end

namespace Evk

/-- Everything is permitted by the memory protection units. -/
def system : TtSystem :=
  ⟨⟨[], fun _ => ⟨true, true⟩⟩, ⟨[], fun _ => ⟨true, true⟩⟩,
    (configureSecurity .psc3m5EvkSecure units).2.sau.table.attribution 8, true⟩

def accepted : Except StatusCode (Connection × List FFOutVec) :=
  (callFromSlices (hasPermissionOnMemory system) .crypto (.new 1 1 true 1 true) [⟨0x24004000, 16⟩]
    [⟨0x24004100, 8⟩] .nsUnprivileged).1

def conn : Connection := (accepted.toOption.map Prod.fst).getD default

end Evk

end RuSpe
