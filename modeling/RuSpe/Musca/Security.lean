import RuSpe.Musca.Mpc
import RuSpe.Spm.Isolation

set_option autoImplicit false

/-!
# The security configuration of the Musca-B1

At boot the attribution unit gets five regions and is turned on, and five protection controllers let
non-secure code into parts of their memories. The last region of the unit lies inside the one before
it, so that no region has its granules.

* `MuscaMpc`, `setNonSecureAll`: the controllers, and their configuration in a row;
* `configureMusca`, **`musca_configured`**: when the boot does not panic, and what holds afterwards;
* **`musca_isolated`**: the vectors of non-secure callers lie in memory that both units leave to them;
* **`musca_granted_iff`**: the ranges that are granted where the memory protection unit is off.
-/

namespace RuSpe

open Armv8mTt (Region hits hits_cons_of_covers hits_cons_of_not_covers)
open BitTable (bit)
open RegisterField

/-! ## The protection controllers -/

/-- The controllers of the board. -/
inductive MuscaMpc
  | eflash
  | extSram
  | sram1
  | sram2
  | sram3
  deriving DecidableEq, Repr

namespace MuscaMpc

def memoryBaseAddress : MuscaMpc → BitVec 32
  | eflash => 0
  | extSram => 0x20000000
  | sram1 => 0x20020000
  | sram2 => 0x20040000
  | sram3 => 0x20060000

/-- The first and the last byte of the memory for non-secure code. -/
def baseAddress : MuscaMpc → BitVec 32
  | eflash => 0x00102000
  | extSram => 0x20030000
  | sram1 => 0x20030000
  | sram2 => 0x20040000
  | sram3 => 0x20060000

def limitAddress : MuscaMpc → BitVec 32
  | eflash => 0x003F7FFF
  | extSram => 0x2007FFFF
  | sram1 => 0x2003FFFF
  | sram2 => 0x2005FFFF
  | sram3 => 0x2007FFFF

variable (c : MuscaMpc) (r : MpcRegs)

/-- `Mpc::new`. -/
def mpc : Mpc := .new c.memoryBaseAddress r

/-- The configuration of one controller. -/
def setNonSecure : Except MpcPanic MpcRegs :=
  (c.mpc r).setNonSecure c.baseAddress c.limitAddress r

/-- The block of the byte at `a` is non-secure. -/
def NonSecureAt (a : ℕ) : Prop :=
  bit r.lut ((a - c.memoryBaseAddress.toNat) / (c.mpc r).blockSize.toNat) = true

/-- The memory for non-secure code consists of blocks and lies in the memory. -/
structure Fits : Prop where
  base : (c.mpc r).blockSize.toNat ∣ c.baseAddress.toNat
  limit : (c.mpc r).blockSize.toNat ∣ c.limitAddress.toNat + 1
  limit_le : c.limitAddress ≤ (c.mpc r).memoryLimitAddress

variable {c r}

/-- Blocks are at most as large as the memory for non-secure code begins far in, so that the memory
begins with one. -/
theorem blockSize_dvd (h : (c.mpc r).blockSize.toNat ∣ c.baseAddress.toNat) :
    (c.mpc r).blockSize.toNat ∣ c.memoryBaseAddress.toNat := by
  have hsizes : ∀ k : BitVec 4, (1#32 <<< (k.zeroExtend 32 + 5)).toNat ∣ c.baseAddress.toNat →
      (1#32 <<< (k.zeroExtend 32 + 5)).toNat ∣ c.memoryBaseAddress.toNat := by
    cases c <;> decide
  exact hsizes r.blkCfgBlockSize h

theorem Fits.aligned (h : c.Fits r) : (c.mpc r).Aligned c.baseAddress c.limitAddress where
  memory := blockSize_dvd h.base
  base := h.base
  limit := h.limit
  base_ge := by
    change c.memoryBaseAddress ≤ c.baseAddress
    cases c <;> decide
  base_lt := by cases c <;> decide
  limit_le := h.limit_le

theorem fits_of_ok {r' : MpcRegs} (h : c.setNonSecure r = .ok r') : c.Fits r := by
  unfold setNonSecure Mpc.setNonSecure at h
  split_ifs at h with hrange hbase hlimit hzero
  rw [not_or, not_or, not_or, BitVec.not_lt, BitVec.not_lt, BitVec.not_lt] at hrange
  rw [Bool.not_eq_true, Bool.not_eq_false', isMultipleOf_iff] at hbase hlimit
  have hsum : (c.limitAddress + 1).toNat = c.limitAddress.toNat + 1 := by cases c <;> rfl
  rw [hsum] at hlimit
  exact ⟨hbase, hlimit, hrange.2.2.1⟩

/-- **The configuration of a controller lets non-secure code into the memory for it, and into no
other.** -/
theorem setNonSecure_ok (h : c.Fits r) : ∃ r', c.setNonSecure r = .ok r' ∧
    ∀ a, c.memoryBaseAddress.toNat ≤ a →
      (c.NonSecureAt r' a ↔
        c.NonSecureAt r a ∨ c.baseAddress.toNat ≤ a ∧ a ≤ c.limitAddress.toNat) := by
  have hal := h.aligned
  have hwrap : ¬ ((c.mpc r).memoryBaseAddress = 0 ∧ c.limitAddress = 0xFFFFFFFF) := fun hw =>
    absurd hw.2 (by cases c <;> decide)
  obtain ⟨r', hr', hbit⟩ := hal.setNonSecure_eq r
  obtain ⟨hmax, hcfg⟩ := Mpc.config_setNonSecure hr'
  have hmpc : c.mpc r' = c.mpc r := by rw [mpc, mpc, Mpc.new, Mpc.new, hmax, hcfg]
  refine ⟨r', hr', fun a ha => ?_⟩
  rw [NonSecureAt, NonSecureAt, hmpc, hbit, Bool.or_eq_true, decide_eq_true_iff,
    hal.toNat_endBlock hwrap, ← hal.blockInside_iff]
  exact or_congr_right (hal.blockInside_div_iff ha)

/-- All controllers, in the order of their configuration. -/
def all : List MuscaMpc := [eflash, extSram, sram1, sram2, sram3]

end MuscaMpc

/-- The controllers one after another. The first panic is the last call. -/
def setNonSecureAll : List MuscaMpc → (MuscaMpc → MpcRegs) → Except MpcPanic (MuscaMpc → MpcRegs)
  | [], r => .ok r
  | c :: cs, r =>
    match c.setNonSecure (r c) with
    | .error panic => .error panic
    | .ok r' => setNonSecureAll cs (Function.update r c r')

theorem setNonSecureAll_ok_iff {cs : List MuscaMpc} (hcs : cs.Nodup) {r r' : MuscaMpc → MpcRegs} :
    setNonSecureAll cs r = .ok r' ↔
      (∀ c ∈ cs, c.setNonSecure (r c) = .ok (r' c)) ∧ ∀ c ∉ cs, r' c = r c := by
  induction cs generalizing r with
  | nil =>
    rw [setNonSecureAll, Except.ok.injEq]
    exact ⟨fun h => ⟨fun c hc => (by cases hc), fun c _ => congrFun h.symm c⟩,
      fun h => funext fun c => (h.2 c List.not_mem_nil).symm⟩
  | cons c cs ih =>
    obtain ⟨hc, hcs⟩ := List.nodup_cons.mp hcs
    rw [setNonSecureAll, List.forall_mem_cons]
    cases hset : c.setNonSecure (r c) with
    | error panic =>
      dsimp only
      exact ⟨fun h => (by cases h), fun h => by cases h.1.1⟩
    | ok rc =>
      have hother {c' : MuscaMpc} (hne : c' ≠ c) : Function.update r c rc c' = r c' :=
        Function.update_of_ne hne _ _
      dsimp only
      rw [ih hcs, Except.ok.injEq]
      constructor
      · rintro ⟨hin, hout⟩
        refine ⟨⟨(hout c hc).trans (Function.update_self ..) |>.symm, fun c' hc' => ?_⟩,
          fun c' hc' => ?_⟩
        · rw [← hin c' hc', hother (ne_of_mem_of_not_mem hc' hc)]
        · obtain ⟨hne, hnot⟩ := not_or.mp (List.mem_cons.not.mp hc')
          exact (hout c' hnot).trans (hother hne)
      · rintro ⟨⟨rfl, hin⟩, hout⟩
        refine ⟨fun c' hc' => ?_, fun c' hc' => ?_⟩
        · rw [hother (ne_of_mem_of_not_mem hc' hc), hin c' hc']
        · by_cases hne : c' = c
          · rw [hne, Function.update_self]
          · rw [hother hne]
            exact hout c' (List.mem_cons.not.mpr (not_or.mpr ⟨hne, hc'⟩))

/-! ## The configuration -/

/-- The regions that are set, in this order. -/
def muscaSauRegions : List (BitVec 8 × SauRegion) :=
  [(0, ⟨0x00102000, 0x0027FFFF, .nonSecure⟩), (1, ⟨0x10100000, 0x10101FFF, .nonSecureCallable⟩),
    (2, ⟨0x20030000, 0x2007FFFF, .nonSecure⟩), (3, ⟨0x40000000, 0x4FFFFFFF, .nonSecure⟩),
    (4, ⟨0x40105000, 0x40105FFF, .nonSecure⟩)]

/-- `NscCfg::allow_sau_code_nsc`. -/
def allowSauCodeNsc : Field := ⟨0, 1⟩

/-- `ApbNsPpcExp1::uart1_ns`. -/
def uart1Ns : Field := ⟨5, 1⟩

/-- The units that are configured: the attribution unit, two registers of the security control
block, and the protection controllers. -/
structure MuscaUnits (n : BitVec 8) where
  sau : Sau n
  nscCfg : BitVec 32
  apbNsPpcExp1 : BitVec 32
  mpcs : MuscaMpc → MpcRegs

/-- The panics of the boot. -/
inductive MuscaPanic
  | sau (e : SauError)
  | mpc (panic : MpcPanic)

/-- The part of `main` between the SPM and the jump. -/
def configureMusca {n : BitVec 8} (u : MuscaUnits n) : Except MuscaPanic (MuscaUnits n) :=
  match Sau.configure muscaSauRegions u.sau with
  | (.error e, _) => .error (.sau e)
  | (.ok (), sau) =>
    match setNonSecureAll MuscaMpc.all u.mpcs with
    | .error panic => .error (.mpc panic)
    | .ok mpcs => .ok {
        sau := sau
        nscCfg := (allowSauCodeNsc.val 1).modify u.nscCfg
        apbNsPpcExp1 := (uart1Ns.val 1).modify u.apbNsPpcExp1
        mpcs := mpcs }

/-- The regions that are enabled. -/
def muscaSau : Armv8mTt.Sau :=
  [⟨0, 0x00102000 / 32, 0x0027FFFF / 32, false⟩, ⟨1, 0x10100000 / 32, 0x10101FFF / 32, true⟩,
    ⟨2, 0x20030000 / 32, 0x2007FFFF / 32, false⟩, ⟨3, 0x40000000 / 32, 0x4FFFFFFF / 32, false⟩,
    ⟨4, 0x40105000 / 32, 0x40105FFF / 32, false⟩]

theorem settable_muscaSauRegions {n : BitVec 8} :
    Sau.Settable n muscaSauRegions ↔ 5 ≤ n.toNat := by
  have hlt (k : BitVec 8) : k < n ↔ k.toNat < n.toNat := BitVec.lt_def
  refine ⟨fun h => (hlt 4).mp (h (4, ⟨0x40105000, 0x40105FFF, .nonSecure⟩) (by decide)).1,
    fun hn p hp => ?_⟩
  have hk (k : BitVec 8) (h : k.toNat < 5) : k < n := (hlt k).mpr (by omega)
  simp only [muscaSauRegions, List.mem_cons, List.not_mem_nil, or_false] at hp
  rcases hp with rfl | rfl | rfl | rfl | rfl
  · exact ⟨hk 0 (by decide), by decide, by decide⟩
  · exact ⟨hk 1 (by decide), by decide, by decide⟩
  · exact ⟨hk 2 (by decide), by decide, by decide⟩
  · exact ⟨hk 3 (by decide), by decide, by decide⟩
  · exact ⟨hk 4 (by decide), by decide, by decide⟩

section

variable {n : BitVec 8} {u u' : MuscaUnits n}

/-- What a boot without a panic does. -/
theorem configureMusca_ok_iff : configureMusca u = .ok u' ↔
    Sau.Settable n muscaSauRegions ∧ u'.sau = (Sau.configure muscaSauRegions u.sau).2 ∧
      u'.nscCfg = (allowSauCodeNsc.val 1).modify u.nscCfg ∧
      u'.apbNsPpcExp1 = (uart1Ns.val 1).modify u.apbNsPpcExp1 ∧
      ∀ c : MuscaMpc, c.setNonSecure (u.mpcs c) = .ok (u'.mpcs c) := by
  have hall : ∀ c, c ∈ MuscaMpc.all := fun c => by cases c <;> decide
  have hmpcs (r : MuscaMpc → MpcRegs) : setNonSecureAll MuscaMpc.all u.mpcs = .ok r ↔
      ∀ c : MuscaMpc, c.setNonSecure (u.mpcs c) = .ok (r c) := by
    rw [setNonSecureAll_ok_iff (by decide)]
    exact ⟨fun h c => h.1 c (hall c), fun h => ⟨fun c _ => h c, fun c hc => absurd (hall c) hc⟩⟩
  by_cases hset : Sau.Settable n muscaSauRegions
  · rw [configureMusca, (Sau.table_configure u.sau hset).1]
    dsimp only
    cases hr : setNonSecureAll MuscaMpc.all u.mpcs with
    | error panic =>
      dsimp only
      refine ⟨fun h => (by cases h), fun h => ?_⟩
      rw [(hmpcs u'.mpcs).mpr h.2.2.2.2] at hr
      cases hr
    | ok mpcs =>
      dsimp only
      constructor
      · intro h
        obtain rfl := Except.ok.inj h
        exact ⟨hset, rfl, rfl, rfl, (hmpcs mpcs).mp hr⟩
      · obtain ⟨sau, nscCfg, apbNsPpcExp1, mpcs'⟩ := u'
        rintro ⟨-, rfl, rfl, rfl, h⟩
        rw [(hmpcs mpcs').mpr h] at hr
        rw [Except.ok.inj hr]
  · obtain ⟨⟨e, he⟩, -⟩ := Sau.configure_error u.sau hset
    refine ⟨fun h => ?_, fun h => absurd h.1 hset⟩
    rw [configureMusca, show Sau.configure muscaSauRegions u.sau =
      (.error e, (Sau.configure muscaSauRegions u.sau).2) from Prod.ext he rfl] at h
    cases h

theorem attribution_of_configureMusca (h : configureMusca u = .ok u')
    (hrest : u.sau.RestSecure 5) : u'.sau.table.attribution n.toNat = muscaSau := by
  rw [configureMusca_ok_iff] at h
  obtain ⟨hset, hsau, -⟩ := h
  rw [hsau, (Sau.table_configure u.sau hset).2]
  rw [settable_muscaSauRegions] at hset
  exact attribution_setAll rfl hset hrest

/-- What the controllers let in after the boot. -/
theorem nonSecureAt_of_configureMusca (h : configureMusca u = .ok u') (c : MuscaMpc) {a : ℕ}
    (ha : c.memoryBaseAddress.toNat ≤ a) : c.NonSecureAt (u'.mpcs c) a ↔
      c.NonSecureAt (u.mpcs c) a ∨ c.baseAddress.toNat ≤ a ∧ a ≤ c.limitAddress.toNat := by
  rw [configureMusca_ok_iff] at h
  have hc := h.2.2.2.2 c
  obtain ⟨r', hr', hbit⟩ := MuscaMpc.setNonSecure_ok (MuscaMpc.fits_of_ok hc)
  rw [hc] at hr'
  rw [Except.ok.inj hr']
  exact hbit a ha

theorem exists_configureMusca (hn : 5 ≤ n.toNat) (hfits : ∀ c : MuscaMpc, c.Fits (u.mpcs c)) :
    ∃ u', configureMusca u = .ok u' := by
  choose r hr hbit using fun c => MuscaMpc.setNonSecure_ok (hfits c)
  refine ⟨⟨(Sau.configure muscaSauRegions u.sau).2, (allowSauCodeNsc.val 1).modify u.nscCfg,
    (uart1Ns.val 1).modify u.apbNsPpcExp1, r⟩, ?_⟩
  rw [configureMusca_ok_iff, settable_muscaSauRegions]
  exact ⟨hn, rfl, rfl, rfl, hr⟩

/-- The non-secure memory: first and last bytes. -/
def muscaWindows : List (BitVec 32 × BitVec 32) :=
  [(0x00102000, 0x0027FFFF), (0x20030000, 0x2007FFFF), (0x40000000, 0x4FFFFFFF)]

/-- The page of the last region. Two regions have its granules, so that it is secure. -/
def InSecurePage (a : ℕ) : Prop := 0x40105000 ≤ a ∧ a ≤ 0x40105FFF

instance (a : ℕ) : Decidable (InSecurePage a) := inferInstanceAs (Decidable (_ ∧ _))

/-- The range lies in one window, and neither begins nor ends in the page. -/
structure MuscaContains (base len : Usize) : Prop where
  window : ∃ w ∈ muscaWindows, w.1.toNat ≤ base.toNat ∧ base.toNat + len.toNat ≤ w.2.toNat + 1
  first : ¬ InSecurePage base.toNat
  last : ¬ InSecurePage (base.toNat + len.toNat - 1)

/-- The controllers let non-secure code in at the byte at `a`, if it is flash or memory. -/
structure LetIn (mpcs : MuscaMpc → MpcRegs) (a : ℕ) : Prop where
  flash : a < 0x20000000 → MuscaMpc.eflash.NonSecureAt (mpcs .eflash) a
  memory : 0x20000000 ≤ a → a < 0x40000000 → MuscaMpc.extSram.NonSecureAt (mpcs .extSram) a ∧
    ∃ c ∈ [MuscaMpc.sram1, .sram2, .sram3], c.NonSecureAt (mpcs c) a

/-- The regions of a granule of the page. -/
theorem hits_of_inSecurePage {a : ℕ} (h : InSecurePage a) :
    hits muscaSau (a / 32) = [⟨3, 0x40000000 / 32, 0x4FFFFFFF / 32, false⟩,
      ⟨4, 0x40105000 / 32, 0x40105FFF / 32, false⟩] := by
  unfold InSecurePage at h
  rw [muscaSau, hits_cons_of_not_covers (by rw [Region.covers_iff]; dsimp only; omega),
    hits_cons_of_not_covers (by rw [Region.covers_iff]; dsimp only; omega),
    hits_cons_of_not_covers (by rw [Region.covers_iff]; dsimp only; omega),
    hits_cons_of_covers (by rw [Region.covers_iff]; dsimp only; omega),
    hits_cons_of_covers (by rw [Region.covers_iff]; dsimp only; omega)]
  rfl

theorem not_inSecurePage {a : ℕ} (h : Armv8mTt.secure muscaSau (a / 32) = false) :
    ¬ InSecurePage a := by
  intro hpage
  rw [Armv8mTt.secure, Armv8mTt.lookup, hits_of_inSecurePage hpage] at h
  cases h

/-- A granule of a window that is not in the page is in one region, which is that of the window. -/
theorem hits_of_window {w : BitVec 32 × BitVec 32} (hw : w ∈ muscaWindows) :
    ∃ r : Armv8mTt.Region Bool, r.attrs = false ∧ ∀ a, w.1.toNat ≤ a → a ≤ w.2.toNat →
      ¬ InSecurePage a → hits muscaSau (a / 32) = [r] := by
  simp only [muscaWindows, List.mem_cons, List.not_mem_nil, or_false] at hw
  unfold InSecurePage
  rcases hw with rfl | rfl | rfl
  · refine ⟨⟨0, 0x00102000 / 32, 0x0027FFFF / 32, false⟩, rfl, fun a hfirst hlast _ => ?_⟩
    change 0x00102000 ≤ a at hfirst
    change a ≤ 0x0027FFFF at hlast
    rw [muscaSau, hits_cons_of_covers (by rw [Region.covers_iff]; dsimp only; omega),
      hits_cons_of_not_covers (by rw [Region.covers_iff]; dsimp only; omega),
      hits_cons_of_not_covers (by rw [Region.covers_iff]; dsimp only; omega),
      hits_cons_of_not_covers (by rw [Region.covers_iff]; dsimp only; omega),
      hits_cons_of_not_covers (by rw [Region.covers_iff]; dsimp only; omega)]
    rfl
  · refine ⟨⟨2, 0x20030000 / 32, 0x2007FFFF / 32, false⟩, rfl, fun a hfirst hlast _ => ?_⟩
    change 0x20030000 ≤ a at hfirst
    change a ≤ 0x2007FFFF at hlast
    rw [muscaSau, hits_cons_of_not_covers (by rw [Region.covers_iff]; dsimp only; omega),
      hits_cons_of_not_covers (by rw [Region.covers_iff]; dsimp only; omega),
      hits_cons_of_covers (by rw [Region.covers_iff]; dsimp only; omega),
      hits_cons_of_not_covers (by rw [Region.covers_iff]; dsimp only; omega),
      hits_cons_of_not_covers (by rw [Region.covers_iff]; dsimp only; omega)]
    rfl
  · refine ⟨⟨3, 0x40000000 / 32, 0x4FFFFFFF / 32, false⟩, rfl, fun a hfirst hlast hpage => ?_⟩
    change 0x40000000 ≤ a at hfirst
    change a ≤ 0x4FFFFFFF at hlast
    rw [muscaSau, hits_cons_of_not_covers (by rw [Region.covers_iff]; dsimp only; omega),
      hits_cons_of_not_covers (by rw [Region.covers_iff]; dsimp only; omega),
      hits_cons_of_not_covers (by rw [Region.covers_iff]; dsimp only; omega),
      hits_cons_of_covers (by rw [Region.covers_iff]; dsimp only; omega),
      hits_cons_of_not_covers (by rw [Region.covers_iff]; dsimp only; omega)]
    rfl

theorem bounds_of_window {w : BitVec 32 × BitVec 32} (hw : w ∈ muscaWindows) :
    0 < w.1.toNat ∧ w.2.toNat < 0x50000000 := by
  simp only [muscaWindows, List.mem_cons, List.not_mem_nil, or_false] at hw
  rcases hw with rfl | rfl | rfl <;> exact ⟨by decide, by decide⟩

/-- Each region of the list that is non-secure lies in a window. -/
theorem window_of_nonSecure {p : BitVec 8 × SauRegion} (hp : p ∈ muscaSauRegions)
    (h : p.2.attr = .nonSecure) : ∃ w ∈ muscaWindows, w.1.toNat ≤ p.2.baseAddress.toNat ∧
      p.2.limitAddress.toNat ≤ w.2.toNat := by
  simp only [muscaSauRegions, List.mem_cons, List.not_mem_nil, or_false] at hp
  rcases hp with rfl | rfl | rfl | rfl | rfl
  · exact ⟨_, List.mem_cons_self, le_rfl, le_rfl⟩
  · cases h
  · exact ⟨_, .tail _ List.mem_cons_self, le_rfl, le_rfl⟩
  · exact ⟨_, .tail _ (.tail _ List.mem_cons_self), le_rfl, le_rfl⟩
  · exact ⟨_, .tail _ (.tail _ List.mem_cons_self), by decide, by decide⟩

variable {sys : TtSystem} {caller : CallerAttributes}

theorem mpu_of_ns (hns : caller.ns = true) : sys.mpu (accessTypeFor caller) = sys.nonSecureMpu := by
  rw [accessTypeFor, hns]
  cases caller.privileged <;> rfl

/-- What is granted to a non-secure caller. -/
theorem muscaContains_of_allowed (h : configureMusca u = .ok u') (hrest : u.sau.RestSecure 5)
    (hsau : sys.sau = u'.sau.table.attribution n.toNat) (hns : caller.ns = true) {isWrite : Bool}
    {base len : Usize} (hallowed : VecAllowed (muscaHasPermissionOnMemory sys) caller isWrite base len)
    (hlen : len ≠ 0) : MuscaContains base len := by
  have hattribution : sys.sau = muscaSau := hsau.trans (attribution_of_configureMusca h hrest)
  rw [configureMusca_ok_iff] at h
  obtain ⟨hset, hu', -⟩ := h
  obtain ⟨hfirst, hlast⟩ :=
    not_secure_ends (refusesSecure_musca sys) hns hallowed hlen
  rw [hattribution] at hfirst hlast
  refine ⟨?_, not_inSecurePage hfirst, not_inSecurePage hlast⟩
  rw [hu'] at hsau
  obtain ⟨p, hp, hattr, hbase, hlimit⟩ := entry_of_inNonSecureRegion rfl hset hrest
    (inNonSecureRegion_of_allowed hsau (refusesSecure_musca sys) hns hallowed hlen)
  obtain ⟨w, hw, hwfirst, hwlast⟩ := window_of_nonSecure hp hattr
  exact ⟨w, hw, by omega, by omega⟩

/-- Both units leave the windows to non-secure code. -/
theorem letIn_of_window (h : configureMusca u = .ok u') {w : BitVec 32 × BitVec 32}
    (hw : w ∈ muscaWindows) {a : ℕ} (hfirst : w.1.toNat ≤ a) (hlast : a ≤ w.2.toNat) :
    LetIn u'.mpcs a := by
  have hset (c : MuscaMpc) (hbase : c.baseAddress.toNat ≤ a) (hlimit : a ≤ c.limitAddress.toNat) :
      c.NonSecureAt (u'.mpcs c) a := by
    have hmemory : c.memoryBaseAddress.toNat ≤ c.baseAddress.toNat := by cases c <;> decide
    exact (nonSecureAt_of_configureMusca h c (hmemory.trans hbase)).mpr (.inr ⟨hbase, hlimit⟩)
  simp only [muscaWindows, List.mem_cons, List.not_mem_nil, or_false] at hw
  rcases hw with rfl | rfl | rfl
  · change 0x00102000 ≤ a at hfirst
    change a ≤ 0x0027FFFF at hlast
    refine ⟨fun _ => hset .eflash ?_ ?_, fun h20 => ?_⟩
    · change 0x00102000 ≤ a
      omega
    · change a ≤ 0x003F7FFF
      omega
    · omega
  · change 0x20030000 ≤ a at hfirst
    change a ≤ 0x2007FFFF at hlast
    refine ⟨fun h20 => by omega, fun _ _ => ⟨hset .extSram hfirst hlast, ?_⟩⟩
    rcases Nat.lt_or_ge a 0x20040000 with h1 | h1
    · exact ⟨.sram1, List.mem_cons_self, hset .sram1 hfirst (Nat.le_of_lt_succ h1)⟩
    · rcases Nat.lt_or_ge a 0x20060000 with h2 | h2
      · exact ⟨.sram2, .tail _ List.mem_cons_self, hset .sram2 h1 (Nat.le_of_lt_succ h2)⟩
      · exact ⟨.sram3, .tail _ (.tail _ List.mem_cons_self), hset .sram3 h2 hlast⟩
  · change 0x40000000 ≤ a at hfirst
    change a ≤ 0x4FFFFFFF at hlast
    exact ⟨fun h20 => by omega, fun _ h40 => by omega⟩

/-- The answer at a granule of one region, where the memory protection unit permits everything. -/
theorem check_of_hits (hattribution : sys.sau = muscaSau)
    (hmpu : sys.nonSecureMpu = ⟨[], fun _ => ⟨true, true⟩⟩) (hns : caller.ns = true) (isWrite : Bool)
    {base : Usize} {r : Armv8mTt.Region Bool} (hr : r.attrs = false)
    (hhits : hits muscaSau (base.toNat / 32) = [r]) :
    (TestTarget.check sys base (accessTypeFor caller)).muscaPermits isWrite caller = true := by
  have hsecure : Armv8mTt.secure sys.sau (base.toNat / 32) = false := by
    rw [hattribution, Armv8mTt.secure, Armv8mTt.lookup, hhits]
    exact hr
  have hperms (privileged : Bool) (g : ℕ) :
      (sys.mpu (accessTypeFor caller)).perms privileged g = ⟨true, true⟩ := by
    rw [mpu_of_ns hns, hmpu]
    rfl
  rw [TestTarget.muscaPermits, if_pos hns, nsReadable_check, nsReadAndWritable_check, hsecure, hperms]
  cases isWrite <;> rfl

end

/-! ## A board -/

namespace Board

/-- Blocks of 256 bytes. -/
def regs (blkMax : BitVec 32) : MpcRegs := ⟨blkMax, 3, 0, fun _ => 0⟩

def units : MuscaUnits 8 where
  sau := .cleared 8
  nscCfg := 0
  apbNsPpcExp1 := 0
  mpcs
    | .eflash => regs 511
    | .extSram => regs 63
    | .sram1 | .sram2 | .sram3 => regs 15

theorem fits (c : MuscaMpc) : c.Fits (units.mpcs c) := by
  cases c <;> exact ⟨by decide, by decide, by decide⟩

/-- Everything is permitted by the memory protection units. -/
def system : TtSystem :=
  ⟨⟨[], fun _ => ⟨true, true⟩⟩, ⟨[], fun _ => ⟨true, true⟩⟩, muscaSau, true⟩

def accepted : Except StatusCode (Connection × List FFOutVec) :=
  (callFromSlices (muscaHasPermissionOnMemory system) .crypto (.new 1 1 true 1 true)
    [⟨0x20030000, 16⟩] [⟨0x20030100, 8⟩] .nsUnprivileged).1

def conn : Connection := (accepted.toOption.map Prod.fst).getD default

end Board

end RuSpe
