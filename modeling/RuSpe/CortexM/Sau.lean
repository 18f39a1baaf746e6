import RuSpe.Lib.Armv8mTt
import RuSpe.Lib.Calls
import RuSpe.Lib.RegisterBank
import RuSpe.Lib.RegisterField

set_option autoImplicit false

/-!
# The security attribution unit

The unit has a base and a limit register for each region, of which the driver sees the pair that the
region number register selects. A region that is not enabled is secure.

* `Sau`, `setRegion`, `getRegion`, `enable`: the registers and the driver;
* `SauRegion.ofRegisters`, `Sau.region`: what the pair of a region means;
* `setRegion_ok`, `setRegion_error`: what `set_region` does;
* `SauTable`, **`run_sauCalls`**: any calls of the driver are calls on a table of regions;
* `Sau.configure`: regions one after another, behind which the unit is turned on;
* `SauTable.attribution`, `attribution_setAll`: the regions as the attribution of memory sees them.
-/

namespace RuSpe

open RegisterBank (Bank word put word_put)
open RegisterField

/-! ## The driver -/

/-- `SauRegionAttribute`. -/
inductive SauRegionAttribute
  | secure
  | nonSecureCallable
  | nonSecure
  deriving DecidableEq, Repr

/-- `SauRegion`. -/
structure SauRegion where
  baseAddress : BitVec 32
  limitAddress : BitVec 32
  attr : SauRegionAttribute
  deriving DecidableEq, Repr

/-- `SauError`. -/
inductive SauError
  | regionNumberTooBig
  | wrongBaseAddress
  | wrongLimitAddress
  deriving DecidableEq, Repr

namespace SauRegisters

def ctrlEnable : Field := ⟨0, 1⟩
def rnrRegion : Field := ⟨0, 8⟩
def rbarBaddr : Field := ⟨5, 27⟩
def rlarLaddr : Field := ⟨5, 27⟩
def rlarNsc : Field := ⟨1, 1⟩
def rlarEnable : Field := ⟨0, 1⟩

end SauRegisters

open SauRegisters

/-- The registers. `n` is the content of `TYPE.SREGION`, the number of regions. -/
structure Sau (n : BitVec 8) where
  ctrl : BitVec 32
  rnr : BitVec 32
  rbar : Bank n.toNat 32
  rlar : Bank n.toNat 32

namespace Sau

variable {n : BitVec 8} (s : Sau n)

/-- The region that is selected. -/
def selected : ℕ := (rnrRegion.read s.rnr).toNat

/-- A write to `RBAR`. It is ignored if there is no such region. -/
def writeRbar (v : BitVec 32) : Sau n :=
  { s with rbar := put s.selected v s.rbar }

/-- A write to `RLAR`. -/
def writeRlar (v : BitVec 32) : Sau n :=
  { s with rlar := put s.selected v s.rlar }

/-- A write to `RNR`. -/
def writeRnr (v : BitVec 32) : Sau n := { s with rnr := v }

/-- `enable`. -/
def enable : Sau n := { s with ctrl := (ctrlEnable.val 1).modify s.ctrl }

/-- The attribute bits that `set_region` puts into `RLAR`. -/
def attributeFields : SauRegionAttribute → FieldValue 32
  | .secure => rlarNsc.val 0 + rlarEnable.val 0
  | .nonSecureCallable => rlarNsc.val 1 + rlarEnable.val 1
  | .nonSecure => rlarNsc.val 0 + rlarEnable.val 1

/-- `set_region`. -/
def setRegion (regionNumber : BitVec 8) (region : SauRegion) (s : Sau n) :
    Except SauError Unit × Sau n :=
  if regionNumber ≥ n then (.error .regionNumberTooBig, s)
  else if region.baseAddress &&& 0x1F ≠ 0 then (.error .wrongBaseAddress, s)
  else if region.limitAddress &&& 0x1F ≠ 0x1F then (.error .wrongLimitAddress, s)
  else
    let s := s.writeRnr (rnrRegion.val (regionNumber.setWidth 32)).write
    let s := s.writeRbar (rbarBaddr.val (region.baseAddress >>> 5)).write
    let rlar := rlarLaddr.val (region.limitAddress >>> 5) + attributeFields region.attr
    (.ok (), s.writeRlar rlar.write)

end Sau

/-- What `get_region` makes of a pair of registers. -/
def SauRegion.ofRegisters (rbar rlar : BitVec 32) : SauRegion where
  baseAddress := rbarBaddr.read rbar <<< 5
  limitAddress := rlarLaddr.read rlar <<< 5 ||| 0x1F
  attr :=
    match rlarEnable.isSet rlar, rlarNsc.isSet rlar with
    | false, _ => .secure
    | true, false => .nonSecure
    | true, true => .nonSecureCallable

namespace Sau

variable {n : BitVec 8}

/-- `get_region`. -/
def getRegion (regionNumber : BitVec 8) (s : Sau n) : Except SauError SauRegion × Sau n :=
  if regionNumber ≥ n then (.error .regionNumberTooBig, s)
  else
    let s := s.writeRnr (rnrRegion.val (regionNumber.setWidth 32)).write
    (.ok (.ofRegisters (word s.rbar s.selected) (word s.rlar s.selected)), s)

/-- Region `k`. -/
def region (s : Sau n) (k : ℕ) : SauRegion := .ofRegisters (word s.rbar k) (word s.rlar k)

end Sau

/-! ## A pair of registers -/

/-- What `set_region` asks of a region. -/
structure SauRegion.Aligned (r : SauRegion) : Prop where
  base : r.baseAddress &&& 0x1F = 0
  limit : r.limitAddress &&& 0x1F = 0x1F

/-- The five low bits are not stored. -/
theorem read_write_high (f : Field) (ho : f.offset = 5) (hn : f.numbits = 27) (x y : BitVec 32) :
    f.read ((f.val (x >>> 5)).modify y) = x >>> 5 := by
  have hf : f.Fits 32 := by
    rw [Field.Fits, ho, hn]
  rw [read_modify_val hf, and_ones]
  have hlt : x.toNat / 2 ^ 5 < 2 ^ 27 := by
    have hx := x.isLt
    omega
  rw [BitVec.toNat_ushiftRight, Nat.shiftRight_eq_div_pow, hn]
  exact hlt

theorem shiftLeft_shiftRight_five {x : BitVec 32} (h : x &&& 0x1F = 0) : x >>> 5 <<< 5 = x := by
  have hmod : x.toNat % 32 = 0 := by
    have hnat := congrArg BitVec.toNat h
    rwa [BitVec.toNat_and, show (0x1F : BitVec 32).toNat = 2 ^ 5 - 1 from rfl,
      Nat.and_two_pow_sub_one_eq_mod] at hnat
  apply BitVec.eq_of_toNat_eq
  rw [BitVec.toNat_shiftLeft, BitVec.toNat_ushiftRight, Nat.shiftLeft_eq,
    Nat.shiftRight_eq_div_pow]
  have hx := x.isLt
  omega

theorem shiftLeft_shiftRight_five_or {x : BitVec 32} (h : x &&& 0x1F = 0x1F) :
    x >>> 5 <<< 5 ||| 0x1F = x := by
  apply BitVec.eq_of_getLsbD_eq
  intro p hp
  have hbit := congrArg (fun y : BitVec 32 => y.getLsbD p) h
  simp only [BitVec.getLsbD_and] at hbit
  rw [BitVec.getLsbD_or, BitVec.getLsbD_shiftLeft, BitVec.getLsbD_ushiftRight]
  by_cases h5 : p < 5
  · have hone : (0x1F : BitVec 32).getLsbD p = true := by
      interval_cases p <;> rfl
    rw [hone, Bool.and_true] at hbit
    rw [hone, hbit, Bool.or_true]
  · have hzero : (0x1F : BitVec 32).getLsbD p = false := by
      interval_cases p <;> rfl
    rw [hzero, show 5 + (p - 5) = p by omega]
    simp [h5, hp]

theorem write_rlar (v c e : BitVec 32) :
    (rlarLaddr.val v + (rlarNsc.val c + rlarEnable.val e)).write =
      (rlarEnable.val e).modify ((rlarNsc.val c).modify ((rlarLaddr.val v).modify 0)) := by
  rw [write_eq_modify, modify_add, modify_add]
  · exact value_and_mask_val (by decide) c e
  · exact value_and_mask_add (value_and_mask_val (by decide) v c)
      (value_and_mask_val (by decide) v e)

/-- **What `set_region` writes is what `get_region` reads.** -/
theorem ofRegisters_written {r : SauRegion} (h : r.Aligned) :
    SauRegion.ofRegisters (rbarBaddr.val (r.baseAddress >>> 5)).write
      (rlarLaddr.val (r.limitAddress >>> 5) + Sau.attributeFields r.attr).write = r := by
  have hbase : rbarBaddr.read (rbarBaddr.val (r.baseAddress >>> 5)).write <<< 5 =
      r.baseAddress := by
    rw [write_eq_modify, read_write_high rbarBaddr rfl rfl, shiftLeft_shiftRight_five h.base]
  have hlimit (c e : BitVec 32) : rlarLaddr.read (rlarLaddr.val (r.limitAddress >>> 5) +
      (rlarNsc.val c + rlarEnable.val e)).write <<< 5 ||| 0x1F = r.limitAddress := by
    rw [write_rlar, read_modify_of_apart (by decide) (by decide),
      read_modify_of_apart (by decide) (by decide), read_write_high rlarLaddr rfl rfl,
      shiftLeft_shiftRight_five_or h.limit]
  have henable (v c e : BitVec 32) :
      rlarEnable.isSet (rlarLaddr.val v + (rlarNsc.val c + rlarEnable.val e)).write =
        (e &&& rlarEnable.ones != 0) := by
    rw [write_rlar, isSet_modify_val (by decide)]
  have hnsc (v c e : BitVec 32) :
      rlarNsc.isSet (rlarLaddr.val v + (rlarNsc.val c + rlarEnable.val e)).write =
        (c &&& rlarNsc.ones != 0) := by
    rw [write_rlar, isSet_modify_of_apart (by decide) (by decide), isSet_modify_val (by decide)]
  obtain ⟨base, limit, attr⟩ := r
  cases attr <;>
    simp only [SauRegion.ofRegisters, Sau.attributeFields, hbase, hlimit, henable, hnsc] <;> rfl

/-! ## One call -/

/-- The alignment, in numbers. -/
theorem and_31_eq_iff (x y : BitVec 32) : x &&& 0x1F = y ↔ x.toNat % 32 = y.toNat := by
  rw [← BitVec.toNat_inj, BitVec.toNat_and, show (0x1F : BitVec 32).toNat = 2 ^ 5 - 1 from rfl,
    Nat.and_two_pow_sub_one_eq_mod]

namespace Sau

variable {n : BitVec 8} (s : Sau n)

theorem selected_writeRnr (k : BitVec 8) :
    (s.writeRnr (rnrRegion.val (k.setWidth 32)).write).selected = k.toNat := by
  have hk : (k.setWidth 32).toNat = k.toNat := BitVec.toNat_setWidth_of_le (by decide)
  rw [selected, writeRnr, write_eq_modify, read_modify_val (by decide), and_ones, hk]
  rw [hk]
  exact k.isLt

/-- **`set_region` changes one region.** -/
theorem setRegion_ok {k : BitVec 8} (hk : k < n) {r : SauRegion} (hr : r.Aligned) :
    ∃ s', setRegion k r s = (.ok (), s') ∧ s'.ctrl = s.ctrl ∧
      s'.region = Function.update s.region k.toNat r := by
  have hlt : k.toNat < n.toNat := BitVec.lt_def.mp hk
  rw [setRegion, if_neg (BitVec.not_le.mpr hk), if_neg (not_not.mpr hr.base),
    if_neg (not_not.mpr hr.limit)]
  refine ⟨_, rfl, rfl, ?_⟩
  funext j
  simp only [region, writeRlar, writeRbar, selected_writeRnr]
  have hsel (x : BitVec 32) : (writeRbar (s.writeRnr (rnrRegion.val (k.setWidth 32)).write) x).selected
      = k.toNat := s.selected_writeRnr k
  simp only [writeRbar, selected_writeRnr] at hsel
  rw [hsel, word_put hlt, word_put hlt]
  rcases eq_or_ne j k.toNat with rfl | hj
  · rw [Function.update_self, Function.update_self, Function.update_self]
    exact ofRegisters_written hr
  · rw [Function.update_of_ne hj, Function.update_of_ne hj, Function.update_of_ne hj]
    rfl

/-- `get_region` only selects the region. -/
theorem getRegion_of_lt {k : BitVec 8} (hk : k < n) :
    ∃ s', getRegion k s = (.ok (s.region k.toNat), s') ∧ s'.ctrl = s.ctrl ∧
      s'.region = s.region := by
  rw [getRegion, if_neg (BitVec.not_le.mpr hk)]
  refine ⟨s.writeRnr (rnrRegion.val (k.setWidth 32)).write, ?_, rfl, rfl⟩
  simp only [selected_writeRnr]
  rfl

end Sau

/-! ## A table of regions -/

/-- The unit as a table: its regions, and whether it is on. -/
structure SauTable where
  regions : ℕ → SauRegion
  enabled : Bool

/-- The table that the registers stand for. -/
def Sau.table {n : BitVec 8} (s : Sau n) : SauTable := ⟨s.region, ctrlEnable.isSet s.ctrl⟩

namespace SauTable

/-- Why a region cannot be set in a table of `n` regions. -/
def refusal (n k : ℕ) (r : SauRegion) : Option SauError :=
  if n ≤ k then some .regionNumberTooBig
  else if r.baseAddress.toNat % 32 ≠ 0 then some .wrongBaseAddress
  else if r.limitAddress.toNat % 32 ≠ 31 then some .wrongLimitAddress
  else none

/-- Set a region. -/
def set (n k : ℕ) (r : SauRegion) (t : SauTable) : Except SauError Unit × SauTable :=
  match refusal n k r with
  | some e => (.error e, t)
  | none => (.ok (), { t with regions := Function.update t.regions k r })

/-- Look a region up. -/
def get (n k : ℕ) (t : SauTable) : Except SauError SauRegion :=
  if n ≤ k then .error .regionNumberTooBig else .ok (t.regions k)

theorem refusal_eq_none_iff {n k : ℕ} {r : SauRegion} :
    refusal n k r = none ↔ k < n ∧ r.Aligned := by
  have hal : r.Aligned ↔ r.baseAddress.toNat % 32 = 0 ∧ r.limitAddress.toNat % 32 = 31 :=
    ⟨fun h => ⟨(and_31_eq_iff _ _).mp h.base, (and_31_eq_iff _ _).mp h.limit⟩,
      fun h => ⟨(and_31_eq_iff _ _).mpr h.1, (and_31_eq_iff _ _).mpr h.2⟩⟩
  rw [hal, refusal]
  split_ifs <;> simp <;> omega

end SauTable

/-- The calls of the driver. -/
inductive SauCall
  | setRegion (regionNumber : BitVec 8) (region : SauRegion)
  | getRegion (regionNumber : BitVec 8)
  | enable

namespace SauCall

variable {n : BitVec 8}

/-- A call. The region of `get_region` is part of the reply. -/
def exec : SauCall → Sau n → Except SauError (Option SauRegion) × Sau n
  | .setRegion k r, s => ((Sau.setRegion k r s).1.map fun _ => none, (Sau.setRegion k r s).2)
  | .getRegion k, s => ((Sau.getRegion k s).1.map some, (Sau.getRegion k s).2)
  | .enable, s => (.ok none, s.enable)

/-- The call on a table of `n` regions. -/
def onTable (n : ℕ) : SauCall → SauTable → Except SauError (Option SauRegion) × SauTable
  | .setRegion k r, t => ((t.set n k.toNat r).1.map fun _ => none, (t.set n k.toNat r).2)
  | .getRegion k, t => ((t.get n k.toNat).map some, t)
  | .enable, t => (.ok none, { t with enabled := true })

end SauCall

/-- A call that is refused changes nothing. -/
theorem Sau.setRegion_error {n : BitVec 8} (s : Sau n) {k : BitVec 8} {r : SauRegion} {e : SauError}
    (hno : SauTable.refusal n.toNat k.toNat r = some e) : setRegion k r s = (.error e, s) := by
  have hge : k ≥ n ↔ n.toNat ≤ k.toNat := BitVec.le_def
  have hbase : r.baseAddress &&& 0x1F = 0 ↔ r.baseAddress.toNat % 32 = 0 := and_31_eq_iff _ 0
  have hlimit : r.limitAddress &&& 0x1F = 0x1F ↔ r.limitAddress.toNat % 32 = 31 :=
    and_31_eq_iff _ 0x1F
  rw [SauTable.refusal] at hno
  rw [setRegion]
  split_ifs at hno with h1 h2 h3
  · rw [if_pos (hge.mpr h1), Option.some_inj.mp hno]
  · rw [if_neg fun h => h1 (hge.mp h), if_pos fun h => h2 (hbase.mp h), Option.some_inj.mp hno]
  · rw [if_neg fun h => h1 (hge.mp h), if_neg fun h => h (hbase.mpr (not_not.mp h2)),
      if_pos fun h => h3 (hlimit.mp h), Option.some_inj.mp hno]

/-- `set_region` is `set` on the table. -/
theorem Sau.table_setRegion {n : BitVec 8} (s : Sau n) (k : BitVec 8) (r : SauRegion) :
    s.table.set n.toNat k.toNat r = ((setRegion k r s).1, (setRegion k r s).2.table) := by
  rw [SauTable.set]
  cases hno : SauTable.refusal n.toNat k.toNat r with
  | none =>
    obtain ⟨hk, hr⟩ := SauTable.refusal_eq_none_iff.mp hno
    obtain ⟨s', hok, hctrl, hregion⟩ := s.setRegion_ok (BitVec.lt_def.mpr hk) hr
    rw [hok]
    simp only [table, hctrl, hregion]
  | some e => rw [s.setRegion_error hno]

/-- `get_region` is `get` on the table. -/
theorem Sau.table_getRegion {n : BitVec 8} (s : Sau n) (k : BitVec 8) :
    s.table.get n.toNat k.toNat = (getRegion k s).1 ∧ (getRegion k s).2.table = s.table := by
  rw [SauTable.get]
  by_cases hk : k < n
  · obtain ⟨s', hok, hctrl, hregion⟩ := s.getRegion_of_lt hk
    rw [hok, if_neg (not_le.mpr (BitVec.lt_def.mp hk))]
    exact ⟨rfl, by simp only [table, hctrl, hregion]⟩
  · rw [getRegion, if_pos (BitVec.not_lt.mp hk), if_pos (BitVec.le_def.mp (BitVec.not_lt.mp hk))]
    exact ⟨rfl, rfl⟩

theorem Sau.table_enable {n : BitVec 8} (s : Sau n) :
    s.enable.table = { s.table with enabled := true } := by
  have hset : ctrlEnable.isSet ((ctrlEnable.val 1).modify s.ctrl) = true := by
    rw [isSet_modify_val (by decide)]
    rfl
  simp only [table, enable, hset]
  rfl

/-- **Calls of the driver in any order have the replies of calls on a table of regions**, from any
contents of the registers on, and leave what the table has then. -/
theorem run_sauCalls {n : BitVec 8} (calls : List SauCall) (s : Sau n) :
    Calls.run (SauCall.onTable n.toNat) calls s.table =
      ((Calls.run SauCall.exec calls s).1, (Calls.run SauCall.exec calls s).2.table) := by
  refine Calls.Views.run (fun c s => ?_) calls s
  cases c with
  | setRegion k r =>
    rw [SauCall.onTable, s.table_setRegion k r]
    rfl
  | getRegion k =>
    obtain ⟨hget, htable⟩ := s.table_getRegion k
    rw [SauCall.onTable, hget]
    simp only [SauCall.exec, htable]
  | enable =>
    rw [SauCall.onTable]
    simp only [SauCall.exec, s.table_enable]

/-! ## Regions one after another -/

namespace Sau

variable {n : BitVec 8}

/-- A `set_region` for each entry. The first error is the last call. -/
def setRegions : List (BitVec 8 × SauRegion) → Sau n → Except SauError Unit × Sau n
  | [], s => (.ok (), s)
  | (k, r) :: rest, s =>
    match setRegion k r s with
    | (.error e, s) => (.error e, s)
    | (.ok (), s) => setRegions rest s

theorem setRegions_cons (k : BitVec 8) (r : SauRegion) (rest : List (BitVec 8 × SauRegion))
    (s : Sau n) : setRegions ((k, r) :: rest) s =
      match setRegion k r s with
      | (.error e, s) => (.error e, s)
      | (.ok (), s) => setRegions rest s := rfl

/-- Every call is one that succeeds. -/
def Settable (n : BitVec 8) (l : List (BitVec 8 × SauRegion)) : Prop :=
  ∀ p ∈ l, p.1 < n ∧ p.2.Aligned

/-- The regions after all calls. -/
def setAll (l : List (BitVec 8 × SauRegion)) (f : ℕ → SauRegion) : ℕ → SauRegion :=
  l.foldl (fun f p => Function.update f p.1.toNat p.2) f

/-- A region that no entry is about stays as it was. -/
theorem setAll_of_notMem {l : List (BitVec 8 × SauRegion)} {f : ℕ → SauRegion} {k : ℕ}
    (hk : k ∉ l.map (·.1.toNat)) : setAll l f k = f k := by
  induction l generalizing f with
  | nil => rfl
  | cons p l ih =>
    rw [List.map_cons, List.mem_cons, not_or] at hk
    rw [setAll, List.foldl_cons]
    exact (ih hk.2).trans (Function.update_of_ne hk.1 _ _)

/-- A region that one entry is about is as it says. -/
theorem setAll_of_mem {l : List (BitVec 8 × SauRegion)} (hl : (l.map (·.1.toNat)).Nodup)
    {f : ℕ → SauRegion} {p : BitVec 8 × SauRegion} (hp : p ∈ l) :
    setAll l f p.1.toNat = p.2 := by
  induction l generalizing f with
  | nil => cases hp
  | cons q l ih =>
    rw [List.map_cons, List.nodup_cons] at hl
    rw [setAll, List.foldl_cons]
    rcases List.mem_cons.mp hp with rfl | hp
    · exact (setAll_of_notMem hl.1).trans (Function.update_self ..)
    · exact ih hl.2 hp

theorem setRegions_ok {l : List (BitVec 8 × SauRegion)} (hl : Settable n l) (s : Sau n) :
    ∃ s', setRegions l s = (.ok (), s') ∧ s'.ctrl = s.ctrl ∧ s'.region = setAll l s.region := by
  induction l generalizing s with
  | nil => exact ⟨s, rfl, rfl, rfl⟩
  | cons p l ih =>
    obtain ⟨k, r⟩ := p
    obtain ⟨hk, hr⟩ := hl (k, r) List.mem_cons_self
    obtain ⟨s₁, h₁, hctrl₁, hregion₁⟩ := s.setRegion_ok hk hr
    obtain ⟨s', h', hctrl', hregion'⟩ := ih (fun p hp => hl p (List.mem_cons_of_mem _ hp)) s₁
    refine ⟨s', ?_, hctrl'.trans hctrl₁, ?_⟩
    · rw [setRegions_cons, h₁]
      exact h'
    · rw [hregion', hregion₁]
      rfl

/-- An error leaves the unit on or off as it was. -/
theorem setRegions_error {l : List (BitVec 8 × SauRegion)} (hl : ¬ Settable n l) (s : Sau n) :
    ∃ e s', setRegions l s = (.error e, s') ∧ s'.ctrl = s.ctrl := by
  induction l generalizing s with
  | nil => exact absurd (fun p hp => by cases hp) hl
  | cons p l ih =>
    obtain ⟨k, r⟩ := p
    by_cases hp : k < n ∧ r.Aligned
    · obtain ⟨s₁, h₁, hctrl₁, -⟩ := s.setRegion_ok hp.1 hp.2
      have hrest : ¬ Settable n l := fun h => hl fun p hmem => by
        rcases List.mem_cons.mp hmem with rfl | hmem
        · exact hp
        · exact h p hmem
      obtain ⟨e, s', h', hctrl'⟩ := ih hrest s₁
      refine ⟨e, s', ?_, hctrl'.trans hctrl₁⟩
      rw [setRegions_cons, h₁]
      exact h'
    · cases hno : SauTable.refusal n.toNat k.toNat r with
      | none => exact absurd (SauTable.refusal_eq_none_iff.mp hno) (by rwa [← BitVec.lt_def])
      | some e =>
        have hset := s.setRegion_error hno
        refine ⟨e, s, ?_, rfl⟩
        rw [setRegions_cons, hset]

end Sau

/-! ## The configuration of a unit -/

namespace Sau

variable {n : BitVec 8}

/-- The regions are set, and then the unit is turned on. -/
def configure (l : List (BitVec 8 × SauRegion)) (s : Sau n) : Except SauError Unit × Sau n :=
  match setRegions l s with
  | (.error e, s) => (.error e, s)
  | (.ok (), s) => (.ok (), s.enable)

/-- From region `m` on, none is enabled. -/
def RestSecure (m : ℕ) (s : Sau n) : Prop :=
  ∀ k, m ≤ k → k < n.toNat → (s.region k).attr = .secure

/-- All registers cleared. -/
def cleared (n : BitVec 8) : Sau n := ⟨0, 0, .replicate _ 0, .replicate _ 0⟩

theorem restSecure_cleared (n : BitVec 8) (m : ℕ) : (cleared n).RestSecure m := by
  intro k _ _
  rw [region, cleared, RegisterBank.word_replicate_zero]
  rfl

variable {l : List (BitVec 8 × SauRegion)} (s : Sau n)

theorem table_configure (hl : Settable n l) : configure l s =
    (.ok (), (configure l s).2) ∧ (configure l s).2.table = ⟨setAll l s.region, true⟩ := by
  obtain ⟨s', hok, -, hregion⟩ := setRegions_ok hl s
  rw [configure, hok]
  dsimp only
  rw [table_enable, table, hregion]
  exact ⟨rfl, rfl⟩

/-- An error leaves the unit on or off as it was. -/
theorem configure_error (hl : ¬ Settable n l) : (∃ e, (configure l s).1 = .error e) ∧
    (configure l s).2.table.enabled = s.table.enabled := by
  obtain ⟨e, s', herror, hctrl⟩ := setRegions_error hl s
  rw [configure, herror]
  refine ⟨⟨e, rfl⟩, ?_⟩
  dsimp only
  rw [table, table, hctrl]

theorem configure_ok_iff : (configure l s).1 = .ok () ↔ Settable n l := by
  by_cases hl : Settable n l
  · exact iff_of_true (congrArg Prod.fst (table_configure s hl).1) hl
  · obtain ⟨⟨e, he⟩, -⟩ := configure_error s hl
    refine iff_of_false (fun h => ?_) hl
    rw [he] at h
    cases h

end Sau

/-! ## Attribution -/

/-- A region as the attribution of memory sees it, if it is enabled. -/
def SauRegion.granules (k : ℕ) (r : SauRegion) : Option (Armv8mTt.Region Bool) :=
  match r.attr with
  | .secure => none
  | .nonSecureCallable =>
    some ⟨.ofNat 8 k, r.baseAddress.toNat / 32, r.limitAddress.toNat / 32, true⟩
  | .nonSecure => some ⟨.ofNat 8 k, r.baseAddress.toNat / 32, r.limitAddress.toNat / 32, false⟩

/-- The enabled regions of a list. -/
def granulesOf (l : List (BitVec 8 × SauRegion)) : Armv8mTt.Sau :=
  l.filterMap fun p => p.2.granules p.1.toNat

/-- The enabled regions of a table of `n`. A unit that is off has none: all memory is secure. -/
def SauTable.attribution (n : ℕ) (t : SauTable) : Armv8mTt.Sau :=
  if t.enabled then (List.range n).filterMap fun k => (t.regions k).granules k else []

/-- With no other region enabled, the attribution has the enabled regions of the list. -/
theorem attribution_setAll {n : ℕ} {l : List (BitVec 8 × SauRegion)} {f : ℕ → SauRegion}
    (hl : l.map (·.1.toNat) = List.range l.length) (hn : l.length ≤ n)
    (hf : ∀ k, l.length ≤ k → k < n → (f k).attr = .secure) :
    SauTable.attribution n ⟨Sau.setAll l f, true⟩ = granulesOf l := by
  obtain ⟨m, rfl⟩ := Nat.exists_eq_add_of_le hn
  have hfirst : ((List.range l.length).filterMap fun k => (Sau.setAll l f k).granules k) =
      granulesOf l := by
    rw [← hl, List.filterMap_map, granulesOf]
    refine List.filterMap_congr fun p hp => ?_
    have hnodup : (l.map (·.1.toNat)).Nodup := hl ▸ List.nodup_range
    exact congrArg (SauRegion.granules _) (Sau.setAll_of_mem hnodup hp)
  have hrest : ((List.range m).map (l.length + ·)).filterMap
      (fun k => (Sau.setAll l f k).granules k) = [] := by
    refine List.filterMap_eq_nil_iff.mpr fun k hk => ?_
    obtain ⟨j, hj, rfl⟩ := List.mem_map.mp hk
    have hout : l.length + j ∉ l.map (·.1.toNat) := by
      rw [hl, List.mem_range]
      omega
    rw [Sau.setAll_of_notMem hout, SauRegion.granules,
      hf _ (Nat.le_add_right _ j) (Nat.add_lt_add_left (List.mem_range.mp hj) _)]
  rw [SauTable.attribution, if_pos rfl, List.range_add, List.filterMap_append]
  dsimp only
  rw [hfirst, hrest, List.append_nil]

end RuSpe
