import RuSpe.Lib.BitTable
import RuSpe.Lib.Calls
import RuSpe.Psc3.Ppc

set_option autoImplicit false

/-!
# The protection controller as a table

Three banks of the controller hold one permission bit for each region, a fourth one its protection
context mask. A driver call touches the bits of one region only.

* `Ppc`, `setPermissions`, `getPermissions`: the registers and the driver;
* `PpcTable`, `Ppc.table`: what the registers say about each region;
* `table_setPermissions`, `table_setProtectionContext`: one call;
* **`run_ppcCalls`**: any calls of the driver are calls on the table, and none of them panics.
-/

namespace RuSpe

open BitTable (assign bit bit_update_assign ushiftRight_and_one_ne_zero)
open RegisterBank

/-! ## The driver -/

/-- The number of a `PpcRegion`. -/
abbrev PpcRegion := Fin 222

/-- `PpcRegisters`, as far as the driver uses them. -/
structure Ppc where
  ppcCtl : BitVec 32
  ppcLockMask : BitVec 32
  ppcPcMasks : PcMasks
  ppcNsAttrs : Bank 32 32
  ppcSPAttrs : Bank 32 32
  ppcNsPAttrs : Bank 32 32

/-- What may access a region: `allow_non_secure`, `allow_nsec_nonpriv` and `allow_sec_nonpriv`. -/
abbrev PpcPermissions := Bool × Bool × Bool

namespace Ppc

/-- `set_permissions`. A failed assertion or an index out of bounds panics. -/
def setPermissions (region : PpcRegion) (permissions : PpcPermissions) (ppc : Ppc) : Option Ppc :=
  let (allowNonSecure, allowNsecNonpriv, allowSecNonpriv) := permissions
  let regIndex := region.val / 32
  let bitIndex := region.val % 32
  if regIndex < 32 then do
    let nsAttrs ← modify (assign bitIndex allowNonSecure) regIndex ppc.ppcNsAttrs
    let nsPAttrs ← modify (assign bitIndex allowNsecNonpriv) regIndex ppc.ppcNsPAttrs
    let sPAttrs ← modify (assign bitIndex allowSecNonpriv) regIndex ppc.ppcSPAttrs
    some { ppc with ppcNsAttrs := nsAttrs, ppcNsPAttrs := nsPAttrs, ppcSPAttrs := sPAttrs }
  else none

/-- Bit `bitIndex` of a register. -/
def bitOf (x : BitVec 32) (bitIndex : ℕ) : Bool := (x >>> bitIndex) &&& 1 != 0

/-- `get_permissions`. -/
def getPermissions (region : PpcRegion) (ppc : Ppc) : PpcPermissions :=
  let regIndex := region.val / 32
  let bitIndex := region.val % 32
  (bitOf (word ppc.ppcNsAttrs regIndex) bitIndex, bitOf (word ppc.ppcNsPAttrs regIndex) bitIndex,
    bitOf (word ppc.ppcSPAttrs regIndex) bitIndex)

/-- `set_protection_context`, on all registers. -/
def setContext (region : PpcRegion) (context : BitVec 8) (ppc : Ppc) : Option Ppc :=
  (setProtectionContext (.ofNat 32 region.val) context ppc.ppcPcMasks).map fun r =>
    { ppc with ppcPcMasks := r }

end Ppc

/-! ## The table -/

/-- The permissions and the protection context mask of each region. -/
@[ext]
structure PpcTable where
  permissions : PpcRegion → PpcPermissions
  context : PpcRegion → BitVec 8

/-- What the registers say. -/
def Ppc.table (ppc : Ppc) : PpcTable where
  permissions region := (bit (word ppc.ppcNsAttrs) region, bit (word ppc.ppcNsPAttrs) region,
    bit (word ppc.ppcSPAttrs) region)
  context region := regionMask ppc.ppcPcMasks region

theorem bitOf_eq (x : BitVec 32) (i : ℕ) : Ppc.bitOf x i = x.getLsbD i := by
  rw [Bool.eq_iff_iff, Ppc.bitOf, bne_iff_ne]
  exact ushiftRight_and_one_ne_zero x i

/-- `get_permissions` reads the table. -/
theorem getPermissions_eq (region : PpcRegion) (ppc : Ppc) :
    ppc.getPermissions region = ppc.table.permissions region := by
  simp only [Ppc.getPermissions, bitOf_eq]
  rfl

/-- One bit of a bank is assigned. -/
theorem modify_assign (b : Bank 32 32) (region : PpcRegion) (v : Bool) :
    ∃ b', modify (assign (region.val % 32) v) (region.val / 32) b = some b' ∧
      ∀ k, bit (word b') k = if k = region.val then v else bit (word b) k := by
  obtain ⟨b', hok, hword⟩ := modify_of_lt (assign (region.val % 32) v) b
    (show region.val / 32 < 32 by omega)
  exact ⟨b', hok, fun k => by rw [hword, bit_update_assign]⟩

/-- **`set_permissions` gives one region its permissions, and does not panic.** -/
theorem table_setPermissions (region : PpcRegion) (permissions : PpcPermissions) (ppc : Ppc) :
    ∃ ppc', ppc.setPermissions region permissions = some ppc' ∧ ppc'.table =
      { ppc.table with
        permissions := Function.update ppc.table.permissions region permissions } := by
  obtain ⟨a, b, c⟩ := permissions
  obtain ⟨ns, hns, hnsBit⟩ := modify_assign ppc.ppcNsAttrs region a
  obtain ⟨nsP, hnsP, hnsPBit⟩ := modify_assign ppc.ppcNsPAttrs region b
  obtain ⟨sP, hsP, hsPBit⟩ := modify_assign ppc.ppcSPAttrs region c
  refine ⟨{ ppc with ppcNsAttrs := ns, ppcNsPAttrs := nsP, ppcSPAttrs := sP }, ?_, ?_⟩
  · simp only [Ppc.setPermissions, hns, hnsP, hsP, Option.bind_eq_bind, Option.bind_some]
    rw [if_pos (by omega)]
  · refine PpcTable.ext (funext fun r => ?_) rfl
    simp only [Ppc.table, hnsBit, hnsPBit, hsPBit]
    by_cases hr : r = region
    · rw [hr, Function.update_self, if_pos rfl, if_pos rfl, if_pos rfl]
    · have hval : r.val ≠ region.val := fun h => hr (Fin.ext h)
      rw [Function.update_of_ne hr, if_neg hval, if_neg hval, if_neg hval]

/-- **`set_protection_context` gives one region its mask, and does not panic.** -/
theorem table_setContext (region : PpcRegion) (context : BitVec 8) (ppc : Ppc) :
    ∃ ppc', ppc.setContext region context = some ppc' ∧ ppc'.table =
      { ppc.table with context := Function.update ppc.table.context region context } := by
  have hnat : (BitVec.ofNat 32 region.val).toNat = region.val := by
    rw [BitVec.toNat_ofNat, Nat.mod_eq_of_lt (by omega)]
  obtain ⟨r', hok, hmask⟩ := regionMask_setProtectionContext
    (show (BitVec.ofNat 32 region.val).toNat < 4096 by omega) context ppc.ppcPcMasks
  refine ⟨{ ppc with ppcPcMasks := r' }, ?_, PpcTable.ext rfl (funext fun r => ?_)⟩
  · rw [Ppc.setContext, hok]
    rfl
  · simp only [Ppc.table, hmask, hnat]
    by_cases hr : r = region
    · rw [hr, Function.update_self, if_pos rfl]
    · rw [Function.update_of_ne hr, if_neg fun h => hr (Fin.ext h)]

/-! ## Calls -/

/-- The calls of the driver for one region. -/
inductive PpcCall
  | setPermissions (region : PpcRegion) (permissions : PpcPermissions)
  | getPermissions (region : PpcRegion)
  | setProtectionContext (region : PpcRegion) (context : BitVec 8)

/-- The reply to a call: a panic, nothing, or permissions. -/
inductive PpcReply
  | panic
  | done
  | permissions (p : PpcPermissions)

namespace PpcCall

/-- A call that may panic. -/
def reply (r : Option Ppc) (ppc : Ppc) : PpcReply × Ppc :=
  match r with
  | some ppc => (.done, ppc)
  | none => (.panic, ppc)

def exec : PpcCall → Ppc → PpcReply × Ppc
  | .setPermissions region p, ppc => reply (ppc.setPermissions region p) ppc
  | .getPermissions region, ppc => (.permissions (ppc.getPermissions region), ppc)
  | .setProtectionContext region context, ppc => reply (ppc.setContext region context) ppc

/-- The call on a table. -/
def onTable : PpcCall → PpcTable → PpcReply × PpcTable
  | .setPermissions region p, t =>
    (.done, { t with permissions := Function.update t.permissions region p })
  | .getPermissions region, t => (.permissions (t.permissions region), t)
  | .setProtectionContext region context, t =>
    (.done, { t with context := Function.update t.context region context })

end PpcCall

/-- A call is that call on the table, and does not panic. -/
theorem PpcCall.views : Calls.Views PpcCall.exec PpcCall.onTable Ppc.table := by
  intro c ppc
  cases c with
  | setPermissions region p =>
    obtain ⟨ppc', hok, htable⟩ := table_setPermissions region p ppc
    rw [PpcCall.onTable, PpcCall.exec, hok, PpcCall.reply, htable]
  | getPermissions region => rw [PpcCall.onTable, PpcCall.exec, getPermissions_eq]
  | setProtectionContext region context =>
    obtain ⟨ppc', hok, htable⟩ := table_setContext region context ppc
    rw [PpcCall.onTable, PpcCall.exec, hok, PpcCall.reply, htable]

/-- **Calls of the driver in any order have the replies of calls on a table of regions**, from any
contents of the registers on, and leave what the table has then. No call panics. -/
theorem run_ppcCalls (calls : List PpcCall) (ppc : Ppc) :
    Calls.run PpcCall.onTable calls ppc.table =
      ((Calls.run PpcCall.exec calls ppc).1, (Calls.run PpcCall.exec calls ppc).2.table) :=
  Calls.Views.run PpcCall.views calls ppc

end RuSpe
