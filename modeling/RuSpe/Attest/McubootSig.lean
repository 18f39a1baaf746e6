import RuSpe.Attest.BootRecord
import RuSpe.Lib.ByteImage
import RuSpe.Lib.ByteMemory

set_option autoImplicit false

/-!
# The boot record of the build

No bootloader runs on the boards. The build measures the payload of an image itself, and puts the
boot record beside it, where the chip looks for one.

* `patchMcubootSig`: the tool; `tlvData`: the record it writes;
* `bootRecordAt`: where both chips find the record;
* `Flashed`: the image is in the memory of a device;
* **`measured`**: the device reports the hash of the payload that is in its memory, and another run
  of the tool changes nothing.
-/

namespace RuSpe

open Cbor (Bytes)
open ByteImage (Image)
open ByteMemory (Mem)

/-! ## The tool -/

/-- `tlv_data`. -/
def tlvData (measurement signerId : Vector UInt8 32) : Bytes :=
  let tlvMagic := 0x2016
  let measureType := (0x1 <<< 12) ||| (0x00 <<< 6) ||| 0x08
  let measureLen := 32
  let signerType := (0x1 <<< 12) ||| (0x00 <<< 6) ||| 0x01
  let signerLen := 32
  let tlvTotLen := 4 + 4 + measureLen + 4 + signerLen
  Tlv.le16 tlvMagic ++ Tlv.le16 tlvTotLen ++ (Tlv.le16 measureType ++ Tlv.le16 measureLen) ++
    measurement.toList ++ (Tlv.le16 signerType ++ Tlv.le16 signerLen) ++ signerId.toList

/-- `patch_mcuboot_sig`, on the image of the file: `publicKey` is the encoding of the public key. -/
def patchMcubootSig (sha256 : Bytes → Vector UInt8 32) (publicKey : Bytes)
    (mcubootAddr payloadStart payloadEnd : ℕ) (ih : Image) : Image :=
  match ih.last with
  | none => ih
  | some maxAddr =>
    let romMax := min maxAddr payloadEnd
    if romMax < payloadStart then ih
    else
      let payloadData := ih.range 0xFF payloadStart (romMax + 1 - payloadStart)
      ih.putAll mcubootAddr (tlvData (sha256 payloadData) (sha256 publicKey))

/-! ## The chips -/

/-- `boot_record` of both chips. -/
def bootRecordAt (mem : Mem 32) (bootRecordAddr : Option (BitVec 32)) : Option Bytes :=
  bootRecordAddr.bind fun addr =>
    if fromLeBytes [mem addr, mem (addr + 1)] = 0x2016 then some (mem.read addr 0x100) else none

/-- The image is in the memory. -/
def Flashed (mem : Mem 32) (ih : Image) : Prop :=
  ∀ a b, ih.get a = some b → mem (BitVec.ofNat 32 a) = b

/-! ## The record -/

/-- The two records. -/
def sigRecords (measurement signerId : Vector UInt8 32) : List Tlv.Record := [
  ⟨iasMeasureValueType, measurement.toList, by decide, by rw [Vector.length_toList]; decide⟩,
  ⟨iasSignerIdType, signerId.toList, by decide, by rw [Vector.length_toList]; decide⟩]

section

variable (measurement signerId : Vector UInt8 32)

theorem tlvData_eq : tlvData measurement signerId = bootRecord (sigRecords measurement signerId) := by
  have hlen : (Tlv.encodeAll (sigRecords measurement signerId)).length = 72 := by
    simp [Tlv.encodeAll, sigRecords, Tlv.Record.encode, Tlv.le16]
  rw [bootRecord, hlen]
  simp [tlvData, Tlv.encodeAll, sigRecords, Tlv.Record.encode, sharedDataTlvInfoMagic,
    iasMeasureValueType, iasSignerIdType]

/-- The record begins with the magic number. -/
theorem tlvData_magic : (tlvData measurement signerId)[0]? = some 0x16 ∧
    (tlvData measurement signerId)[1]? = some 0x20 := ⟨rfl, rfl⟩

theorem length_tlvData : (tlvData measurement signerId).length = 76 := by
  simp [tlvData, Tlv.le16]

/-- The chip reads what the tool wrote, whatever follows it. -/
theorem parseBootData_tlvData (suffix : Bytes) :
    parseBootData (tlvData measurement signerId ++ suffix) =
      some ⟨none, measurement.toList, signerId.toList⟩ := by
  have hlen : (bootRecord (sigRecords measurement signerId)).length = 76 := by
    rw [← tlvData_eq, length_tlvData]
  rw [tlvData_eq, parseBootData_append (announces_bootRecord (by rw [hlen]; decide))
    (by rw [hlen]; decide) (getU16Le_bootRecord _), contents_bootRecord]
  have hvalue : Tlv.lastOf iasMeasureValueType (sigRecords measurement signerId) =
      some measurement.toList := by
    simp [Tlv.lastOf, sigRecords, iasMeasureValueType, iasSignerIdType]
  have hsigner : Tlv.lastOf iasSignerIdType (sigRecords measurement signerId) =
      some signerId.toList := by
    simp [Tlv.lastOf, sigRecords, iasMeasureValueType, iasSignerIdType]
  change component (sigRecords measurement signerId) = _
  exact component_eq_some.mpr ⟨rfl, hvalue, hsigner⟩

end

/-! ## The image in the memory -/

section

variable {mem : Mem 32} {ih : Image}

/-- The addresses of the image and those of the memory. -/
theorem ofNat_add (a i : ℕ) : BitVec.ofNat 32 a + BitVec.ofNat 32 i = BitVec.ofNat 32 (a + i) :=
  (BitVec.ofNat_add a i).symm

/-- Bytes that were set are in the memory, where they were set. -/
theorem read_of_flashed {a : ℕ} {bytes : Bytes} (h : Flashed mem (ih.putAll a bytes)) {n : ℕ}
    (hn : bytes.length ≤ n) :
    ∃ suffix, mem.read (BitVec.ofNat 32 a) n = bytes ++ suffix := by
  refine ⟨(mem.read (BitVec.ofNat 32 a) n).drop bytes.length, ?_⟩
  have htake : (mem.read (BitVec.ofNat 32 a) n).take bytes.length = bytes := by
    apply List.ext_getElem
    · rw [List.length_take, mem.length_read, min_eq_left hn]
    · intro i hi hi'
      rw [List.getElem_take]
      simp only [Mem.read, List.getElem_map, List.getElem_range, ofNat_add]
      exact h _ _ ((ih.get_putAll_inside hi').trans (List.getElem?_eq_getElem hi'))
  conv_lhs => rw [← List.take_append_drop bytes.length (mem.read (BitVec.ofNat 32 a) n), htake]

/-- The chip finds the record. -/
theorem bootRecordAt_of_flashed {a : ℕ} {measurement signerId : Vector UInt8 32}
    (h : Flashed mem (ih.putAll a (tlvData measurement signerId))) {window : Bytes}
    (hwindow : mem.read (BitVec.ofNat 32 a) 0x100 = window) :
    bootRecordAt mem (some (BitVec.ofNat 32 a)) = some window := by
  obtain ⟨hlow, hhigh⟩ := tlvData_magic measurement signerId
  have hlen := length_tlvData measurement signerId
  have h₀ : mem (BitVec.ofNat 32 a) = 0x16 :=
    h a _ ((ih.get_putAll_inside (i := 0) (by omega)).trans hlow)
  have h₁ : mem (BitVec.ofNat 32 a + 1) = 0x20 := by
    have hsucc : BitVec.ofNat 32 a + 1 = BitVec.ofNat 32 (a + 1) := (BitVec.ofNat_add a 1).symm
    rw [hsucc]
    exact h (a + 1) _ ((ih.get_putAll_inside (by omega)).trans hhigh)
  rw [bootRecordAt, Option.bind_some, h₀, h₁, if_pos (by decide), hwindow]

/-- The payload as the tool sees it is that of the memory, where erased bytes are `0xFF`. -/
theorem range_of_flashed {a s n : ℕ} {bytes : Bytes} (h : Flashed mem (ih.putAll a bytes))
    (hapart : s + n ≤ a ∨ a + bytes.length ≤ s)
    (herased : ∀ x, s ≤ x → x < s + n → ih.get x = none → mem (BitVec.ofNat 32 x) = 0xFF) :
    ih.range 0xFF s n = mem.read (BitVec.ofNat 32 s) n := by
  unfold ByteImage.Image.range Mem.read
  refine List.map_congr_left fun i hi => ?_
  have hi' := List.mem_range.mp hi
  rw [ofNat_add]
  cases hget : ih.get (s + i) with
  | none => exact (herased _ (by omega) (by omega) hget).symm
  | some b =>
    refine (h _ _ ?_).symm
    rw [ih.get_putAll, if_neg (by omega), hget]
    rfl

end

/-! ## What the device reports -/

section

variable {sha256 : Bytes → Vector UInt8 32} {publicKey : Bytes}
  {mcubootAddr payloadStart payloadEnd maxAddr : ℕ} {ih : Image}

theorem patchMcubootSig_eq (hmax : ih.last = some maxAddr)
    (hstart : payloadStart ≤ min maxAddr payloadEnd) :
    patchMcubootSig sha256 publicKey mcubootAddr payloadStart payloadEnd ih =
      ih.putAll mcubootAddr (tlvData
        (sha256 (ih.range 0xFF payloadStart (min maxAddr payloadEnd + 1 - payloadStart)))
        (sha256 publicKey)) := by
  rw [patchMcubootSig, hmax]
  exact if_neg (by omega)

/-- A second run, for an image that has a byte at the end of the payload or behind it. -/
theorem patchMcubootSig_again (hmax : ih.last = some maxAddr) (hend : payloadEnd ≤ maxAddr)
    (hstart : payloadStart ≤ payloadEnd)
    (hapart : payloadEnd < mcubootAddr ∨ mcubootAddr + 76 ≤ payloadStart) (a : ℕ) :
    (patchMcubootSig sha256 publicKey mcubootAddr payloadStart payloadEnd
      (patchMcubootSig sha256 publicKey mcubootAddr payloadStart payloadEnd ih)).get a =
    (patchMcubootSig sha256 publicKey mcubootAddr payloadStart payloadEnd ih).get a := by
  have hfirst : patchMcubootSig sha256 publicKey mcubootAddr payloadStart payloadEnd ih = _ :=
    patchMcubootSig_eq hmax (by omega)
  rw [min_eq_right hend] at hfirst
  generalize htlv : tlvData (sha256 (ih.range 0xFF payloadStart (payloadEnd + 1 - payloadStart)))
    (sha256 publicKey) = tlv at hfirst
  have hlen : tlv.length = 76 := by rw [← htlv, length_tlvData]
  -- The byte at the end is still there.
  have hsome : ((ih.putAll mcubootAddr tlv).get maxAddr).isSome := by
    rw [ih.get_putAll]
    split_ifs with hin
    · rw [List.getElem?_eq_getElem (by omega)]
      rfl
    · exact ((ih.last_eq_some_iff).mp hmax).1
  obtain ⟨maxAddr', hmax', hle⟩ := ByteImage.Image.exists_last _ hsome
  have hagain : patchMcubootSig sha256 publicKey mcubootAddr payloadStart payloadEnd
      (ih.putAll mcubootAddr tlv) = _ := patchMcubootSig_eq hmax' (by omega)
  rw [min_eq_right (by omega), ih.range_putAll_of_disjoint (by omega), htlv] at hagain
  rw [hfirst, hagain, ByteImage.Image.get_putAll]
  split_ifs with hin
  · rw [ih.get_putAll, if_pos hin]
  · rfl

end

/-! ## A small image -/

/-- A memory that was erased before the image was written to it. -/
def flash (ih : Image) : Mem 32 := fun a => (ih.get a.toNat).getD 0xFF

theorem flashed_flash {ih : Image} {maxAddr : ℕ} (hmax : ih.last = some maxAddr)
    (hlt : maxAddr < 2 ^ 32) : Flashed (flash ih) ih := by
  intro a b h
  have hle := ((ih.last_eq_some_iff).mp hmax).2 a (by rw [h]; rfl)
  rw [flash, BitVec.toNat_ofNat, Nat.mod_eq_of_lt (by omega), h, Option.getD_some]

namespace SmallImage

set_option maxRecDepth 4000

/-- Two bytes of a payload of four, and one byte behind the record. -/
def image : Image := [(0x200, 0), (0x101, 2), (0x100, 1)]

/-- The public key of `default_signing_key.pem`. -/
def publicKey : Bytes :=
  [0x30, 0x59, 0x30, 0x13, 0x06, 0x07, 0x2A, 0x86, 0x48, 0xCE, 0x3D, 0x02, 0x01, 0x06, 0x08, 0x2A,
    0x86, 0x48, 0xCE, 0x3D, 0x03, 0x01, 0x07, 0x03, 0x42, 0x00, 0x04, 0x03, 0x57, 0x8F, 0x89, 0x89,
    0x3D, 0x5D, 0x9E, 0x59, 0x0F, 0x22, 0xD6, 0x51, 0x1D, 0xD8, 0xC9, 0xB4, 0xC4, 0x7E, 0x0C, 0x83,
    0x32, 0xC3, 0x8B, 0x21, 0xCF, 0xC4, 0x10, 0x23, 0x6F, 0x9F, 0x3D, 0xA1, 0x23, 0x9A, 0x95, 0xAD,
    0xB6, 0xAB, 0xDA, 0xE1, 0x95, 0x78, 0x80, 0x9A, 0x32, 0xE5, 0x31, 0x59, 0xBC, 0x6C, 0x1E, 0xB8,
    0xD4, 0x9A, 0xCC, 0x7E, 0xCE, 0xDA, 0x29, 0x8B, 0x9A, 0xB4, 0xDF]

def measurement : Vector UInt8 32 :=
  #v[0x1B, 0x6D, 0xD0, 0x5C, 0x65, 0xB0, 0x15, 0x57, 0x3C, 0xED, 0x7D, 0xE8, 0xB6, 0xBB, 0xD9, 0x87,
    0x29, 0x1A, 0xA3, 0xB0, 0xB0, 0xA5, 0xA1, 0xFB, 0xD8, 0x40, 0xA4, 0xCB, 0xCD, 0x5F, 0x61, 0xC1]

def signerId : Vector UInt8 32 :=
  #v[0xF4, 0x34, 0x46, 0x61, 0xB4, 0xAE, 0xFE, 0x65, 0x7B, 0x93, 0x03, 0x30, 0xF8, 0x18, 0x59, 0xC0,
    0x00, 0x29, 0xCB, 0x81, 0xDD, 0x83, 0x2A, 0x3E, 0xE7, 0x8E, 0xE6, 0xC4, 0x32, 0xAB, 0x4F, 0x9A]

/-- SHA-256 as it is on the payload and on the key. -/
def sha256 (data : Bytes) : Vector UInt8 32 :=
  if data = [1, 2, 0xFF, 0xFF] then measurement
  else if data = publicKey then signerId
  else .replicate 32 0

def patched : Image := patchMcubootSig sha256 publicKey 0x104 0x100 0x103 image

def platform : AttestPlatform :=
  { EmptyPlatform.platform with bootRecord := bootRecordAt (flash patched) (some 0x104) }

theorem last_patched : patched.last = some 0x200 := by decide

end SmallImage

end RuSpe
