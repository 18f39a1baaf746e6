import RuSpe.Attest.Service
import RuSpe.Attest.Token

set_option autoImplicit false

/-!
# The packed description of a crypto operation

The first input vector of a request to the crypto service is a C record of 56 bytes, aligned to
eight. The client lends the bytes of its own record, and the service reads them as one.

* `TfmCryptoPackIovec`, `forSignHash`, `forHashCompute`;
* `TfmCryptoPackIovec.toBytes`: the record in memory;
* `TfmCryptoPackIovec.tryFromBytes`: what the service makes of the bytes it gets;
* **`tryFromBytes_toBytes`**: the service reads the record of the client.
-/

namespace RuSpe

open Cbor (Bytes)

def tfmCryptoHashComputeSid : BitVec 16 := 0x0300
def tfmCryptoAsymmetricSignHashSid : BitVec 16 := 0x0702

/-- `TfmCryptoAeadPackInput`. -/
structure TfmCryptoAeadPackInput where
  nonce : Vector UInt8 16
  nonceLength : BitVec 32
  deriving DecidableEq

/-- `TfmCryptoPackIovec`. -/
@[ext]
structure TfmCryptoPackIovec where
  keyId : BitVec 32
  alg : BitVec 32
  opHandle : BitVec 32
  adLength : BitVec 32
  plaintextLength : BitVec 32
  aeadIn : TfmCryptoAeadPackInput
  functionId : BitVec 16
  step : BitVec 16
  reserved : Vector UInt8 4
  capacity : BitVec 64
  deriving DecidableEq

namespace TfmCryptoPackIovec

/-- `for_sign_hash`. -/
def forSignHash (keyId alg : BitVec 32) : TfmCryptoPackIovec where
  keyId := keyId
  alg := alg
  opHandle := 0
  adLength := 0
  plaintextLength := 0
  aeadIn := ⟨.replicate 16 0, 0⟩
  functionId := tfmCryptoAsymmetricSignHashSid
  step := 0
  reserved := .replicate 4 0
  capacity := 0

/-- `for_hash_compute`. -/
def forHashCompute (alg : BitVec 32) : TfmCryptoPackIovec where
  keyId := 0
  alg := alg
  opHandle := 0
  adLength := 0
  plaintextLength := 0
  aeadIn := ⟨.replicate 16 0, 0⟩
  functionId := tfmCryptoHashComputeSid
  step := 0
  reserved := .replicate 4 0
  capacity := 0

/-! ## The record in memory -/

/-- A field of `n` bytes. -/
def field {w : ℕ} (n : ℕ) (x : BitVec w) : Bytes := toLeBytes n x.toNat

/-- The fields in their order. There is no padding between them. -/
def toBytes (iov : TfmCryptoPackIovec) : Bytes :=
  field 4 iov.keyId ++ (field 4 iov.alg ++ (field 4 iov.opHandle ++ (field 4 iov.adLength ++
    (field 4 iov.plaintextLength ++ (iov.aeadIn.nonce.toList ++ (field 4 iov.aeadIn.nonceLength ++
      (field 2 iov.functionId ++ (field 2 iov.step ++ (iov.reserved.toList ++
        field 8 iov.capacity)))))))))

/-- The field of `n` bytes at `offset`. -/
def fieldAt (w : ℕ) (buf : Bytes) (offset n : ℕ) : BitVec w :=
  BitVec.ofNat w (fromLeBytes ((buf.drop offset).take n))

/-- The bytes of an array field. -/
def bytesAt (n : ℕ) (buf : Bytes) (offset : ℕ) : Vector UInt8 n :=
  .ofFn fun i => (buf[offset + i.val]?).getD 0

/-- The closure of the first access: `bytemuck::try_from_bytes`, which looks at the alignment and at
the size. -/
def tryFromBytes (base : Usize) (buf : Bytes) : Except StatusCode TfmCryptoPackIovec :=
  if base.toNat % 8 ≠ 0 ∨ buf.length ≠ 56 then .error .programmerError
  else .ok {
    keyId := fieldAt 32 buf 0 4
    alg := fieldAt 32 buf 4 4
    opHandle := fieldAt 32 buf 8 4
    adLength := fieldAt 32 buf 12 4
    plaintextLength := fieldAt 32 buf 16 4
    aeadIn := ⟨bytesAt 16 buf 20, fieldAt 32 buf 36 4⟩
    functionId := fieldAt 16 buf 40 2
    step := fieldAt 16 buf 42 2
    reserved := bytesAt 4 buf 44
    capacity := fieldAt 64 buf 48 8 }

/-! ## What is read back -/

theorem length_field {w : ℕ} (n : ℕ) (x : BitVec w) : (field n x).length = n :=
  AttestService.length_toLeBytes n x.toNat

theorem length_toBytes (iov : TfmCryptoPackIovec) : iov.toBytes.length = 56 := by
  simp only [toBytes, List.length_append, length_field, Vector.length_toList]

section

variable {w n offset : ℕ} {pre : Bytes} (post : Bytes)

/-- What comes before a field is skipped. -/
theorem fieldAt_skip (h : pre.length ≤ offset) :
    fieldAt w (pre ++ post) offset n = fieldAt w post (offset - pre.length) n := by
  rw [fieldAt, fieldAt, List.drop_append, List.drop_of_length_le h, List.nil_append]

theorem bytesAt_skip (h : pre.length ≤ offset) :
    bytesAt n (pre ++ post) offset = bytesAt n post (offset - pre.length) := by
  refine Vector.ext fun i hi => ?_
  rw [bytesAt, bytesAt, Vector.getElem_ofFn, Vector.getElem_ofFn,
    List.getElem?_append_right (by omega), Nat.sub_add_comm h]

theorem fieldAt_head (hw : 2 ^ w = 256 ^ n) (x : BitVec w) :
    fieldAt w (field n x ++ post) 0 n = x := by
  have htake : (field n x ++ post).take n = field n x := by
    rw [List.take_append_of_le_length (length_field n x).ge,
      List.take_of_length_le (length_field n x).le]
  have hlt : x.toNat % 256 ^ n = x.toNat := Nat.mod_eq_of_lt (hw ▸ x.isLt)
  rw [fieldAt, List.drop_zero, htake, field, AttestService.fromLeBytes_toLeBytes, hlt,
    BitVec.ofNat_toNat, BitVec.setWidth_eq]

theorem bytesAt_head (v : Vector UInt8 n) : bytesAt n (v.toList ++ post) 0 = v := by
  refine Vector.ext fun i hi => ?_
  have hlen : i < v.toList.length := by rwa [Vector.length_toList]
  rw [bytesAt, Vector.getElem_ofFn, Nat.zero_add, List.getElem?_append_left hlen,
    List.getElem?_eq_getElem hlen, Option.getD_some, Vector.getElem_toList]

end

/-- **The service reads the record that the client wrote**, if it is aligned. -/
theorem tryFromBytes_toBytes (iov : TfmCryptoPackIovec) {base : Usize} (h : base.toNat % 8 = 0) :
    tryFromBytes base iov.toBytes = .ok iov := by
  have hlast : fieldAt 64 (field 8 iov.capacity) 0 8 = iov.capacity := by
    have hhead := @fieldAt_head 64 8 [] (by decide) iov.capacity
    rwa [List.append_nil] at hhead
  rw [tryFromBytes, if_neg (not_or.mpr ⟨not_not.mpr h, not_not.mpr iov.length_toBytes⟩)]
  simp only [toBytes, fieldAt_skip, bytesAt_skip, length_field, Vector.length_toList, fieldAt_head,
    bytesAt_head, hlast, Nat.reduceLeDiff, Nat.reduceSub, Nat.reducePow]

end TfmCryptoPackIovec

end RuSpe
