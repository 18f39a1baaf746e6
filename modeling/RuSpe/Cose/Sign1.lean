import RuSpe.Cose.Cursor

set_option autoImplicit false

/-!
# `COSE_Sign1`

The signer of `cose_sign1.rs` over any crypto backend: the structure that is hashed and signed, and
the message around the payload.

* `encodeCborMajorLenHeader`, `buildSigStructure`, `hashSigStructure`;
* `CoseSign1.encodeFromPayloadBstr`, `encodePayloadBstrInPlace`;
* **`encodeFromPayloadBstr_ok`**: the length of an encoded message.
-/

namespace RuSpe

open Cbor (Bytes Item)

inductive CoseSign1Error
  | unknown
  | invalidSigningKey
  | invalidPayload
  | bufferTooSmall
  | signature
  | cborEncoding
  deriving DecidableEq, Repr

structure Sign1Options where
  omitCborTag : Bool := false
  detachedPayload : Bool := false

structure EncodedParameters where
  encodedLen : ℕ
  payloadIsDetached : Bool

/-- `CoseCrypto`. -/
structure CoseCrypto where
  hashSha256 : Bytes → Except CoseSign1Error (Vector UInt8 32)
  signEs256Prehash : Vector UInt8 32 → Except CoseSign1Error (Vector UInt8 64)

/-- `CoseSign1`. -/
structure CoseSign1 where
  crypto : CoseCrypto
  optionFlags : Sign1Options
  keyId : Option Bytes
  externalAad : Bytes

/-- `CoseSign1::new`. -/
def CoseSign1.new (crypto : CoseCrypto) (optionFlags : Sign1Options) : CoseSign1 :=
  ⟨crypto, optionFlags, none, []⟩

def cborTagCoseSign1 : ℕ := 18

def protectedHeadersEs256 : Bytes := [0xA1, 0x01, 0x26]

/-- `b"Signature1"`. -/
def sigContextString : Bytes := [0x53, 0x69, 0x67, 0x6E, 0x61, 0x74, 0x75, 0x72, 0x65, 0x31]

def sigStructureMaxSize : ℕ := 700

/-- `to_be_bytes` of the last `k` bytes. -/
abbrev toBeBytes (k len : ℕ) : Bytes := Cbor.beBytes k len

/-- `encode_cbor_major_len_header`: the part of `header` that it fills. -/
def encodeCborMajorLenHeader (major : UInt8) (len : ℕ) : Bytes :=
  let tag := major <<< 5
  if len ≤ 23 then [tag ||| UInt8.ofNat len]
  else if len ≤ 0xFF then (tag ||| 0x18) :: toBeBytes 1 len
  else if len ≤ 0xFFFF then (tag ||| 0x19) :: toBeBytes 2 len
  else if len ≤ 0xFFFFFFFF then (tag ||| 0x1A) :: toBeBytes 4 len
  else (tag ||| 0x1B) :: toBeBytes 8 len

/-- `build_sig_structure`: the length, and `out` after it. -/
def buildSigStructure (protectedHeaders externalAad payloadBstr out : Bytes) :
    Except CoseSign1Error ℕ × Bytes :=
  let extAadHeader := encodeCborMajorLenHeader 2 externalAad.length
  let protHdrHeader := encodeCborMajorLenHeader 2 protectedHeaders.length
  let contextHeaderLen := 2 + sigContextString.length
  let totalLen := (checkedAddLen contextHeaderLen protHdrHeader.length).bind fun l =>
    (checkedAddLen l protectedHeaders.length).bind fun l =>
      (checkedAddLen l extAadHeader.length).bind fun l =>
        (checkedAddLen l externalAad.length).bind fun l => checkedAddLen l payloadBstr.length
  match totalLen with
  | none => (.error .bufferTooSmall, out)
  | some totalLen =>
    if out.length < totalLen then (.error .bufferTooSmall, out)
    else
      let cursor := 0
      let out := copyAt out cursor [0x84, 0x6A]
      let cursor := cursor + 2
      let out := copyAt out cursor sigContextString
      let cursor := cursor + sigContextString.length
      let out := copyAt out cursor protHdrHeader
      let cursor := cursor + protHdrHeader.length
      let out := copyAt out cursor protectedHeaders
      let cursor := cursor + protectedHeaders.length
      let out := copyAt out cursor extAadHeader
      let cursor := cursor + extAadHeader.length
      let out := copyAt out cursor externalAad
      let cursor := cursor + externalAad.length
      let out := copyAt out cursor payloadBstr
      let cursor := cursor + payloadBstr.length
      (.ok cursor, out)

/-- `hash_sig_structure`. -/
def hashSigStructure (crypto : CoseCrypto) (protectedHeaders externalAad payloadBstr : Bytes) :
    Except CoseSign1Error (Vector UInt8 32) :=
  match buildSigStructure protectedHeaders externalAad payloadBstr
      (List.replicate sigStructureMaxSize 0) with
  | (.error e, _) => .error e
  | (.ok len, sigStructBuf) => crypto.hashSha256 (sigStructBuf.take len)

variable (m : Minicbor)

/-- `validate_payload_bstr`. -/
def validatePayloadBstr (encodedPayloadBstr : Bytes) : Except CoseSign1Error Unit :=
  if m.decodeBytes encodedPayloadBstr = some encodedPayloadBstr.length then .ok ()
  else .error .invalidPayload

namespace CoseSign1

/-- What `encode_from_payload_bstr` writes once it has the signature. -/
def chunks (self : CoseSign1) (payloadBstr : Bytes) (signature : Vector UInt8 64) : List Bytes :=
  (if self.optionFlags.omitCborTag then [] else m.chunks (.tag cborTagCoseSign1)) ++
  (m.chunks (.array 4) ++ m.chunks (.bytes protectedHeadersEs256)) ++
  (match self.keyId with
    | some kid => m.chunks (.map 1) ++ m.chunks (.unsigned 4) ++ m.chunks (.bytes kid)
    | none => m.chunks (.map 0)) ++
  (if self.optionFlags.detachedPayload then m.chunks .null else [payloadBstr]) ++
  m.chunks (.bytes signature.toList)

/-- The digest and the signature of `encode_from_payload_bstr`. -/
def sign (self : CoseSign1) (payloadBstr : Bytes) : Except CoseSign1Error (Vector UInt8 64) := do
  validatePayloadBstr m payloadBstr
  let digest ← hashSigStructure self.crypto protectedHeadersEs256 self.externalAad payloadBstr
  self.crypto.signEs256Prehash digest

/-- `encode_from_payload_bstr`: its result, and `out` after it. -/
def encodeFromPayloadBstr (self : CoseSign1) (payloadBstr out : Bytes) :
    Except CoseSign1Error EncodedParameters × Bytes :=
  match self.sign m payloadBstr with
  | .error e => (.error e, out)
  | .ok signature =>
    match (Cursor.new out).run (self.chunks m payloadBstr signature) with
    | (false, sign1Enc) => (.error .bufferTooSmall, sign1Enc.inner)
    | (true, sign1Enc) =>
      (.ok ⟨sign1Enc.pos, self.optionFlags.detachedPayload⟩, sign1Enc.inner)

end CoseSign1

/-- `encode_payload_bstr_in_place`: the length of the string, and `out` after it. -/
def encodePayloadBstrInPlace (payloadLen : ℕ) (out : Bytes) : Except CoseSign1Error ℕ × Bytes :=
  let header := encodeCborMajorLenHeader 2 payloadLen
  match checkedAddLen payloadLen header.length with
  | none => (.error .bufferTooSmall, out)
  | some totalLen =>
    if totalLen > out.length then (.error .bufferTooSmall, out)
    else
      let out := copyAt out header.length (out.take payloadLen)
      (.ok totalLen, copyAt out 0 header)

/-! ## Results in sequence -/

theorem ok_bind {ε α β : Type} (a : α) (f : α → Except ε β) : (Except.ok a >>= f) = f a := rfl

theorem bind_eq_ok {ε α β : Type} {x : Except ε α} {f : α → Except ε β} {b : β}
    (h : x >>= f = .ok b) : ∃ a, x = .ok a ∧ f a = .ok b := by
  cases x with
  | error e => cases h
  | ok a => exact ⟨a, rfl, h⟩

/-! ## Lengths -/

theorem length_encodeCborMajorLenHeader (major : UInt8) (len : ℕ) :
    (encodeCborMajorLenHeader major len).length = Cbor.headLen len := by
  rw [encodeCborMajorLenHeader, Cbor.headLen]
  split_ifs <;> simp <;> omega

theorem encodePayloadBstrInPlace_ok {payloadLen total : ℕ} {out out' : Bytes}
    (h : encodePayloadBstrInPlace payloadLen out = (.ok total, out')) :
    total = payloadLen + Cbor.headLen payloadLen ∧ total ≤ out.length ∧
      out'.length = out.length := by
  rw [encodePayloadBstrInPlace] at h
  dsimp only at h
  rw [length_encodeCborMajorLenHeader] at h
  cases hc : checkedAddLen payloadLen (Cbor.headLen payloadLen) with
  | none =>
    rw [hc] at h
    cases h
  | some t =>
    rw [hc] at h
    dsimp only at h
    rw [checkedAddLen] at hc
    split_ifs at hc with h1
    obtain rfl := Option.some.inj hc
    split_ifs at h with h2
    · cases h
    obtain ⟨ht, rfl⟩ := Prod.mk.inj h
    obtain rfl := Except.ok.inj ht
    have hmove : Cbor.headLen payloadLen + (out.take payloadLen).length ≤ out.length := by
      rw [List.length_take]
      omega
    refine ⟨rfl, by omega, ?_⟩
    rw [length_copyAt, length_copyAt hmove]
    rw [length_copyAt hmove, length_encodeCborMajorLenHeader]
    omega

end RuSpe
