import RuSpe.Cose.Sign1
import RuSpe.Lib.CborValue

set_option autoImplicit false

/-!
# What a signed message says

The structure that is signed is written by hand and the message by `minicbor`. Both describe the
same payload and the same headers.

* `protectedHeaders`, `sigStructure`, `CoseSign1.message`: the items of the format;
* `buildSigStructure_of_fits`, `buildSigStructure_of_not_fits`;
* `encodeFromPayloadBstr_eq_ok_iff`: when there is a message, and its bytes;
* **`signed_message`**: it decodes to the item, and when it is written.
-/

namespace RuSpe

open Cbor (Bytes Item Value)

/-! ## The format -/

/-- `{1: -7}`: the algorithm is ES256. -/
def protectedHeaders : Value := .map [(.unsigned 1, .negative 6)]

theorem encode_protectedHeaders : protectedHeaders.encode = protectedHeadersEs256 := rfl

/-- The structure that is signed, for an encoded header. -/
def sigStructure (headers externalAad payload : Bytes) : Value :=
  .array [.text "Signature1", .bytes headers, .bytes externalAad, .bytes payload]

namespace CoseSign1

/-- `{4: kid}` or `{}`. -/
def unprotectedHeaders (self : CoseSign1) : Value :=
  .map (self.keyId.toList.map fun kid => (.unsigned 4, .bytes kid))

/-- The message around a payload and its signature. -/
def message (self : CoseSign1) (payload : Bytes) (signature : Vector UInt8 64) : Value :=
  let body : Value := .array [.bytes protectedHeaders.encode, self.unprotectedHeaders,
    if self.optionFlags.detachedPayload then .null else .bytes payload, .bytes signature.toList]
  if self.optionFlags.omitCborTag then body else .tag 18 body

/-- The signature of the hash of the structure. -/
def Signs (self : CoseSign1) (payload : Bytes) (signature : Vector UInt8 64) : Prop :=
  ∃ digest, self.crypto.hashSha256
      (sigStructure protectedHeaders.encode self.externalAad payload).encode = .ok digest ∧
    self.crypto.signEs256Prehash digest = .ok signature

end CoseSign1

/-- The decoder reads byte strings in preferred serialization. -/
def Minicbor.Reads (m : Minicbor) : Prop :=
  ∀ b : Bytes, b.length < 2 ^ 64 →
    m.decodeBytes (Item.encode (.bytes b)) = some (Item.encode (.bytes b)).length

/-! ## The structure that is signed -/

/-- The header written by hand is the head of a byte string. -/
theorem encodeCborMajorLenHeader_eq (len : ℕ) :
    encodeCborMajorLenHeader 2 len = Cbor.head 2 len := by
  rw [encodeCborMajorLenHeader, Cbor.head]
  by_cases h₀ : len < 24
  · rw [if_pos (by omega), if_pos h₀]
    interval_cases len <;> rfl
  rw [if_neg (by omega), if_neg h₀]
  by_cases h₁ : len < 2 ^ 8
  · rw [if_pos (by omega), if_pos h₁]
    rfl
  rw [if_neg (by omega), if_neg h₁]
  by_cases h₂ : len < 2 ^ 16
  · rw [if_pos (by omega), if_pos h₂]
    rfl
  rw [if_neg (by omega), if_neg h₂]
  by_cases h₃ : len < 2 ^ 32
  · rw [if_pos (by omega), if_pos h₃]
    rfl
  · rw [if_neg (by omega), if_neg h₃]
    rfl

section

variable (headers externalAad payload : Bytes)

/-- The pieces of `build_sig_structure`. -/
theorem encode_sigStructure :
    (sigStructure headers externalAad payload).encode =
      ([0x84, 0x6A] ++ sigContextString ++ encodeCborMajorLenHeader 2 headers.length ++
        headers ++ encodeCborMajorLenHeader 2 externalAad.length ++ externalAad) ++
          (Value.bytes payload).encode := by
  have htext : Item.encode (.text "Signature1") = 0x6A :: sigContextString := by decide
  have harray : Item.encode (.array 4) = [0x84] := by decide
  have hbytes : ∀ b, Item.encode (.bytes b) = Cbor.head 2 b.length ++ b := fun _ => rfl
  simp only [sigStructure, Value.encode, Cbor.encodeAll, List.length_cons, List.length_nil,
    Nat.zero_add, Nat.reduceAdd, htext, harray, hbytes, encodeCborMajorLenHeader_eq,
    List.append_assoc, List.append_nil, List.cons_append, List.nil_append]

/-- What the lengths of the pieces add up to. -/
theorem length_sigStructure :
    (sigStructure headers externalAad payload).encode.length =
      2 + sigContextString.length + (encodeCborMajorLenHeader 2 headers.length).length +
        headers.length + (encodeCborMajorLenHeader 2 externalAad.length).length +
          externalAad.length + (Value.bytes payload).encode.length := by
  rw [encode_sigStructure]
  simp only [List.length_append, List.length_cons, List.length_nil]

variable {headers externalAad payload} {out : Bytes}

/-- **The structure is written if it fits.** -/
theorem buildSigStructure_of_fits
    (h : (sigStructure headers externalAad payload).encode.length ≤ out.length)
    (h32 : (sigStructure headers externalAad payload).encode.length < 2 ^ 32) :
    buildSigStructure headers externalAad (Value.bytes payload).encode out =
      (.ok (sigStructure headers externalAad payload).encode.length,
        (sigStructure headers externalAad payload).encode ++
          out.drop (sigStructure headers externalAad payload).encode.length) := by
  have hlen := length_sigStructure headers externalAad payload
  have hw := (((((((Written.start out).copy [0x84, 0x6A]).copy sigContextString).copy
    (encodeCborMajorLenHeader 2 headers.length)).copy headers).copy
      (encodeCborMajorLenHeader 2 externalAad.length)).copy externalAad).copy
        (Value.bytes payload).encode
  rw [List.nil_append, ← encode_sigStructure] at hw
  have htotal : (checkedAddLen (2 + sigContextString.length)
      (encodeCborMajorLenHeader 2 headers.length).length).bind (fun l =>
        (checkedAddLen l headers.length).bind fun l =>
          (checkedAddLen l (encodeCborMajorLenHeader 2 externalAad.length).length).bind fun l =>
            (checkedAddLen l externalAad.length).bind fun l =>
              checkedAddLen l (Value.bytes payload).encode.length) =
      some (sigStructure headers externalAad payload).encode.length := by
    rw [hlen] at h32 ⊢
    simp only [checkedAddLen]
    rw [if_pos (by omega), Option.bind_some, if_pos (by omega), Option.bind_some,
      if_pos (by omega), Option.bind_some, if_pos (by omega), Option.bind_some, if_pos (by omega)]
  rw [buildSigStructure]
  dsimp only
  rw [htotal]
  dsimp only
  rw [if_neg (by omega)]
  exact Prod.ext (congrArg Except.ok hw.cursor_eq) hw.out_eq

/-- **Otherwise nothing is written.** -/
theorem buildSigStructure_of_not_fits
    (h : out.length < (sigStructure headers externalAad payload).encode.length) :
    buildSigStructure headers externalAad (Value.bytes payload).encode out =
      (.error .bufferTooSmall, out) := by
  have hlen := length_sigStructure headers externalAad payload
  have htotal : ∀ total, (checkedAddLen (2 + sigContextString.length)
      (encodeCborMajorLenHeader 2 headers.length).length).bind (fun l =>
        (checkedAddLen l headers.length).bind fun l =>
          (checkedAddLen l (encodeCborMajorLenHeader 2 externalAad.length).length).bind fun l =>
            (checkedAddLen l externalAad.length).bind fun l =>
              checkedAddLen l (Value.bytes payload).encode.length) = some total →
      out.length < total := by
    intro total ht
    simp only [checkedAddLen, Option.bind_eq_some_iff] at ht
    grind
  rw [buildSigStructure]
  dsimp only
  split
  · rfl
  · rename_i total ht
    rw [if_pos (htotal total ht)]

end

/-! ## The signature -/

section

variable {m : Minicbor} {self : CoseSign1} {payload out out' : Bytes}

theorem hashSigStructure_eq_ok_iff {crypto : CoseCrypto} {headers externalAad : Bytes}
    {digest : Vector UInt8 32} :
    hashSigStructure crypto headers externalAad (Value.bytes payload).encode = .ok digest ↔
      (sigStructure headers externalAad payload).encode.length ≤ sigStructureMaxSize ∧
        crypto.hashSha256 (sigStructure headers externalAad payload).encode = .ok digest := by
  have hbuf : (List.replicate sigStructureMaxSize (0 : UInt8)).length = sigStructureMaxSize :=
    List.length_replicate
  rw [hashSigStructure]
  by_cases h : (sigStructure headers externalAad payload).encode.length ≤ sigStructureMaxSize
  · rw [buildSigStructure_of_fits (by rwa [hbuf]) (lt_of_le_of_lt h (by decide)), and_iff_right h]
    dsimp only
    rw [List.take_left]
  · rw [buildSigStructure_of_not_fits (by rw [hbuf]; omega)]
    exact iff_of_false nofun fun hd => h hd.1

theorem sign_eq_ok_iff (hr : m.Reads) {signature : Vector UInt8 64} :
    self.sign m (Value.bytes payload).encode = .ok signature ↔
      (sigStructure protectedHeaders.encode self.externalAad payload).encode.length ≤
          sigStructureMaxSize ∧ self.Signs payload signature := by
  constructor
  · intro h
    obtain ⟨⟨⟩, -, h⟩ := bind_eq_ok h
    obtain ⟨digest, hd, hs⟩ := bind_eq_ok h
    rw [hashSigStructure_eq_ok_iff] at hd
    obtain ⟨hle, hh⟩ := hd
    exact ⟨hle, digest, hh, hs⟩
  · rintro ⟨hle, digest, hh, hs⟩
    have hlen : payload.length < 2 ^ 64 := by
      rw [length_sigStructure] at hle
      simp only [Value.encode, Item.length_encode, Item.size, sigStructureMaxSize] at hle
      omega
    have hv : validatePayloadBstr m (Value.bytes payload).encode = .ok () := if_pos (hr payload hlen)
    have hd := hashSigStructure_eq_ok_iff.mpr ⟨hle, hh⟩
    rw [encode_protectedHeaders] at hd
    rw [CoseSign1.sign, hv, ok_bind, hd, ok_bind]
    exact hs

/-! ## The message -/

/-- What is written is the message. -/
theorem flatten_chunks (hm : m.Preferred) (signature : Vector UInt8 64) :
    (self.chunks m (Value.bytes payload).encode signature).flatten =
      (self.message payload signature).encode := by
  have htag : (if self.optionFlags.omitCborTag then []
      else m.chunks (.tag cborTagCoseSign1)).flatten =
        if self.optionFlags.omitCborTag then [] else Item.encode (.tag 18) := by
    split_ifs
    · rfl
    · exact hm _
  have hnone (hk : self.keyId = none) :
      (m.chunks (.map 0)).flatten = self.unprotectedHeaders.encode := by
    rw [CoseSign1.unprotectedHeaders, hk]
    simp [hm _, Value.encode, Cbor.encodePairs]
  have hsome {kid : Bytes} (hk : self.keyId = some kid) :
      (m.chunks (.map 1) ++ m.chunks (.unsigned 4) ++ m.chunks (.bytes kid)).flatten =
        self.unprotectedHeaders.encode := by
    rw [CoseSign1.unprotectedHeaders, hk]
    simp [hm _, Value.encode, Cbor.encodePairs]
  have hpay : (if self.optionFlags.detachedPayload then m.chunks .null
      else [(Value.bytes payload).encode]).flatten = (if self.optionFlags.detachedPayload
        then Value.null else .bytes payload).encode := by
    split_ifs
    · exact hm .null
    · exact List.append_nil _
  have hchunks : (self.chunks m (Value.bytes payload).encode signature).flatten =
      (if self.optionFlags.omitCborTag then [] else Item.encode (.tag 18)) ++
        (Item.encode (.array 4) ++ Item.encode (.bytes protectedHeadersEs256)) ++
        self.unprotectedHeaders.encode ++ (if self.optionFlags.detachedPayload then Value.null
          else .bytes payload).encode ++ Item.encode (.bytes signature.toList) := by
    rw [CoseSign1.chunks, ← htag, ← hpay]
    cases hk : self.keyId with
    | none =>
      rw [← hnone hk]
      simp only [List.flatten_append, hm _]
    | some kid =>
      rw [← hsome hk]
      simp only [List.flatten_append, hm _]
  rw [hchunks, CoseSign1.message, encode_protectedHeaders]
  cases self.optionFlags.omitCborTag with
  | true => simp [Value.encode, Cbor.encodeAll]
  | false => simp [Value.encode, Cbor.encodeAll]

/-- **When a message is written, and its bytes.** -/
theorem encodeFromPayloadBstr_eq_ok_iff (hm : m.Preferred) (hr : m.Reads)
    {params : EncodedParameters} :
    self.encodeFromPayloadBstr m (Value.bytes payload).encode out = (.ok params, out') ↔
      ∃ signature,
        (sigStructure protectedHeaders.encode self.externalAad payload).encode.length ≤
            sigStructureMaxSize ∧ self.Signs payload signature ∧
        (self.message payload signature).encode.length ≤ out.length ∧
        params = ⟨(self.message payload signature).encode.length,
          self.optionFlags.detachedPayload⟩ ∧
        out' = (self.message payload signature).encode ++
          out.drop (self.message payload signature).encode.length := by
  have hunique : ∀ {signature}, self.sign m (Value.bytes payload).encode = .ok signature ↔
      (sigStructure protectedHeaders.encode self.externalAad payload).encode.length ≤
        sigStructureMaxSize ∧ self.Signs payload signature := sign_eq_ok_iff hr
  rw [CoseSign1.encodeFromPayloadBstr]
  cases hs : self.sign m (Value.bytes payload).encode with
  | error e =>
    refine iff_of_false nofun ?_
    rintro ⟨signature, hle, hsig, -⟩
    rw [hunique.mpr ⟨hle, hsig⟩] at hs
    cases hs
  | ok signature =>
    have hflat : (self.chunks m (Value.bytes payload).encode signature).flatten =
        (self.message payload signature).encode := flatten_chunks hm signature
    have hsame : ∀ signature', (sigStructure protectedHeaders.encode self.externalAad
        payload).encode.length ≤ sigStructureMaxSize ∧ self.Signs payload signature' →
        signature' = signature := by
      intro signature' h
      exact Except.ok.inj ((hunique.mpr h).symm.trans hs)
    by_cases hfit : (self.message payload signature).encode.length ≤ out.length
    · dsimp only
      rw [Cursor.run_new_of_fits _ (hflat ▸ hfit), hflat]
      dsimp only
      constructor
      · intro h
        obtain ⟨hp, rfl⟩ := Prod.mk.inj h
        obtain rfl := Except.ok.inj hp
        obtain ⟨hle, hsig⟩ := hunique.mp hs
        exact ⟨signature, hle, hsig, hfit, rfl, rfl⟩
      · rintro ⟨signature', hle, hsig, -, rfl, rfl⟩
        rw [hsame signature' ⟨hle, hsig⟩]
    · obtain ⟨c, hrun⟩ := Cursor.run_new_of_not_fits
        (self.chunks m (Value.bytes payload).encode signature) (hflat ▸ not_le.mp hfit)
      dsimp only
      rw [hrun]
      refine iff_of_false nofun ?_
      rintro ⟨signature', hle, hsig, hfit', -⟩
      rw [hsame signature' ⟨hle, hsig⟩] at hfit'
      exact hfit hfit'

theorem fits_message {signature : Vector UInt8 64} (hp : payload.length < 2 ^ 64)
    (hk : ∀ kid ∈ self.keyId, kid.length < 2 ^ 64) : (self.message payload signature).Fits := by
  have hbody : (Value.array [.bytes protectedHeaders.encode, self.unprotectedHeaders,
      if self.optionFlags.detachedPayload then .null else .bytes payload,
      .bytes signature.toList]).Fits := by
    refine ⟨(by decide : 4 < 2 ^ 64), ?_, ?_, ?_, ?_, trivial⟩
    · exact (by decide : protectedHeaders.encode.length < 2 ^ 64)
    · rw [CoseSign1.unprotectedHeaders]
      cases hkid : self.keyId with
      | none => exact ⟨(by decide : 0 < 2 ^ 64), trivial⟩
      | some kid =>
        exact ⟨(by decide : 1 < 2 ^ 64), (by decide : 4 < 2 ^ 64), hk kid hkid, trivial⟩
    · split_ifs
      · trivial
      · exact hp
    · rw [Value.fits_bytes, Vector.length_toList]
      decide
  rw [CoseSign1.message]
  cases self.optionFlags.omitCborTag with
  | true => exact hbody
  | false => exact ⟨(by decide : 18 < 2 ^ 64), hbody⟩

/-- The key id is a part of the message. -/
theorem length_keyId_le {signature : Vector UInt8 64} {kid : Bytes} (hk : kid ∈ self.keyId) :
    kid.length ≤ (self.message payload signature).encode.length := by
  have hu : kid.length ≤ self.unprotectedHeaders.encode.length := by
    rw [CoseSign1.unprotectedHeaders, Option.mem_def.mp hk]
    simp only [Option.toList_some, List.map_cons, List.map_nil, Value.encode, Cbor.encodePairs,
      List.length_append, Item.length_encode, Item.size]
    omega
  rw [CoseSign1.message]
  cases self.optionFlags.omitCborTag with
  | true =>
    simp only [if_true, Value.encode, Cbor.encodeAll, List.length_append]
    omega
  | false =>
    simp only [Bool.false_eq_true, if_false, Value.encode, Cbor.encodeAll, List.length_append]
    omega

/-- **A message decodes to the item of the format with the signature of the structure, and it is
written exactly when the structure fits, both crypto operations succeed and `out` has room.** -/
theorem signed_message (hm : m.Preferred) (hr : m.Reads) (hout : out.length < 2 ^ 64) :
    (∀ params out', self.encodeFromPayloadBstr m (Value.bytes payload).encode out =
        (.ok params, out') →
      ∃ signature, self.Signs payload signature ∧
        Cbor.decode (out'.take params.encodedLen) = some (self.message payload signature)) ∧
    ((∃ params, (self.encodeFromPayloadBstr m (Value.bytes payload).encode out).1 = .ok params) ↔
      (sigStructure protectedHeaders.encode self.externalAad payload).encode.length ≤ 700 ∧
        ∃ signature, self.Signs payload signature ∧
          (self.message payload signature).encode.length ≤ out.length) := by
  constructor
  · intro params out' h
    obtain ⟨signature, hle, hsig, hfit, rfl, rfl⟩ := (encodeFromPayloadBstr_eq_ok_iff hm hr).mp h
    refine ⟨signature, hsig, ?_⟩
    dsimp only
    rw [List.take_left]
    refine Cbor.decode_encode (fits_message ?_ fun kid hk => ?_)
    · rw [length_sigStructure] at hle
      simp only [Value.encode, Item.length_encode, Item.size, sigStructureMaxSize] at hle
      omega
    · exact lt_of_le_of_lt ((length_keyId_le hk).trans hfit) hout
  · constructor
    · rintro ⟨params, h⟩
      obtain ⟨signature, hle, hsig, hfit, -⟩ :=
        (encodeFromPayloadBstr_eq_ok_iff hm hr).mp (Prod.ext h rfl)
      exact ⟨hle, signature, hsig, hfit⟩
    · rintro ⟨hle, signature, hsig, hfit⟩
      exact ⟨_, congrArg Prod.fst ((encodeFromPayloadBstr_eq_ok_iff hm hr).mpr
        ⟨signature, hle, hsig, hfit, rfl, rfl⟩)⟩

end

/-! ## The message of the test vector -/

namespace TestVector

/-- An encoder that hands every item over in one piece. -/
def minicbor : Minicbor := ⟨fun i => [i.encode], Cbor.readBytes⟩

/-- `"This is the content."`. -/
def payload : Bytes :=
  [0x54, 0x68, 0x69, 0x73, 0x20, 0x69, 0x73, 0x20, 0x74, 0x68, 0x65, 0x20, 0x63, 0x6F, 0x6E, 0x74,
    0x65, 0x6E, 0x74, 0x2E]

/-- The key id is `"11"`; every structure has the same signature. -/
def signer : CoseSign1 where
  crypto := ⟨fun _ => .ok (Vector.replicate 32 0), fun _ => .ok (Vector.replicate 64 0x5E)⟩
  optionFlags := {}
  keyId := some [0x31, 0x31]
  externalAad := []

theorem preferred : minicbor.Preferred := fun i => List.append_nil i.encode

theorem reads : minicbor.Reads := fun _ hb => Cbor.readBytes_encode hb

example : (signer.message payload (Vector.replicate 64 0x5E)).encode.length = 98 := by
  decide

end TestVector

open TestVector in
/-- The message is written to a buffer of 256 bytes, and decodes. -/
theorem signed_message_testVector :
    ∃ params out', signer.encodeFromPayloadBstr minicbor (Value.bytes payload).encode
        (List.replicate 256 0) = (.ok params, out') ∧
      ∃ signature, Cbor.decode (out'.take params.encodedLen) =
        some (signer.message payload signature) := by
  have hlen : (List.replicate 256 (0 : UInt8)).length < 2 ^ 64 := by
    rw [List.length_replicate]
    decide
  have hmsg := @signed_message minicbor signer payload (List.replicate 256 0) preferred reads hlen
  obtain ⟨params, hp⟩ := hmsg.2.mpr
    ⟨by decide, Vector.replicate 64 0x5E, ⟨_, rfl, rfl⟩, by rw [List.length_replicate]; decide⟩
  rcases hx : signer.encodeFromPayloadBstr minicbor (Value.bytes payload).encode
    (List.replicate 256 0) with ⟨answer, out'⟩
  rw [hx] at hp
  obtain rfl : answer = .ok params := hp
  obtain ⟨signature, -, hd⟩ := hmsg.1 params out' hx
  exact ⟨params, out', rfl, signature, hd⟩

end RuSpe
