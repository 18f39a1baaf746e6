import RuSpe.Cose.Sign1
import RuSpe.Psa.Types

set_option autoImplicit false

/-!
# The attestation token

The claims of a token are a CBOR map, in a byte string that is signed as a `COSE_Sign1` message.

* `IatClaim`, `SwComponent`, `AttestClaimValue`, `AttestClaim`;
* `encodePayloadTo`, `PsaCryptoBackend`, `encodeInitialAttestationToken`;
* `computeInitialAttestationTokenSize`;
* `tokenChunks`, **`encodeToken_eq`**: what is written does not depend on the buffer it goes to;
* `payloadLen`, **`length_tokenChunks`**, **`computeTokenSize_eq`**: the two sizes.
-/

namespace RuSpe

open Cbor (Bytes Item)

/-! ## Claims -/

inductive IatClaim
  | nonce
  | instanceId
  | profileDefinition
  | bootSeed
  | clientId
  | securityLifecycle
  | implementationId
  | certificationReference
  | swComponents
  | verificationService
  deriving DecidableEq, Repr

/-- The discriminant of a label. -/
def IatClaim.val : IatClaim → ℕ
  | .nonce => 10
  | .instanceId => 256
  | .profileDefinition => 265
  | .bootSeed => 268
  | .clientId => 2394
  | .securityLifecycle => 2395
  | .implementationId => 2396
  | .certificationReference => 2398
  | .swComponents => 2399
  | .verificationService => 2400

structure SwComponent where
  measurementType : Option String
  measurementValue : Bytes
  signerId : Bytes
  deriving DecidableEq

inductive AttestClaimValue
  | bytes (b : Bytes)
  | text (t : String)
  | unsigned (u : BitVec 64)
  | signed (s : BitVec 64)
  | swComponents (c : List SwComponent)
  deriving DecidableEq

structure AttestClaim where
  key : IatClaim
  value : AttestClaimValue
  deriving DecidableEq

/-! ## Encoding -/

/-- `map_cose_error`. -/
def mapCoseError : CoseSign1Error → StatusCode
  | .bufferTooSmall => .bufferTooSmall
  | _ => .invalidArgument

/-- The items of `encode_sw_components`. -/
def swComponentsItems (components : List SwComponent) : List Item :=
  .array components.length :: components.flatMap fun comp =>
    [.map (if comp.measurementType.isSome then 3 else 2), .unsigned 5, .bytes comp.signerId,
      .unsigned 2, .bytes comp.measurementValue] ++
    match comp.measurementType with
    | some mt => [.unsigned 1, .text mt]
    | none => []

/-- The items of `encode_claim_value`. -/
def claimValueItems : AttestClaimValue → List Item
  | .bytes b => [.bytes b]
  | .text t => [.text t]
  | .unsigned u => [.unsigned u.toNat]
  | .signed s => [.ofInt s.toInt]
  | .swComponents c => swComponentsItems c

/-- The items of `encode_payload_to`. -/
def payloadItems (claims : List AttestClaim) : List Item :=
  .map claims.length :: claims.flatMap fun claim =>
    .unsigned claim.key.val :: claimValueItems claim.value

variable (m : Minicbor)

/-- `encode_payload_to`. -/
def encodePayloadTo (claims : List AttestClaim) : List Bytes :=
  (payloadItems claims).flatMap m.chunks

/-- `encode_payload`: the length, and `out` after it. -/
def encodePayload (claims : List AttestClaim) (out : Bytes) : Except StatusCode ℕ × Bytes :=
  match (Cursor.new out).run (encodePayloadTo m claims) with
  | (false, enc) => (.error .bufferTooSmall, enc.inner)
  | (true, enc) => (.ok enc.pos, enc.inner)

/-! ## Signing -/

def psaAlgSha256 : BitVec 32 := 0x02000009

def psaAlgEcdsaSha256 : BitVec 32 := 0x06000609

/-- What `psa_hash_compute` and `psa_sign_hash` return and leave in their output array, for a client
that goes to some crypto service. -/
structure PsaCryptoClient where
  psaHashCompute : BitVec 32 → Bytes → Vector UInt8 32 → Except StatusCode ℕ × Vector UInt8 32
  psaSignHash : BitVec 32 → BitVec 32 → Vector UInt8 32 → Vector UInt8 64 →
    Except StatusCode ℕ × Vector UInt8 64

/-- The match of both methods of the backend on a result that has to fill its buffer. -/
def exactly {n : ℕ} : Except StatusCode ℕ × Vector UInt8 n → Except CoseSign1Error (Vector UInt8 n)
  | (.ok len, buf) => if len = n then .ok buf else .error .bufferTooSmall
  | (.error .bufferTooSmall, _) => .error .bufferTooSmall
  | (.error _, _) => .error .unknown

/-- `PsaCryptoBackend`. -/
def PsaCryptoBackend.new (client : PsaCryptoClient) (keyId : BitVec 32) : CoseCrypto where
  hashSha256 input := exactly (client.psaHashCompute psaAlgSha256 input (Vector.replicate 32 0))
  signEs256Prehash digest :=
    exactly (client.psaSignHash keyId psaAlgEcdsaSha256 digest (Vector.replicate 64 0))

/-- `encode_initial_attestation_token`: the length of the token, and `token` after it. -/
def encodeInitialAttestationToken (client : PsaCryptoClient) (claims : List AttestClaim)
    (token : Bytes) (keyId : BitVec 32) : Except StatusCode ℕ × Bytes :=
  match encodePayload m claims (List.replicate 512 0) with
  | (.error e, _) => (.error e, token)
  | (.ok payloadLen, payloadBuf) =>
    match encodePayloadBstrInPlace payloadLen payloadBuf with
    | (.error e, _) => (.error (mapCoseError e), token)
    | (.ok payloadBstrLen, payloadBuf) =>
      let signer := CoseSign1.new (PsaCryptoBackend.new client keyId) {}
      if payloadBuf.length < payloadBstrLen then (.error .bufferTooSmall, token)
      else
        match signer.encodeFromPayloadBstr m (payloadBuf.take payloadBstrLen) token with
        | (.error e, token) => (.error (mapCoseError e), token)
        | (.ok encoded, token) => (.ok encoded.encodedLen, token)

/-- `SizeCounter`, after the pieces were written to it. The addition saturates. -/
def sizeCounter (chunks : List Bytes) : ℕ :=
  chunks.foldl (fun len buf => min (len + buf.length) (2 ^ 32 - 1)) 0

/-- `compute_initial_attestation_token_size`. -/
def computeInitialAttestationTokenSize (claims : List AttestClaim) : Except StatusCode ℕ :=
  let payloadLen := sizeCounter (encodePayloadTo m claims)
  let bstrHeaderLen :=
    if payloadLen ≤ 23 then 1
    else if payloadLen ≤ 0xFF then 2
    else if payloadLen ≤ 0xFFFF then 3
    else 5
  match checkedAddLen payloadLen (bstrHeaderLen + 73) with
  | some size => .ok size
  | none => .error .bufferTooSmall

/-! ## Lengths -/

/-- The number of bytes of some items. -/
def itemsLen (items : List Item) : ℕ := (items.map Item.size).sum

/-- The length of the claim map. -/
def payloadLen (claims : List AttestClaim) : ℕ := itemsLen (payloadItems claims)

theorem itemsLen_cons (i : Item) (items : List Item) :
    itemsLen (i :: items) = i.size + itemsLen items := rfl

theorem itemsLen_append (l l' : List Item) : itemsLen (l ++ l') = itemsLen l + itemsLen l' := by
  simp [itemsLen]

/-- The length of a claim. -/
def claimLen (claim : AttestClaim) : ℕ :=
  (Item.unsigned claim.key.val).size + itemsLen (claimValueItems claim.value)

theorem claimLen_pos (claim : AttestClaim) : 0 < claimLen claim :=
  Nat.lt_of_lt_of_le (Item.size_pos _) (Nat.le_add_right _ _)

theorem payloadLen_eq (claims : List AttestClaim) :
    payloadLen claims = Cbor.headLen claims.length + (claims.map claimLen).sum := by
  rw [payloadLen, payloadItems, itemsLen_cons]
  congr 1
  induction claims with
  | nil => rfl
  | cons claim claims ih =>
    rw [List.flatMap_cons, itemsLen_append, ih, itemsLen_cons, List.map_cons, List.sum_cons,
      claimLen]

variable {m}

theorem length_chunks (hm : m.Preferred) (i : Item) : (m.chunks i).flatten.length = i.size := by
  rw [hm, Item.length_encode]

theorem length_flatMap_chunks (hm : m.Preferred) (items : List Item) :
    (items.flatMap m.chunks).flatten.length = itemsLen items := by
  induction items with
  | nil => rfl
  | cons i items ih =>
    rw [List.flatMap_cons, List.flatten_append, List.length_append, ih, length_chunks hm,
      itemsLen_cons]

theorem length_encodePayloadTo (hm : m.Preferred) (claims : List AttestClaim) :
    (encodePayloadTo m claims).flatten.length = payloadLen claims :=
  length_flatMap_chunks hm _

theorem sizeCounter_eq {chunks : List Bytes} (h : chunks.flatten.length < 2 ^ 32) :
    sizeCounter chunks = chunks.flatten.length := by
  suffices hs : ∀ len, len + chunks.flatten.length < 2 ^ 32 →
      chunks.foldl (fun len buf => min (len + buf.length) (2 ^ 32 - 1)) len =
        len + chunks.flatten.length by
    have := hs 0 (by omega)
    rwa [Nat.zero_add] at this
  clear h
  induction chunks with
  | nil => intro len _; rfl
  | cons chunk rest ih =>
    intro len h
    rw [List.flatten_cons, List.length_append] at h ⊢
    rw [List.foldl_cons, min_eq_left (by omega), ih _ (by omega)]
    omega

/-- **The size that is computed.** -/
theorem computeTokenSize_eq (hm : m.Preferred) {claims : List AttestClaim}
    (h : payloadLen claims + 82 < 2 ^ 32) :
    computeInitialAttestationTokenSize m claims =
      .ok (payloadLen claims + Cbor.headLen (payloadLen claims) + 73) := by
  have hlen := length_encodePayloadTo hm claims
  have hhead : (if payloadLen claims ≤ 23 then 1 else if payloadLen claims ≤ 0xFF then 2
      else if payloadLen claims ≤ 0xFFFF then 3 else 5) = Cbor.headLen (payloadLen claims) := by
    rw [Cbor.headLen]
    split_ifs <;> omega
  have hle := Cbor.headLen_le (payloadLen claims)
  rw [computeInitialAttestationTokenSize, sizeCounter_eq (by omega), hlen]
  rw [hhead, checkedAddLen, if_pos (by omega)]
  exact congrArg Except.ok (Nat.add_assoc _ _ _).symm

/-- The pieces around the payload have 73 bytes. -/
theorem length_signerChunks (hm : m.Preferred) (crypto : CoseCrypto) (payloadBstr : Bytes)
    (signature : Vector UInt8 64) :
    ((CoseSign1.new crypto {}).chunks m payloadBstr signature).flatten.length =
      payloadBstr.length + 73 := by
  have hsig : (Item.bytes signature.toList).size = 66 := by
    rw [Item.size, Vector.length_toList]
    decide
  have htag : (Item.tag cborTagCoseSign1).size = 1 := by decide
  have harr : (Item.array 4).size = 1 := by decide
  have hprot : (Item.bytes protectedHeadersEs256).size = 4 := by decide
  have hmap : (Item.map 0).size = 1 := by decide
  simp only [CoseSign1.chunks, CoseSign1.new, List.flatten_append, List.length_append,
    Bool.false_eq_true, if_false, length_chunks hm, List.flatten_singleton, hsig, htag, harr, hprot,
    hmap]
  omega

/-! ## What is written -/

variable (m)

/-- The pieces of the token. -/
def tokenChunks (client : PsaCryptoClient) (claims : List AttestClaim) (keyId : BitVec 32) :
    Except StatusCode (List Bytes) :=
  match encodePayload m claims (List.replicate 512 0) with
  | (.error e, _) => .error e
  | (.ok payloadLen, payloadBuf) =>
    match encodePayloadBstrInPlace payloadLen payloadBuf with
    | (.error e, _) => .error (mapCoseError e)
    | (.ok payloadBstrLen, payloadBuf) =>
      let signer := CoseSign1.new (PsaCryptoBackend.new client keyId) {}
      if payloadBuf.length < payloadBstrLen then .error .bufferTooSmall
      else
        match signer.sign m (payloadBuf.take payloadBstrLen) with
        | .error e => .error (mapCoseError e)
        | .ok signature => .ok (signer.chunks m (payloadBuf.take payloadBstrLen) signature)

variable {client : PsaCryptoClient} {claims : List AttestClaim} {keyId : BitVec 32}

/-- **The pieces are made first, and then written to the buffer.** -/
theorem encodeToken_eq (token : Bytes) :
    encodeInitialAttestationToken m client claims token keyId =
      match tokenChunks m client claims keyId with
      | .error e => (.error e, token)
      | .ok chunks =>
        match (Cursor.new token).run chunks with
        | (false, enc) => (.error .bufferTooSmall, enc.inner)
        | (true, enc) => (.ok enc.pos, enc.inner) := by
  rw [encodeInitialAttestationToken, tokenChunks]
  rcases encodePayload m claims (List.replicate 512 0) with ⟨e | payloadLen, payloadBuf⟩
  · rfl
  dsimp only
  rcases encodePayloadBstrInPlace payloadLen payloadBuf with ⟨e | bstrLen, buf⟩
  · rfl
  dsimp only
  by_cases hlt : buf.length < bstrLen
  · rw [if_pos hlt, if_pos hlt]
  rw [if_neg hlt, if_neg hlt, CoseSign1.encodeFromPayloadBstr]
  cases (CoseSign1.new (PsaCryptoBackend.new client keyId) {}).sign m (buf.take bstrLen) with
  | error e => rfl
  | ok signature =>
    dsimp only
    rcases (Cursor.new token).run ((CoseSign1.new (PsaCryptoBackend.new client keyId) {}).chunks m
      (buf.take bstrLen) signature) with ⟨ok, enc⟩
    cases ok <;> rfl

variable {m}

theorem encodePayload_ok (hm : m.Preferred) {out out' : Bytes} {n : ℕ}
    (h : encodePayload m claims out = (.ok n, out')) :
    n = payloadLen claims ∧ n ≤ out.length ∧ out'.length = out.length := by
  have hlen := length_encodePayloadTo hm claims
  rw [encodePayload] at h
  by_cases hfit : payloadLen claims ≤ out.length
  · rw [Cursor.run_new_of_fits _ (hlen.trans_le hfit), hlen] at h
    obtain ⟨hn, rfl⟩ := Prod.mk.inj h
    obtain rfl := Except.ok.inj hn
    refine ⟨rfl, hfit, ?_⟩
    rw [List.length_append, List.length_drop, hlen]
    exact Nat.add_sub_cancel' hfit
  · obtain ⟨enc, hrun⟩ := Cursor.run_new_of_not_fits (encodePayloadTo m claims)
      ((not_le.mp hfit).trans_eq hlen.symm)
    rw [hrun] at h
    cases h

/-- **The length of a token.** -/
theorem length_tokenChunks (hm : m.Preferred) {chunks : List Bytes}
    (h : tokenChunks m client claims keyId = .ok chunks) :
    chunks.flatten.length = payloadLen claims + Cbor.headLen (payloadLen claims) + 73 ∧
      payloadLen claims ≤ 512 := by
  rw [tokenChunks] at h
  rcases hp : encodePayload m claims (List.replicate 512 0) with ⟨e | n, buf⟩
  · rw [hp] at h
    cases h
  obtain ⟨rfl, hle, hbuf⟩ := encodePayload_ok hm hp
  rw [List.length_replicate] at hle hbuf
  rw [hp] at h
  dsimp only at h
  rcases hi : encodePayloadBstrInPlace (payloadLen claims) buf with ⟨e | total, buf'⟩
  · rw [hi] at h
    cases h
  obtain ⟨rfl, hle', hbuf'⟩ := encodePayloadBstrInPlace_ok hi
  rw [hi] at h
  dsimp only at h
  rw [if_neg (by omega)] at h
  cases hs : (CoseSign1.new (PsaCryptoBackend.new client keyId) {}).sign m
      (buf'.take (payloadLen claims + Cbor.headLen (payloadLen claims))) with
  | error e =>
    rw [hs] at h
    cases h
  | ok signature =>
    rw [hs] at h
    obtain rfl := Except.ok.inj h
    rw [length_signerChunks hm, List.length_take, min_eq_left (by omega)]
    exact ⟨rfl, hle⟩

/-- A token that was encoded has the length of its pieces. -/
theorem encodeToken_ok (hm : m.Preferred) {token token' : Bytes} {n : ℕ}
    (h : encodeInitialAttestationToken m client claims token keyId = (.ok n, token')) :
    n = payloadLen claims + Cbor.headLen (payloadLen claims) + 73 ∧ payloadLen claims ≤ 512 ∧
      n ≤ token.length ∧ token'.length = token.length := by
  rw [encodeToken_eq] at h
  cases hc : tokenChunks m client claims keyId with
  | error e =>
    rw [hc] at h
    cases h
  | ok chunks =>
    obtain ⟨hlen, hle⟩ := length_tokenChunks hm hc
    rw [hc] at h
    dsimp only at h
    by_cases hfit : chunks.flatten.length ≤ token.length
    · rw [Cursor.run_new_of_fits chunks hfit] at h
      obtain ⟨hn, rfl⟩ := Prod.mk.inj h
      obtain rfl := Except.ok.inj hn
      refine ⟨hlen, hle, hfit, ?_⟩
      rw [List.length_append, List.length_drop]
      exact Nat.add_sub_cancel' hfit
    · obtain ⟨enc, hrun⟩ := Cursor.run_new_of_not_fits chunks (not_le.mp hfit)
      rw [hrun] at h
      cases h

/-- **A buffer that is shorter than the token is refused.** -/
theorem encodeToken_of_short (hm : m.Preferred) {token token' short : Bytes} {n : ℕ}
    (h : encodeInitialAttestationToken m client claims token keyId = (.ok n, token'))
    (hs : short.length < n) :
    (encodeInitialAttestationToken m client claims short keyId).1 = .error .bufferTooSmall := by
  obtain ⟨rfl, -⟩ := encodeToken_ok hm h
  rw [encodeToken_eq] at h ⊢
  cases hc : tokenChunks m client claims keyId with
  | error e =>
    rw [hc] at h
    cases h
  | ok chunks =>
    obtain ⟨hlen, -⟩ := length_tokenChunks hm hc
    obtain ⟨enc, hrun⟩ := Cursor.run_new_of_not_fits chunks (hs.trans_eq hlen.symm)
    dsimp only
    rw [hrun]

end RuSpe
