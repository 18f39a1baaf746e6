import RuSpe.Attest.Payload
import RuSpe.Cose.InPlace

set_option autoImplicit false

/-!
# When a token is encoded

Three buffers take part: 512 bytes for the payload, 700 bytes for the structure that is signed, and
the token. With a client that always hashes and signs, only the first and the last can be too small.

* `PsaCryptoClient.Answers`;
* `tokenChunks_of_fits`, `tokenChunks_of_not_fits`;
* **`encodeToken_ok_iff`**: when a token is encoded, and its size.
-/

namespace RuSpe

open Cbor (Bytes Item Value)

/-! ## The pieces of a token -/

/-- The client always gives a whole hash and a whole signature. -/
structure PsaCryptoClient.Answers (client : PsaCryptoClient) : Prop where
  hash : ∀ alg input hash, (client.psaHashCompute alg input hash).1 = .ok 32
  signature : ∀ keyId alg digest signature, (client.psaSignHash keyId alg digest signature).1 = .ok 64

theorem exactly_of_ok {n : ℕ} {answer : Except StatusCode ℕ × Vector UInt8 n}
    (h : answer.1 = .ok n) : exactly answer = .ok answer.2 := by
  obtain ⟨r, buf⟩ := answer
  obtain rfl : r = .ok n := h
  rw [exactly, if_pos rfl]

variable {m : Minicbor} {client : PsaCryptoClient} {claims : List AttestClaim} {keyId : BitVec 32}

/-- The structure that is signed has room for every payload of a token. -/
theorem length_sigStructure_le {payload : Bytes} (h : (Value.bytes payload).encode.length ≤ 512) :
    (sigStructure protectedHeaders.encode [] payload).encode.length ≤ sigStructureMaxSize := by
  have hcontext : sigContextString.length = 10 := rfl
  have hheaders : protectedHeaders.encode.length = 3 := rfl
  rw [length_sigStructure, hcontext, hheaders, length_encodeCborMajorLenHeader,
    length_encodeCborMajorLenHeader, List.length_nil, sigStructureMaxSize]
  have hthree : Cbor.headLen 3 = 1 := rfl
  have hzero : Cbor.headLen 0 = 1 := rfl
  omega

/-- Such a client signs every payload. -/
theorem PsaCryptoClient.Answers.sign_eq_ok (hc : client.Answers) (hr : m.Reads) (keyId : BitVec 32)
    {payload : Bytes} (h : (Value.bytes payload).encode.length ≤ 512) :
    ∃ signature, (CoseSign1.new (PsaCryptoBackend.new client keyId) {}).sign m
      (Value.bytes payload).encode = .ok signature := by
  have hsigns : (CoseSign1.new (PsaCryptoBackend.new client keyId) {}).Signs payload _ :=
    ⟨_, exactly_of_ok (hc.hash _ _ _), exactly_of_ok (hc.signature _ _ _ _)⟩
  exact ⟨_, (sign_eq_ok_iff hr).mpr ⟨length_sigStructure_le h, hsigns⟩⟩

theorem tokenChunks_of_fits (hm : m.Preferred) (hr : m.Reads) (hc : client.Answers)
    (h : (Value.bytes (claimMap claims).encode).encode.length ≤ 512) :
    ∃ chunks, tokenChunks m client claims keyId = .ok chunks := by
  have hlen := length_encode_bytes (claimMap claims).encode
  have hbuf : (List.replicate 512 (0 : UInt8)).length = 512 := List.length_replicate
  obtain ⟨signature, hsign⟩ := hc.sign_eq_ok hr keyId h
  have hplace := @encodePayloadBstrInPlace_of_fits (claimMap claims).encode
    ((List.replicate 512 0).drop (claimMap claims).encode.length)
    (by rw [List.length_append, List.length_drop, hbuf]; omega) (by omega)
  rw [tokenChunks, encodePayload_of_fits hm (by omega)]
  dsimp only
  rw [hplace]
  dsimp only
  rw [if_neg (by rw [List.length_append]; omega), List.take_left, hsign]
  exact ⟨_, rfl⟩

theorem tokenChunks_of_not_fits (hm : m.Preferred)
    (h : 512 < (Value.bytes (claimMap claims).encode).encode.length) :
    tokenChunks m client claims keyId = .error .bufferTooSmall := by
  have hlen := length_encode_bytes (claimMap claims).encode
  have hbuf : (List.replicate 512 (0 : UInt8)).length = 512 := List.length_replicate
  rw [tokenChunks]
  by_cases hfit : (claimMap claims).encode.length ≤ 512
  · rw [encodePayload_of_fits hm (by omega)]
    dsimp only
    rw [encodePayloadBstrInPlace_of_not_fits
      (by rw [List.length_append, List.length_drop, hbuf]; omega)]
    rfl
  · have hpayload := @encodePayload_of_not_fits m hm claims (List.replicate 512 0) (by omega)
    rcases hp : encodePayload m claims (List.replicate 512 0) with ⟨answer, buf⟩
    rw [hp] at hpayload
    obtain rfl : answer = .error .bufferTooSmall := hpayload
    rfl

/-! ## The token -/

theorem length_claimMap (hm : m.Preferred) (claims : List AttestClaim) :
    (claimMap claims).encode.length = payloadLen claims := by
  rw [← flatten_encodePayloadTo hm, length_encodePayloadTo hm]

variable (keyId) in
/-- The result for every payload and every buffer. -/
theorem encodeToken_fst (hm : m.Preferred) (hr : m.Reads) (hc : client.Answers)
    (claims : List AttestClaim) (token : Bytes) :
    (encodeInitialAttestationToken m client claims token keyId).1 =
      if (Value.bytes (claimMap claims).encode).encode.length ≤ 512 ∧
          (Value.bytes (claimMap claims).encode).encode.length + 73 ≤ token.length then
        .ok ((Value.bytes (claimMap claims).encode).encode.length + 73)
      else .error .bufferTooSmall := by
  rw [encodeToken_eq]
  by_cases hfits : (Value.bytes (claimMap claims).encode).encode.length ≤ 512
  · obtain ⟨chunks, hchunks⟩ := @tokenChunks_of_fits m client claims keyId hm hr hc hfits
    have hlen : chunks.flatten.length
        = (Value.bytes (claimMap claims).encode).encode.length + 73 := by
      rw [(length_tokenChunks hm hchunks).1, length_encode_bytes, length_claimMap hm]
    rw [hchunks]
    dsimp only
    by_cases hroom : chunks.flatten.length ≤ token.length
    · rw [Cursor.run_new_of_fits chunks hroom, if_pos ⟨hfits, hlen ▸ hroom⟩, ← hlen]
    · obtain ⟨enc, hrun⟩ := Cursor.run_new_of_not_fits chunks (not_le.mp hroom)
      rw [hrun, if_neg]
      rintro ⟨-, hle⟩
      exact hroom (hlen.trans_le hle)
  · rw [tokenChunks_of_not_fits hm (not_le.mp hfits), if_neg]
    rintro ⟨hle, -⟩
    exact hfits hle

/-- **A token is encoded iff its payload fits the payload buffer and the token fits the buffer of
the caller.** Its size is the one that is computed. -/
theorem encodeToken_ok_iff (hm : m.Preferred) (hr : m.Reads) (hc : client.Answers)
    (claims : List AttestClaim) (token : Bytes) (keyId : BitVec 32) :
    let len := (claimMap claims).encode.length
    let size := len + Cbor.headLen len + 73
    (∀ n, (encodeInitialAttestationToken m client claims token keyId).1 = .ok n ↔
      len + Cbor.headLen len ≤ 512 ∧ size ≤ token.length ∧ n = size) ∧
    (¬ (len + Cbor.headLen len ≤ 512 ∧ size ≤ token.length) →
      (encodeInitialAttestationToken m client claims token keyId).1 = .error .bufferTooSmall) ∧
    (len + Cbor.headLen len ≤ 512 →
      computeInitialAttestationTokenSize m claims = .ok size ∧
      (sigStructure protectedHeaders.encode [] (claimMap claims).encode).encode.length
        ≤ sigStructureMaxSize) := by
  intro len size
  have hlen : (Value.bytes (claimMap claims).encode).encode.length = len + Cbor.headLen len :=
    length_encode_bytes _
  have hpay : payloadLen claims = len := (length_claimMap hm claims).symm
  have hresult := encodeToken_fst keyId hm hr hc claims token
  rw [hlen] at hresult
  refine ⟨fun n => ?_, fun hnot => ?_, fun hfits => ⟨?_, ?_⟩⟩
  · rw [hresult]
    by_cases hok : len + Cbor.headLen len ≤ 512 ∧ size ≤ token.length
    · rw [if_pos hok, Except.ok.injEq, ← and_assoc, and_iff_right hok]
      exact eq_comm
    · rw [if_neg hok]
      constructor
      · rintro ⟨⟩
      · rintro ⟨hfits, hroom, -⟩
        exact absurd ⟨hfits, hroom⟩ hok
  · rw [hresult, if_neg hnot]
  · rw [computeTokenSize_eq hm (by omega), hpay]
  · exact length_sigStructure_le (hlen.trans_le hfits)

open TestVector in
/-- A token for one claim in a buffer of 100 bytes. -/
theorem encodeToken_ok_iff_clientId :
    (encodeInitialAttestationToken minicbor
      ⟨fun _ _ hash => (.ok 32, hash), fun _ _ _ signature => (.ok 64, signature)⟩
      [⟨.clientId, .signed 1⟩] (List.replicate 100 0) 0x12345678).1 = .ok 79 :=
  ((encodeToken_ok_iff preferred reads ⟨fun _ _ _ => rfl, fun _ _ _ _ => rfl⟩
    [⟨.clientId, .signed 1⟩] (List.replicate 100 0) 0x12345678).1 79).mpr
    ⟨by decide, by decide, by decide⟩

end RuSpe
