import RuSpe.Attest.Service
import RuSpe.Attest.Payload
import RuSpe.Cose.InPlace

set_option autoImplicit false

/-!
# What a token request leaves in its output vector

The encoder writes into the vector of the client while it goes on failing. The closure of the
handler clears what is left of a failure.

* `AttestService.IsToken`: the bytes that the encoder writes to every buffer with room for them;
* `AttestService.tokenClosure`; `TokenOrZeros`: a whole token, or nothing;
* **`tokenOrZeros_tokenClosure`**: what the closure leaves, for every client and every vector;
* **`isToken_message`**: a token is the signed message of its claims.
-/

namespace RuSpe

open Cbor (Bytes Item Value)

variable {m : Minicbor} {client : PsaCryptoClient} {claims : List AttestClaim} {keyId : BitVec 32}

/-! ## The encoder -/

/-- The vector keeps its length. -/
theorem length_encodeToken (token : Bytes) :
    (encodeInitialAttestationToken m client claims token keyId).2.length = token.length := by
  rw [encodeToken_eq]
  cases tokenChunks m client claims keyId with
  | error e => rfl
  | ok chunks =>
    have hlen : _ = token.length := Cursor.length_run chunks (Cursor.new token)
    dsimp only
    rcases hrun : (Cursor.new token).run chunks with ⟨ok, enc⟩
    rw [hrun] at hlen
    cases ok <;> exact hlen

namespace AttestService

variable (self : AttestService)

/-- The encoder writes `t`, and nothing behind it, to every buffer that has room for it. -/
def IsToken (claims : List AttestClaim) (t : Bytes) : Prop :=
  ∀ buf : Bytes, t.length ≤ buf.length →
    encodeInitialAttestationToken self.minicbor self.client claims buf tempKeyId =
      (.ok t.length, t ++ buf.drop t.length)

/-- A run of the encoder that succeeds has written a token. -/
theorem isToken_of_ok {buf out : Bytes} {n : ℕ}
    (h : encodeInitialAttestationToken self.minicbor self.client claims buf tempKeyId
      = (.ok n, out)) :
    ∃ t, self.IsToken claims t ∧ n = t.length ∧ n ≤ buf.length ∧ out = t ++ buf.drop n := by
  rw [encodeToken_eq] at h
  cases hchunks : tokenChunks self.minicbor self.client claims tempKeyId with
  | error e =>
    rw [hchunks] at h
    cases h
  | ok chunks =>
    have htoken : self.IsToken claims chunks.flatten := by
      intro buf' hroom
      rw [encodeToken_eq, hchunks]
      dsimp only
      rw [Cursor.run_new_of_fits chunks hroom]
    rw [hchunks] at h
    dsimp only at h
    by_cases hroom : chunks.flatten.length ≤ buf.length
    · rw [Cursor.run_new_of_fits chunks hroom] at h
      obtain ⟨hn, rfl⟩ := Prod.mk.inj h
      obtain rfl := Except.ok.inj hn
      exact ⟨_, htoken, rfl, hroom, rfl⟩
    · obtain ⟨enc, hrun⟩ := Cursor.run_new_of_not_fits chunks (not_le.mp hroom)
      rw [hrun] at h
      cases h

/-- **A token is the message around the map of its claims**, with a signature by the client. -/
theorem isToken_message (hm : self.minicbor.Preferred) (hr : self.minicbor.Reads) {t : Bytes}
    (h : self.IsToken claims t) :
    let signer := CoseSign1.new (PsaCryptoBackend.new self.client tempKeyId) {}
    ∃ signature, signer.Signs (claimMap claims).encode signature ∧
      t = (signer.message (claimMap claims).encode signature).encode := by
  intro signer
  have hok := h (List.replicate t.length 0) (by rw [List.length_replicate])
  rw [List.drop_replicate, Nat.sub_self, List.replicate_zero, List.append_nil,
    encodeInitialAttestationToken] at hok
  have h512 : (List.replicate 512 (0 : UInt8)).length = 512 := List.length_replicate
  by_cases hpay : (claimMap claims).encode.length ≤ (List.replicate 512 (0 : UInt8)).length
  swap
  · have hrefused := encodePayload_of_not_fits hm (not_le.mp hpay)
    rcases hx : encodePayload self.minicbor claims (List.replicate 512 0) with ⟨r, buf⟩
    rw [hx] at hok hrefused
    obtain rfl : r = .error .bufferTooSmall := hrefused
    cases hok
  rw [encodePayload_of_fits hm hpay] at hok
  dsimp only at hok
  have hbuf : ((claimMap claims).encode ++
      (List.replicate 512 (0 : UInt8)).drop (claimMap claims).encode.length).length = 512 := by
    rw [List.length_append, List.length_drop, h512]
    omega
  by_cases hbstr : (Value.bytes (claimMap claims).encode).encode.length ≤ 512
  swap
  · rw [encodePayloadBstrInPlace_of_not_fits (by omega)] at hok
    cases hok
  rw [encodePayloadBstrInPlace_of_fits (by omega) (by omega)] at hok
  dsimp only at hok
  rw [if_neg (by rw [List.length_append]; omega), List.take_left] at hok
  rcases hx : signer.encodeFromPayloadBstr self.minicbor (Value.bytes (claimMap claims).encode).encode
    (List.replicate t.length 0) with ⟨e | params, out⟩
  · rw [hx] at hok
    cases hok
  obtain ⟨signature, -, hsigns, -, rfl, rfl⟩ :=
    (encodeFromPayloadBstr_eq_ok_iff hm hr).mp hx
  rw [hx] at hok
  dsimp only at hok
  obtain ⟨hlen, hout⟩ := Prod.mk.inj hok
  refine ⟨signature, hsigns, hout.symm.trans ?_⟩
  rw [Except.ok.inj hlen, List.drop_replicate, Nat.sub_self, List.replicate_zero, List.append_nil]

/-! ## The closure -/

/-- The closure of `handle_get_token`: its status, the length it reports, and `outvec` after it. -/
def tokenClosure (challenge : Bytes) (claims : List AttestClaim) (outvec : Bytes) :
    (Except StatusCode Unit × ℕ) × Bytes :=
  match self.initialAttestGetToken challenge claims outvec with
  | (.ok writtenLen, outvec) => ((.ok (), writtenLen), outvec)
  | (.error e, outvec) => ((.error e, 0), zeros outvec)

/-- The handler goes through the closure. -/
theorem handleGetToken_eq {claims : List AttestClaim}
    (h : PlatformBuffers.collect self.platform = .ok claims) (challenge outvec : Bytes) :
    self.handleGetToken (.ok (challenge, outvec)) =
      commit outvec (self.tokenClosure challenge claims) := by
  rw [handleGetToken, h]
  rfl

/-- A vector of `len` bytes holds a whole token of the reported length and zeros behind it, or only
zeros, and an error is returned. -/
inductive TokenOrZeros (claims : List AttestClaim) (len : ℕ) :
    (Except StatusCode Unit × ℕ) × Bytes → Prop
  | token {t : Bytes} (h : self.IsToken claims t) (hle : t.length ≤ len) :
    TokenOrZeros claims len ((.ok (), t.length), t ++ List.replicate (len - t.length) 0)
  | zeros (e : StatusCode) : TokenOrZeros claims len ((.error e, 0), List.replicate len 0)

variable {self}

theorem TokenOrZeros.written_le {len : ℕ} {x : (Except StatusCode Unit × ℕ) × Bytes}
    (h : self.TokenOrZeros claims len x) : x.1.2 ≤ len := by
  cases h with
  | token h hle => exact hle
  | zeros e => exact Nat.zero_le _

theorem TokenOrZeros.length_eq {len : ℕ} {x : (Except StatusCode Unit × ℕ) × Bytes}
    (h : self.TokenOrZeros claims len x) : x.2.length = len := by
  cases h with
  | token h hle =>
    rw [List.length_append, List.length_replicate]
    omega
  | zeros e => exact List.length_replicate

variable (self)

/-- A request is a token with zeros behind it, or an error that has left something. -/
theorem initialAttestGetToken_cases (challenge : Bytes) (claims : List AttestClaim)
    (token : Bytes) :
    (∃ t, self.IsToken (⟨.nonce, .bytes challenge⟩ :: claims) t ∧ t.length ≤ token.length ∧
      self.initialAttestGetToken challenge claims token =
        (.ok t.length, t ++ List.replicate (token.length - t.length) 0)) ∨
    ∃ e out, out.length = token.length ∧
      self.initialAttestGetToken challenge claims token = (.error e, out) := by
  rw [initialAttestGetToken]
  split_ifs with hsize
  · exact .inr ⟨_, token, rfl, rfl⟩
  rw [buildClaims]
  split_ifs with hmany
  · exact .inr ⟨_, token, rfl, rfl⟩
  dsimp only
  have hlen := @length_encodeToken self.minicbor self.client (⟨.nonce, .bytes challenge⟩ :: claims)
    tempKeyId token
  rcases hx : encodeInitialAttestationToken self.minicbor self.client
    (⟨.nonce, .bytes challenge⟩ :: claims) token tempKeyId with ⟨e | n, out⟩
  · rw [hx] at hlen
    exact .inr ⟨e, out, hlen, rfl⟩
  · obtain ⟨t, ht, rfl, hle, rfl⟩ := self.isToken_of_ok hx
    rw [hx] at hlen
    refine .inl ⟨t, ht, hle, ?_⟩
    dsimp only at hlen ⊢
    rw [List.take_left, hlen]

/-- **The closure leaves a whole token, or zeros.** -/
theorem tokenOrZeros_tokenClosure (challenge : Bytes) (claims : List AttestClaim) (outvec : Bytes) :
    self.TokenOrZeros (⟨.nonce, .bytes challenge⟩ :: claims) outvec.length
      (self.tokenClosure challenge claims outvec) := by
  rw [tokenClosure]
  rcases self.initialAttestGetToken_cases challenge claims outvec with
    ⟨t, ht, hle, hx⟩ | ⟨e, out, hlen, hx⟩
  · rw [hx]
    exact .token ht hle
  · rw [hx]
    dsimp only
    rw [AttestService.zeros, hlen]
    exact .zeros e

end AttestService

end RuSpe
