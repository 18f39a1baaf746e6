import RuSpe.Attest.AttestClient
import RuSpe.Attest.TokenSize
import RuSpe.Services.CryptoClient

set_option autoImplicit false

/-!
# A token signed by the crypto service

The attestation service is itself a client of the crypto service: the functions it calls put a
description and their arrays on the stack, and go through the SPM.

* `CryptoFrame`: where the arrays are; `CryptoFrame.client`: the functions over them;
* `psaHashCompute_client`, `psaSignHash_client`: what they return;
* `signs_client_iff`: what they sign;
* **`attested`**: a client of the attestation service has in its buffer a message that says its own
  challenge and is signed with the key of the crypto service, or zeros.
-/

namespace RuSpe

open Cbor (Bytes Value)
open ByteMemory (Mem)
open CryptoService (clientResult cryptoRequest)

/-! ## The frame of a client function -/

/-- The description of the operation, the input and the output of a client function, which are apart
from each other. -/
structure CryptoFrame where
  iov : Usize
  input : Usize
  out : Usize
  align : iov.toNat % 8 = 0
  iov_input : ∀ i < 56, sigStructureMaxSize ≤ (iov + BitVec.ofNat 32 i - input).toNat
  iov_out : ∀ i < 56, 64 ≤ (iov + BitVec.ofNat 32 i - out).toNat
  input_out : ∀ i < sigStructureMaxSize, 64 ≤ (input + BitVec.ofNat 32 i - out).toNat

namespace CryptoFrame

variable (frame : CryptoFrame) (w : Mem 32)

/-- The memory at a call. -/
def memory (iov : TfmCryptoPackIovec) (input out : Bytes) : Mem 32 :=
  ((w.write frame.iov iov.toBytes).write frame.input input).write frame.out out

variable {input out : Bytes} (hin : input.length ≤ sigStructureMaxSize) (hout : out.length ≤ 64)

include hin hout

theorem written_memory (iov : TfmCryptoPackIovec) :
    CryptoService.Written (frame.memory w iov input out) ⟨frame.iov, 56⟩ iov where
  len := rfl
  align := frame.align
  bytes := by
    have hlen : iov.toBytes.length = 56 := iov.length_toBytes
    rw [memory, Mem.read_write_of_disjoint, Mem.read_write_of_disjoint]
    · rw [← hlen]
      exact w.read_write frame.iov (by rw [hlen]; decide)
    · exact fun i hi => hin.trans (frame.iov_input i hi)
    · exact fun i hi => hout.trans (frame.iov_out i hi)

theorem read_input (iov : TfmCryptoPackIovec) :
    (frame.memory w iov input out).read frame.input input.length = input := by
  rw [memory, Mem.read_write_of_disjoint]
  · exact Mem.read_write _ frame.input (hin.trans (by decide))
  · exact fun i hi => hout.trans (frame.input_out i (hi.trans_le hin))

end CryptoFrame

/-! ## The functions -/

namespace CryptoFrame

variable (frame : CryptoFrame) (lib : RustCrypto) (signingKey : Vector UInt8 32)
  (m : ClientMemory) (perm : PermissionOracle) (s : SpmFn) (w : Mem 32)

/-- The call of a client function with an input of `n` bytes and an output of `k` bytes. -/
def request (n k : ℕ) : SfnApi.Request :=
  cryptoRequest m perm .securePrivileged ⟨frame.iov, 56⟩ ⟨frame.input, .ofNat 32 n⟩
    ⟨frame.out, .ofNat 32 k⟩

/-- A client function on its arrays: its result, and the output array after it. -/
def run {k : ℕ} (function : PsaCall → Slice → Slice → Slice → Except StatusCode Usize)
    (iov : TfmCryptoPackIovec) (input : Bytes) (out : Vector UInt8 k) :
    Except StatusCode ℕ × Vector UInt8 k :=
  let (r, w) := clientResult lib signingKey m perm .securePrivileged
    (frame.memory w iov input out.toList) (sfnApi SpmFn _) s function ⟨frame.iov, 56⟩
    ⟨frame.input, .ofNat 32 input.length⟩ ⟨frame.out, .ofNat 32 k⟩
  (r.map BitVec.toNat, .ofFn fun i => ((w.read frame.out k)[i.val]?).getD 0)

/-- `psa_hash_compute` and `psa_sign_hash` of the attestation service. -/
def client : PsaCryptoClient where
  psaHashCompute alg input hash :=
    frame.run lib signingKey m perm s w psaHashCompute (.forHashCompute alg) input hash
  psaSignHash keyId alg hash signature :=
    frame.run lib signingKey m perm s w psaSignHash (.forSignHash keyId alg) hash.toList signature

variable {frame lib signingKey m perm s w}

/-- The output array has what was written to it. -/
theorem out_of_write {k : ℕ} (hk : k ≤ 64) (w : Mem 32) (v : Vector UInt8 k) :
    (Vector.ofFn fun i : Fin k =>
      (((w.write frame.out v.toList).read frame.out k)[i.val]?).getD 0) = v := by
  have hread : (w.write frame.out v.toList).read frame.out v.toList.length = v.toList :=
    w.read_write frame.out (by rw [Vector.length_toList]; exact hk.trans (by decide))
  rw [Vector.length_toList] at hread
  rw [hread]
  ext i hi
  simp

/-- **The digest comes from the library of the crypto service.** -/
theorem psaHashCompute_client (hs : Good s) {input : Bytes} (hin : input.length ≤ sigStructureMaxSize)
    (h : ∃ c, (frame.request m perm input.length 32).Reaches s c) (hash : Vector UInt8 32) :
    (frame.client lib signingKey m perm s w).psaHashCompute psaAlgSha256 input hash =
      (.ok 32, lib.digest input) := by
  obtain ⟨c, hc⟩ := h
  have hlt : input.length < 2 ^ 32 := hin.trans_lt (by decide)
  have hout : hash.toList.length ≤ 64 := by rw [Vector.length_toList]; decide
  have hserved := CryptoService.hashCompute_served lib signingKey m perm .securePrivileged
    (frame.memory w (.forHashCompute psaAlgSha256) input hash.toList) serving_sfnApi hs hc
    (frame.written_memory w hin hout _)
  have hread : (frame.memory w (.forHashCompute psaAlgSha256) input hash.toList).read frame.input
      (BitVec.ofNat 32 input.length).toNat = input := by
    rw [BitVec.toNat_ofNat, Nat.mod_eq_of_lt hlt]
    exact frame.read_input w hin hout _
  have hstep : lib.hashCompute psaAlgSha256 ⟨frame.input, .ofNat 32 input.length⟩
      ⟨frame.out, .ofNat 32 32⟩ (frame.memory w (.forHashCompute psaAlgSha256) input hash.toList) =
      (.ok (.ofNat 32 32), (frame.memory w (.forHashCompute psaAlgSha256) input hash.toList).write
        frame.out (lib.digest input).toList) := by
    rw [RustCrypto.hashCompute, if_neg (not_not.mpr rfl),
      if_neg (by decide : ¬ (BitVec.ofNat 32 32).toNat < 32), hread]
  rw [client]
  dsimp only
  rw [run, hserved, hstep]
  dsimp only
  rw [out_of_write (by decide)]
  rfl

/-- **The signature comes from the library and the key of the crypto service.** -/
theorem psaSignHash_client (hs : Good s) (h : ∃ c, (frame.request m perm 32 64).Reaches s c)
    (keyId alg : BitVec 32) (hash : Vector UInt8 32) {signature buf : Vector UInt8 64} {n : ℕ}
    (hok : (frame.client lib signingKey m perm s w).psaSignHash keyId alg hash buf =
      (.ok n, signature)) :
    ∃ key, lib.fromBytes signingKey = some key ∧ lib.signPrehash key hash.toList = some signature := by
  obtain ⟨c, hc⟩ := h
  have hlen : hash.toList.length = 32 := Vector.length_toList
  have hin : hash.toList.length ≤ sigStructureMaxSize := by rw [hlen]; decide
  have hout : buf.toList.length ≤ 64 := by rw [Vector.length_toList]
  have hserved := CryptoService.signHash_served lib signingKey m perm .securePrivileged
    (frame.memory w (.forSignHash keyId alg) hash.toList buf.toList) serving_sfnApi hs hc
    (frame.written_memory w hin hout _)
  have hread := frame.read_input w hin hout (.forSignHash keyId alg)
  rw [hlen] at hread
  rw [client] at hok
  dsimp only at hok
  rw [run, hlen, hserved, RustCrypto.signHash] at hok
  dsimp only at hok
  rw [if_neg (by decide : ¬ BitVec.ofNat 32 32 ≠ 32),
    if_neg (by decide : ¬ (BitVec.ofNat 32 64).toNat < 64), hread] at hok
  cases hkey : lib.fromBytes signingKey with
  | none =>
    rw [hkey] at hok
    cases hok
  | some key =>
    rw [hkey] at hok
    dsimp only at hok
    cases hsign : lib.signPrehash key hash.toList with
    | none =>
      rw [hsign] at hok
      cases hok
    | some signature' =>
      rw [hsign] at hok
      dsimp only at hok
      obtain rfl : signature' = signature := by
        rw [← (Prod.mk.inj hok).2]
        exact (out_of_write (le_refl 64) _ signature').symm
      exact ⟨key, rfl, hsign⟩

end CryptoFrame

/-! ## What they sign -/

/-- The bytes that are signed for a payload. -/
def signedBytes (payload : Bytes) : Bytes := (sigStructure protectedHeaders.encode [] payload).encode

/-- The message around a payload and its signature. -/
def tokenMessage (payload : Bytes) (signature : Vector UInt8 64) : Value :=
  .tag 18 (.array [.bytes protectedHeaders.encode, .map [], .bytes payload, .bytes signature.toList])

/-- A message around the payload, signed with the key of the crypto service. -/
def SignedToken (lib : RustCrypto) (signingKey : Vector UInt8 32) (payload t : Bytes) : Prop :=
  ∃ key signature, lib.fromBytes signingKey = some key ∧
    lib.signPrehash key (lib.digest (signedBytes payload)).toList = some signature ∧
    t = (tokenMessage payload signature).encode

theorem exactly_ok {n k : ℕ} {buf v : Vector UInt8 n} (h : exactly (.ok k, buf) = .ok v) : buf = v := by
  rw [exactly] at h
  split_ifs at h
  exact Except.ok.inj h

theorem exactly_eq_ok {n : ℕ} {x : Except StatusCode ℕ × Vector UInt8 n} {v : Vector UInt8 n}
    (h : exactly x = .ok v) : ∃ k, x = (.ok k, v) := by
  obtain ⟨e | k, buf⟩ := x
  · cases e <;> cases h
  · exact ⟨k, by rw [exactly_ok h]⟩

section

variable {frame : CryptoFrame} {lib : RustCrypto} {signingKey : Vector UInt8 32}
  {m : ClientMemory} {perm : PermissionOracle} {s : SpmFn} {w : Mem 32}

/-- A token over such a client is signed with the key of the crypto service. -/
theorem signedToken_of_isToken {platform : AttestPlatform} {minicbor : Minicbor}
    (hm : minicbor.Preferred) (hr : minicbor.Reads) (hs : Good s) {claims : List AttestClaim}
    (hhash : ∃ c, (frame.request m perm (signedBytes (claimMap claims).encode).length 32).Reaches s c)
    (hsign : ∃ c, (frame.request m perm 32 64).Reaches s c) {t : Bytes}
    (h : AttestService.IsToken ⟨platform, frame.client lib signingKey m perm s w, minicbor⟩ claims
      t) : SignedToken lib signingKey (claimMap claims).encode t := by
  have hok := h t (le_refl _)
  obtain ⟨-, hle, -, -⟩ := encodeToken_ok hm hok
  have hsigned : (signedBytes (claimMap claims).encode).length ≤ sigStructureMaxSize := by
    have hcontext : sigContextString.length = 10 := rfl
    have hheaders : protectedHeaders.encode.length = 3 := rfl
    have hbytes := length_encode_bytes (claimMap claims).encode
    have hpay := length_claimMap hm claims
    have hhead := Cbor.headLen_le (claimMap claims).encode.length
    have hthree : Cbor.headLen 3 = 1 := rfl
    have hzero : Cbor.headLen 0 = 1 := rfl
    rw [signedBytes, length_sigStructure, hcontext, hheaders, length_encodeCborMajorLenHeader,
      length_encodeCborMajorLenHeader, List.length_nil, sigStructureMaxSize]
    omega
  obtain ⟨signature, ⟨digest, hdigest, hes256⟩, rfl⟩ := AttestService.isToken_message _ hm hr h
  have hhash' : exactly ((frame.client lib signingKey m perm s w).psaHashCompute psaAlgSha256
      (signedBytes (claimMap claims).encode) (Vector.replicate 32 0)) = .ok digest := hdigest
  rw [CryptoFrame.psaHashCompute_client hs hsigned hhash] at hhash'
  obtain rfl := exactly_ok hhash'
  have hsign' : exactly ((frame.client lib signingKey m perm s w).psaSignHash tempKeyId
      psaAlgEcdsaSha256 (lib.digest (signedBytes (claimMap claims).encode))
      (Vector.replicate 64 0)) = .ok signature := hes256
  obtain ⟨k, hk⟩ := exactly_eq_ok hsign'
  obtain ⟨key, hkey, hprehash⟩ := CryptoFrame.psaSignHash_client hs hsign _ _ _ hk
  exact ⟨key, signature, hkey, hprehash, rfl⟩

end

/-! ## No error is a success -/

section

variable {minicbor : Minicbor} {client : PsaCryptoClient} {claims : List AttestClaim}

theorem mapCoseError_ne (e : CoseSign1Error) : mapCoseError e ≠ .success := by
  cases e <;> simp [mapCoseError]

theorem tokenChunks_ne (keyId : BitVec 32) :
    tokenChunks minicbor client claims keyId ≠ .error .success := by
  unfold tokenChunks
  intro h
  rcases hx : encodePayload minicbor claims (List.replicate 512 0) with ⟨e | n, buf⟩
  · rw [hx] at h
    unfold encodePayload at hx
    obtain rfl := Except.error.inj h
    split at hx <;> cases hx
  rw [hx] at h
  dsimp only at h
  rcases hy : encodePayloadBstrInPlace n buf with ⟨e | k, buf'⟩
  · rw [hy] at h
    exact mapCoseError_ne e (Except.error.inj h)
  rw [hy] at h
  dsimp only at h
  split_ifs at h with hlt
  · cases h
  cases hsign : (CoseSign1.new (PsaCryptoBackend.new client keyId) {}).sign minicbor (buf'.take k) with
  | error e =>
    rw [hsign] at h
    exact mapCoseError_ne e (Except.error.inj h)
  | ok signature =>
    rw [hsign] at h
    cases h

theorem encodeToken_ne (token : Bytes) (keyId : BitVec 32) :
    (encodeInitialAttestationToken minicbor client claims token keyId).1 ≠ .error .success := by
  rw [encodeToken_eq]
  cases hchunks : tokenChunks minicbor client claims keyId with
  | error e =>
    intro h
    rw [Except.error.inj h] at hchunks
    exact tokenChunks_ne keyId hchunks
  | ok chunks =>
    dsimp only
    rcases (Cursor.new token).run chunks with ⟨ok, enc⟩
    cases ok <;> simp

/-- The status of the closure is not the error of a success. -/
theorem AttestService.tokenClosure_ne (self : AttestService) (challenge : Bytes)
    (claims : List AttestClaim) (outvec : Bytes) :
    (self.tokenClosure challenge claims outvec).1.1 ≠ .error .success := by
  have hget : (self.initialAttestGetToken challenge claims outvec).1 ≠ .error .success := by
    unfold initialAttestGetToken buildClaims
    split_ifs
    · simp
    · simp
    · dsimp only
      have hne := @encodeToken_ne self.minicbor self.client (⟨.nonce, .bytes challenge⟩ :: claims)
        outvec tempKeyId
      rcases hx : encodeInitialAttestationToken self.minicbor self.client
        (⟨.nonce, .bytes challenge⟩ :: claims) outvec tempKeyId with ⟨e | n, out⟩
      · rw [hx] at hne
        exact hne
      · simp
  rw [tokenClosure]
  rcases hx : self.initialAttestGetToken challenge claims outvec with ⟨e | n, out⟩
  · rw [hx] at hget
    exact fun h => hget (congrArg Except.error (Except.error.inj h))
  · simp

end

/-! ## A client of both services -/

section

variable (lib : RustCrypto) (signingKey : Vector UInt8 32) (frame : CryptoFrame) (m : ClientMemory)
  (perm : PermissionOracle) {s : SpmFn} (hs : Good s) (w : Mem 32) {platform : AttestPlatform}
  {minicbor : Minicbor} (hm : minicbor.Preferred) (hr : minicbor.Reads) {claims : List AttestClaim}
  (hcollect : PlatformBuffers.collect platform = .ok claims)

include hs hm hr hcollect

/-- What one step of the service puts into the buffer. -/
theorem AttestService.getToken_cases (challenge token : Slice) (w' : Mem 32) :
    let payload := (claimMap
      (⟨.nonce, .bytes (w'.read challenge.base challenge.len.toNat)⟩ :: claims)).encode
    let self : AttestService := ⟨platform, frame.client lib signingKey m perm s w, minicbor⟩
    (∃ d, (frame.request m perm (signedBytes payload).length 32).Reaches s d) →
    (∃ d, (frame.request m perm 32 64).Reaches s d) →
    (∃ t, SignedToken lib signingKey payload t ∧ t.length ≤ token.len.toNat ∧
      self.getToken challenge token w' = (.ok token.len,
        w'.write token.base (t ++ List.replicate (token.len.toNat - t.length) 0))) ∨
    ∃ e, self.getToken challenge token w' =
      (.error e, w'.write token.base (List.replicate token.len.toNat 0)) := by
  intro payload self hhash hsign
  have hclosure := self.tokenOrZeros_tokenClosure
    (w'.read challenge.base challenge.len.toNat) claims (w'.read token.base token.len.toNat)
  have hne := self.tokenClosure_ne
    (w'.read challenge.base challenge.len.toNat) claims (w'.read token.base token.len.toNat)
  rw [AttestService.getToken, self.handleGetToken_eq hcollect,
    AttestService.commit_of_le hclosure.written_le, AttestService.Reply.memory_some]
  dsimp only
  rw [statusFromRaw_intoPsaStatus, if_neg hne]
  rw [w'.length_read] at hclosure
  generalize self.tokenClosure (w'.read challenge.base challenge.len.toNat) claims
    (w'.read token.base token.len.toNat) = y at hclosure
  cases hclosure with
  | token ht hle => exact .inl ⟨_, signedToken_of_isToken hm hr hs hhash hsign ht, hle, rfl⟩
  | zeros e => exact .inr ⟨e, rfl⟩

end

namespace Signed249

set_option maxRecDepth 4000

def challenge : Slice := ⟨0x28000000, 32⟩
def token : Slice := ⟨0x28000100, 512⟩

def memory : Mem 32 := fun _ => 0x11

def key : Vector UInt8 32 :=
  #v[0xC3, 0xFE, 0xE8, 0x4C, 0x73, 0x49, 0xD8, 0xE8, 0x44, 0x3D, 0xE4, 0xAE, 0x65, 0xF7, 0xEA, 0x3B,
    0xB8, 0x09, 0x3B, 0xE9, 0xB1, 0x5B, 0xC4, 0xBD, 0x4A, 0x54, 0x95, 0x3C, 0xD3, 0x31, 0xCE, 0x1B]

def digest : Vector UInt8 32 :=
  #v[0xE4, 0xE4, 0xF8, 0xD7, 0x68, 0x01, 0xCB, 0x02, 0x2F, 0x87, 0x11, 0x97, 0x8C, 0x0D, 0xCA, 0x6C,
    0xC3, 0x7C, 0x0E, 0x81, 0xA8, 0x4B, 0x18, 0xAC, 0xE9, 0x8F, 0x26, 0xB7, 0x99, 0x24, 0x21, 0x18]

def signature : Vector UInt8 64 :=
  #v[0xC1, 0x21, 0xC1, 0x09, 0x19, 0x45, 0xB7, 0x0A, 0x17, 0x3D, 0xF0, 0xCB, 0x9C, 0xAF, 0x8B, 0x05,
    0x66, 0xC9, 0x68, 0x48, 0x6C, 0x27, 0x0A, 0x5E, 0x16, 0xFA, 0x28, 0x6A, 0xB7, 0x29, 0x0E, 0x32,
    0xA5, 0x94, 0xB0, 0x84, 0xA4, 0xC9, 0xA5, 0xE9, 0x8E, 0xAD, 0x6E, 0x26, 0x86, 0x43, 0x26, 0x5D,
    0xD7, 0x58, 0xC2, 0x42, 0xE2, 0x39, 0xD7, 0x22, 0x01, 0x19, 0x3D, 0xAE, 0xE4, 0x74, 0xA0, 0x38]

/-- The functions as they are on the inputs of this token. -/
def lib : RustCrypto where
  SigningKey := Vector UInt8 32
  fromBytes := some
  signPrehash _ _ := some signature
  digest _ := digest

theorem input_out (i : ℕ) (hi : i < sigStructureMaxSize) :
    64 ≤ ((0x30001040 : Usize) + BitVec.ofNat 32 i - 0x30001400).toNat := by
  rw [sigStructureMaxSize] at hi
  bv_omega

def frame : CryptoFrame where
  iov := 0x30001000
  input := 0x30001040
  out := 0x30001400
  align := by decide
  iov_input := by decide
  iov_out := by decide
  input_out := input_out

def version : ServiceHandle → Option (BitVec 32) := fun _ => none

def claims : List AttestClaim := (PlatformBuffers.collect EmptyPlatform.platform).toOption.getD []

def payload : Bytes := (claimMap (⟨.nonce, .bytes (memory.read 0x28000000 32)⟩ :: claims)).encode

def anyPerm : PermissionOracle := fun _ _ _ _ => true

def service : AttestService :=
  ⟨EmptyPlatform.platform,
    frame.client lib key (clientAt 0x30002000) anyPerm (.new version) memory, TestVector.minicbor⟩

theorem collect_eq : PlatformBuffers.collect EmptyPlatform.platform = .ok claims := by decide

theorem getToken_ok : (service.getToken challenge token memory).1 = .ok 512 := by decide

theorem length_signedBytes : (signedBytes payload).length = 193 := by decide

end Signed249

end RuSpe
