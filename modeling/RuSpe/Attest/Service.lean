import RuSpe.Attest.Token

set_option autoImplicit false

/-!
# The attestation service

The two requests of the service: a token for a challenge, and the size such a token will have.

* `AttestPlatform`, `parseBootData`, `PlatformBuffers.collect`;
* `AttestService`, `initialAttestGetToken`, `initialAttestGetTokenSize`;
* `handleGetToken`, `handleGetTokenSize`: the handlers, over the slices the SPM gives them;
* **`tokenSize_lt_token`**: the size that is reported is too small.
-/

namespace RuSpe

open Cbor (Bytes)

/-- `AttestPlatform`. A callback that fills a buffer gets it and returns it. -/
structure AttestPlatform where
  securityLifecycle : Except StatusCode (BitVec 32)
  verificationService : Vector UInt8 64 → Except StatusCode ℕ × Vector UInt8 64
  profileDefinition : Vector UInt8 64 → Except StatusCode ℕ × Vector UInt8 64
  bootSeed : Vector UInt8 32 → Except StatusCode Unit × Vector UInt8 32
  implementationId : Vector UInt8 32 → Except StatusCode Unit × Vector UInt8 32
  instanceId : Vector UInt8 33 → Except StatusCode Unit × Vector UInt8 33
  certRef : Vector UInt8 19 → Except StatusCode ℕ × Vector UInt8 19
  bootRecord : Option Bytes

/-! ## The boot record -/

/-- A number in little-endian order. -/
def fromLeBytes (b : Bytes) : ℕ := b.foldr (fun x n => x.toNat + 256 * n) 0

/-- The last `k` bytes of `n`, the least significant one first. -/
def toLeBytes : ℕ → ℕ → Bytes
  | 0, _ => []
  | k + 1, n => UInt8.ofNat n :: toLeBytes k (n / 256)

/-- `data.get(a..)`. -/
def getFrom (data : Bytes) (a : ℕ) : Option Bytes :=
  if a ≤ data.length then some (data.drop a) else none

/-- `data.get(a..b)`. -/
def getRange (data : Bytes) (a b : ℕ) : Option Bytes :=
  if a ≤ b ∧ b ≤ data.length then some ((data.take b).drop a) else none

/-- `get_u16_le`. -/
def getU16Le (data : Bytes) : Option ℕ := (getRange data 0 2).map fromLeBytes

def sharedDataTlvInfoMagic : ℕ := 0x2016

def iasMeasureValueType : ℕ := (0x1 <<< 12) ||| 0x08

def iasSignerIdType : ℕ := (0x1 <<< 12) ||| 0x01

/-- The loop of `parse_boot_data` from `offset` on. -/
def parseTlvs (data : Bytes) (totLen offset : ℕ) (measureVal signerId : Option Bytes) :
    Option (Option Bytes × Option Bytes) :=
  if h : offset + 4 ≤ totLen then
    (getFrom data offset).bind getU16Le |>.bind fun tlvType =>
      (getFrom data (offset + 2)).bind getU16Le |>.bind fun tlvLen =>
        (getRange data (offset + 4) (offset + 4 + tlvLen)).bind fun payload =>
          parseTlvs data totLen (offset + 4 + tlvLen)
            (if tlvType = iasMeasureValueType then some payload else measureVal)
            (if tlvType = iasMeasureValueType then signerId
              else if tlvType = iasSignerIdType then some payload else signerId)
  else some (measureVal, signerId)
termination_by totLen - offset

/-- `parse_boot_data`. -/
def parseBootData (data : Bytes) : Option SwComponent := do
  let magic ← getU16Le data
  let totLen ← (getFrom data 2).bind getU16Le
  if magic ≠ sharedDataTlvInfoMagic ∨ totLen > data.length ∨ totLen < 4 then none
  else
    let (measureVal, signerId) ← parseTlvs data totLen 4 none none
    let measurementValue ← measureVal
    let signerId ← signerId
    some ⟨none, measurementValue, signerId⟩

/-! ## Claims of the platform -/

/-- `parse_utf8_claim`. -/
def parseUtf8Claim {n : ℕ} (buf : Vector UInt8 n) (len : ℕ) : Except StatusCode String :=
  match getRange buf.toList 0 len with
  | none => .error .invalidArgument
  | some text =>
    match String.fromUTF8? ⟨text.toArray⟩ with
    | none => .error .invalidArgument
    | some s => .ok s

/-- A callback on a zeroed buffer, and `?` on its result. -/
def collectWith {n : ℕ} {ρ : Type} (callback : Vector UInt8 n → Except StatusCode ρ × Vector UInt8 n) :
    Except StatusCode (ρ × Vector UInt8 n) :=
  match callback (Vector.replicate n 0) with
  | (.error e, _) => .error e
  | (.ok r, buf) => .ok (r, buf)

/-- `boot_record().and_then(parse_boot_data)`, as a slice. -/
def AttestPlatform.swComponents (platform : AttestPlatform) : List SwComponent :=
  (platform.bootRecord.bind parseBootData).toList

/-- `PlatformBuffers::collect`. -/
def PlatformBuffers.collect (platform : AttestPlatform) : Except StatusCode (List AttestClaim) := do
  let ((), bootSeed) ← collectWith platform.bootSeed
  let ((), implId) ← collectWith platform.implementationId
  let ((), instanceId) ← collectWith platform.instanceId
  let secLc ← platform.securityLifecycle
  let (profLen, profile) ← collectWith platform.profileDefinition
  let profStr ← parseUtf8Claim profile profLen
  let (verifLen, verification) ← collectWith platform.verificationService
  let verifStr ← parseUtf8Claim verification verifLen
  let (certLen, certRef) ← collectWith platform.certRef
  let certStr ← parseUtf8Claim certRef certLen
  return [⟨.instanceId, .bytes instanceId.toList⟩, ⟨.profileDefinition, .text profStr⟩,
    ⟨.clientId, .signed 1⟩, ⟨.securityLifecycle, .unsigned (secLc.setWidth 64)⟩,
    ⟨.bootSeed, .bytes bootSeed.toList⟩, ⟨.swComponents, .swComponents platform.swComponents⟩,
    ⟨.certificationReference, .text certStr⟩, ⟨.implementationId, .bytes implId.toList⟩,
    ⟨.verificationService, .text verifStr⟩]

/-! ## The service -/

def maxTotalClaims : ℕ := 16

def tempKeyId : BitVec 32 := 0x12345678

/-- `AttestService`, with what its crypto client and `minicbor` do. -/
structure AttestService where
  platform : AttestPlatform
  client : PsaCryptoClient
  minicbor : Minicbor

namespace AttestService

/-- `challenge_size_is_supported`. -/
def challengeSizeIsSupported (challengeSize : ℕ) : Bool :=
  challengeSize = 32 || challengeSize = 48 || challengeSize = 64

/-- `build_claims`. -/
def buildClaims (challenge : Bytes) (additionalClaims : List AttestClaim) :
    Except StatusCode (List AttestClaim) :=
  if additionalClaims.length + 1 > maxTotalClaims then .error .invalidArgument
  else .ok (⟨.nonce, .bytes challenge⟩ :: additionalClaims)

variable (self : AttestService)

/-- `initial_attest_get_token`: its result, and `token` after it. -/
def initialAttestGetToken (challenge : Bytes) (additionalClaims : List AttestClaim) (token : Bytes) :
    Except StatusCode ℕ × Bytes :=
  if challengeSizeIsSupported challenge.length = false then (.error .invalidArgument, token)
  else
    match buildClaims challenge additionalClaims with
    | .error e => (.error e, token)
    | .ok claims =>
      match encodeInitialAttestationToken self.minicbor self.client claims token tempKeyId with
      | (.error e, token) => (.error e, token)
      | (.ok encodedLen, token) =>
        (.ok encodedLen, token.take encodedLen ++ List.replicate (token.length - encodedLen) 0)

/-- `initial_attest_get_token_size`. -/
def initialAttestGetTokenSize (challengeSize : ℕ) (additionalClaims : List AttestClaim) :
    Except StatusCode ℕ :=
  if challengeSizeIsSupported challengeSize = false then .error .invalidArgument
  else
    match getRange (List.replicate 64 0) 0 challengeSize with
    | none => .error .invalidArgument
    | some nonceSlice =>
      match buildClaims nonceSlice additionalClaims with
      | .error e => .error e
      | .ok claims => computeInitialAttestationTokenSize self.minicbor claims

/-! ## The handlers -/

/-- The end of a request: the status, the output vector if it was accessed, and the number of bytes
committed to it. -/
structure Reply where
  result : Except StatusCode Unit
  outvec : Option Bytes
  written : ℕ

/-- The output vector goes through a closure, and what the closure wrote is committed. -/
def commit (outvec : Bytes) (f : Bytes → (Except StatusCode Unit × ℕ) × Bytes) : Reply :=
  let ((r, written), out) := f outvec
  if written > outvec.length then ⟨.error .programmerError, some out, 0⟩ else ⟨r, some out, written⟩

/-- `outvec.fill(0)`. -/
def zeros (outvec : Bytes) : Bytes := List.replicate outvec.length 0

/-- `handle_get_token`. `vecs` is what `access_invec_outvec` gives to its closure. -/
def handleGetToken (vecs : Except StatusCode (Bytes × Bytes)) : Reply :=
  match PlatformBuffers.collect self.platform with
  | .error e => ⟨.error e, none, 0⟩
  | .ok claims =>
    match vecs with
    | .error e => ⟨.error e, none, 0⟩
    | .ok (challenge, outvec) =>
      commit outvec fun outvec =>
        match self.initialAttestGetToken challenge claims outvec with
        | (.ok writtenLen, outvec) => ((.ok (), writtenLen), outvec)
        | (.error e, outvec) => ((.error e, 0), zeros outvec)

/-- `size_of::<usize>()`. -/
def sizeOfUsize : ℕ := 4

/-- The closure that reads the size of the challenge. -/
def readChallengeSize (buf : Bytes) : Except StatusCode ℕ :=
  match getRange buf 0 sizeOfUsize with
  | none => .error .invalidArgument
  | some bytes => .ok (fromLeBytes bytes)

/-- The body of `handle_get_token_size` up to the output vector. -/
def tokenSizeFor (invec : Except StatusCode Bytes) : Except StatusCode ℕ := do
  let buf ← invec
  let challengeSize ← readChallengeSize buf
  let ((), bootSeed) ← collectWith self.platform.bootSeed
  self.initialAttestGetTokenSize challengeSize [⟨.bootSeed, .bytes bootSeed.toList⟩,
    ⟨.swComponents, .swComponents self.platform.swComponents⟩]

/-- `handle_get_token_size`. `invec` and `outvec` are what the two accesses give to their
closures. -/
def handleGetTokenSize (invec outvec : Except StatusCode Bytes) : Reply :=
  match self.tokenSizeFor invec, outvec with
  | .error e, _ => ⟨.error e, none, 0⟩
  | .ok _, .error e => ⟨.error e, none, 0⟩
  | .ok tokenSize, .ok outvec =>
    let tokenSizeBytes := toLeBytes sizeOfUsize tokenSize
    commit outvec fun outvec =>
      if outvec.length < tokenSizeBytes.length then ((.error .bufferTooSmall, 0), zeros outvec)
      else ((.ok (), tokenSizeBytes.length), copyAt outvec 0 tokenSizeBytes)

/-- `has_exactly_one_iovec`. -/
def hasExactlyOneIovec (msg : PsaMsg) : Bool :=
  msg.inSize[0].asOption.isSome && msg.outSize[0].asOption.isSome &&
    msg.inSize.toList.tail.all (fun size => !size.isSome) &&
    msg.outSize.toList.tail.all (fun size => !size.isSome)

/-- `Service::call`. -/
def call (msg : PsaMsg) (vecs : Except StatusCode (Bytes × Bytes))
    (invec outvec : Except StatusCode Bytes) : Reply :=
  if hasExactlyOneIovec msg = false then ⟨.error .invalidArgument, none, 0⟩
  else if msg.msgType = 1001 then self.handleGetToken vecs
  else if msg.msgType = 1002 then self.handleGetTokenSize invec outvec
  else ⟨.error .notSupported, none, 0⟩

/-! ## What a successful request has computed -/

variable {self} {challenge outvec : Bytes}

theorem collect_ok {platform : AttestPlatform} {claims : List AttestClaim}
    (h : PlatformBuffers.collect platform = .ok claims) :
    ∃ (seed : Vector UInt8 32) (c₁ c₂ c₃ c₄ c₅ c₆ c₇ : AttestClaim),
      collectWith platform.bootSeed = .ok ((), seed) ∧
      claims = [c₁, c₂, c₃, c₄, ⟨.bootSeed, .bytes seed.toList⟩,
        ⟨.swComponents, .swComponents platform.swComponents⟩, c₅, c₆, c₇] := by
  obtain ⟨⟨⟨⟩, seed⟩, hseed, h⟩ := bind_eq_ok h
  obtain ⟨⟨⟨⟩, implId⟩, -, h⟩ := bind_eq_ok h
  obtain ⟨⟨⟨⟩, instanceId⟩, -, h⟩ := bind_eq_ok h
  obtain ⟨secLc, -, h⟩ := bind_eq_ok h
  obtain ⟨⟨profLen, profile⟩, -, h⟩ := bind_eq_ok h
  obtain ⟨profStr, -, h⟩ := bind_eq_ok h
  obtain ⟨⟨verifLen, verification⟩, -, h⟩ := bind_eq_ok h
  obtain ⟨verifStr, -, h⟩ := bind_eq_ok h
  obtain ⟨⟨certLen, certRef⟩, -, h⟩ := bind_eq_ok h
  obtain ⟨certStr, -, h⟩ := bind_eq_ok h
  exact ⟨seed, _, _, _, _, _, _, _, hseed, (Except.ok.inj h).symm⟩

theorem getToken_ok {claims : List AttestClaim} {token token' : Bytes} {n : ℕ}
    (h : self.initialAttestGetToken challenge claims token = (.ok n, token')) :
    challengeSizeIsSupported challenge.length = true ∧ claims.length + 1 ≤ maxTotalClaims ∧
      ∃ token₁, encodeInitialAttestationToken self.minicbor self.client
        (⟨.nonce, .bytes challenge⟩ :: claims) token tempKeyId = (.ok n, token₁) := by
  rw [initialAttestGetToken] at h
  split_ifs at h with hs
  · cases h
  rw [buildClaims] at h
  split_ifs at h with hl
  · cases h
  dsimp only at h
  rcases he : encodeInitialAttestationToken self.minicbor self.client
    (⟨.nonce, .bytes challenge⟩ :: claims) token tempKeyId with ⟨e | k, token₁⟩
  · rw [he] at h
    cases h
  · rw [he] at h
    obtain rfl := Except.ok.inj (Prod.mk.inj h).1
    exact ⟨Bool.eq_true_of_not_eq_false hs, not_lt.mp hl, token₁, rfl⟩

/-- A token that does not fit. -/
theorem getToken_of_short (hm : self.minicbor.Preferred) {claims : List AttestClaim}
    {token token' short : Bytes} {n : ℕ}
    (h : self.initialAttestGetToken challenge claims token = (.ok n, token'))
    (hs : short.length < n) :
    (self.initialAttestGetToken challenge claims short).1 = .error .bufferTooSmall := by
  obtain ⟨hsize, hlen, token₁, he⟩ := getToken_ok h
  have hshort := encodeToken_of_short hm he hs
  rw [initialAttestGetToken, if_neg (by rw [hsize]; exact Bool.noConfusion), buildClaims,
    if_neg (not_lt.mpr hlen)]
  dsimp only
  rcases hr : encodeInitialAttestationToken self.minicbor self.client
    (⟨.nonce, .bytes challenge⟩ :: claims) short tempKeyId with ⟨r, out⟩
  rw [hr] at hshort
  obtain rfl : r = .error .bufferTooSmall := hshort
  rfl

theorem getTokenSize_eq (hm : self.minicbor.Preferred) {challengeSize : ℕ}
    {claims : List AttestClaim} (hs : challengeSizeIsSupported challengeSize = true)
    (hl : claims.length + 1 ≤ maxTotalClaims)
    (hp : payloadLen (⟨.nonce, .bytes (List.replicate challengeSize 0)⟩ :: claims) ≤ 512) :
    self.initialAttestGetTokenSize challengeSize claims =
      .ok (payloadLen (⟨.nonce, .bytes (List.replicate challengeSize 0)⟩ :: claims) +
        Cbor.headLen (payloadLen (⟨.nonce, .bytes (List.replicate challengeSize 0)⟩ :: claims)) +
          73) := by
  have hle : challengeSize ≤ 64 := by
    simp only [challengeSizeIsSupported, Bool.or_eq_true, decide_eq_true_eq] at hs
    omega
  have hnonce : getRange (List.replicate 64 (0 : UInt8)) 0 challengeSize =
      some (List.replicate challengeSize 0) := by
    rw [getRange, if_pos ⟨Nat.zero_le _, by rwa [List.length_replicate]⟩, List.drop_zero,
      List.take_replicate, min_eq_left hle]
  rw [initialAttestGetTokenSize, if_neg (by rw [hs]; exact Bool.noConfusion), hnonce]
  dsimp only
  rw [buildClaims, if_neg (not_lt.mpr hl)]
  exact computeTokenSize_eq hm (by omega)

/-! ## The reported size -/

theorem fromLeBytes_toLeBytes (k n : ℕ) : fromLeBytes (toLeBytes k n) = n % 256 ^ k := by
  induction k generalizing n with
  | zero => simp [toLeBytes, fromLeBytes, Nat.mod_one]
  | succ k ih =>
    have hcons : fromLeBytes (toLeBytes (k + 1) n) =
        (UInt8.ofNat n).toNat + 256 * fromLeBytes (toLeBytes k (n / 256)) := rfl
    have hmod : n % (256 * 256 ^ k) = n % 256 + 256 * (n / 256 % 256 ^ k) := Nat.mod_mul
    rw [hcons, ih, UInt8.toNat_ofNat', show 256 ^ (k + 1) = 256 * 256 ^ k from Nat.pow_succ', hmod]

theorem length_toLeBytes (k n : ℕ) : (toLeBytes k n).length = k := by
  induction k generalizing n with
  | zero => rfl
  | succ k ih => rw [toLeBytes, List.length_cons, ih]

/-- The reply to a size request that reports `n`. -/
def reports (sizeVec : Bytes) (n : ℕ) : Reply :=
  ⟨.ok (), some (copyAt sizeVec 0 (toLeBytes sizeOfUsize n)), sizeOfUsize⟩

theorem reports_inj {sizeVec : Bytes} {k n : ℕ} (hk : k < 2 ^ 32) (hn : n < 2 ^ 32)
    (h : reports sizeVec k = reports sizeVec n) : k = n := by
  have hb : toLeBytes sizeOfUsize k = toLeBytes sizeOfUsize n := by
    have hout := Option.some.inj (congrArg Reply.outvec h)
    rw [copyAt, copyAt, length_toLeBytes, length_toLeBytes] at hout
    simpa using hout
  have := congrArg fromLeBytes hb
  rw [fromLeBytes_toLeBytes, fromLeBytes_toLeBytes, sizeOfUsize] at this
  omega

/-- A claim list that lacks some of the claims of another encodes shorter. -/
theorem payloadLen_lt (c₁ c₂ c₃ c₄ b s c₅ c₆ c₇ : AttestClaim) (challenge : Bytes) :
    payloadLen [⟨.nonce, .bytes (List.replicate challenge.length 0)⟩, b, s] <
      payloadLen [⟨.nonce, .bytes challenge⟩, c₁, c₂, c₃, c₄, b, s, c₅, c₆, c₇] := by
  have hn : claimLen ⟨.nonce, .bytes (List.replicate challenge.length 0)⟩ =
      claimLen ⟨.nonce, .bytes challenge⟩ := by
    simp [claimLen, claimValueItems, itemsLen, Cbor.Item.size]
  have h3 : Cbor.headLen 3 = 1 := rfl
  have h10 : Cbor.headLen 10 = 1 := rfl
  have := claimLen_pos c₁
  simp only [payloadLen_eq, List.length_cons, List.length_nil, List.map_cons, List.map_nil,
    List.sum_cons, List.sum_nil, hn, Nat.zero_add, Nat.reduceAdd, h3, h10]
  omega

/-- A token request that succeeded. -/
theorem handleGetToken_ok (hm : self.minicbor.Preferred)
    (h : (self.handleGetToken (.ok (challenge, outvec))).result = .ok ()) :
    ∃ claims n out, PlatformBuffers.collect self.platform = .ok claims ∧
      self.initialAttestGetToken challenge claims outvec = (.ok n, out) ∧
      (self.handleGetToken (.ok (challenge, outvec))).written = n := by
  rw [handleGetToken] at h ⊢
  cases hc : PlatformBuffers.collect self.platform with
  | error e =>
    rw [hc] at h
    cases h
  | ok claims =>
    rw [hc] at h
    dsimp only [commit] at h ⊢
    rcases hg : self.initialAttestGetToken challenge claims outvec with ⟨e | n, out⟩
    · rw [hg] at h
      dsimp only at h
      split_ifs at h
    · obtain ⟨-, -, token₁, he⟩ := getToken_ok hg
      obtain ⟨-, -, hle, -⟩ := encodeToken_ok hm he
      refine ⟨claims, n, out, rfl, hg, ?_⟩
      dsimp only
      rw [if_neg (by omega)]

theorem handleGetToken_error {claims : List AttestClaim} {e : StatusCode}
    (hc : PlatformBuffers.collect self.platform = .ok claims)
    (h : (self.initialAttestGetToken challenge claims outvec).1 = .error e) :
    (self.handleGetToken (.ok (challenge, outvec))).result = .error e := by
  rw [handleGetToken, hc]
  dsimp only [commit]
  rcases hg : self.initialAttestGetToken challenge claims outvec with ⟨r, out⟩
  rw [hg] at h
  obtain rfl : r = .error e := h
  dsimp only
  rw [if_neg (Nat.not_lt_zero _)]

/-- What the size handler computes for a challenge of supported size. -/
theorem handleGetTokenSize_ok {seed : Vector UInt8 32} {k : ℕ} {sizeVec : Bytes}
    (hseed : collectWith self.platform.bootSeed = .ok ((), seed))
    (hlen : challenge.length < 2 ^ 32) (hs : sizeOfUsize ≤ sizeVec.length)
    (hk : self.initialAttestGetTokenSize challenge.length [⟨.bootSeed, .bytes seed.toList⟩,
      ⟨.swComponents, .swComponents self.platform.swComponents⟩] = .ok k) :
    self.handleGetTokenSize (.ok (toLeBytes sizeOfUsize challenge.length)) (.ok sizeVec) =
      reports sizeVec k := by
  have hget : getRange (toLeBytes sizeOfUsize challenge.length) 0 sizeOfUsize =
      some (toLeBytes sizeOfUsize challenge.length) := by
    rw [getRange, length_toLeBytes, if_pos ⟨Nat.zero_le _, le_rfl⟩, List.drop_zero,
      List.take_of_length_le (length_toLeBytes _ _).le]
  have hval : fromLeBytes (toLeBytes sizeOfUsize challenge.length) = challenge.length := by
    rw [fromLeBytes_toLeBytes, sizeOfUsize]
    omega
  have hsize : self.tokenSizeFor (.ok (toLeBytes sizeOfUsize challenge.length)) = .ok k := by
    rw [tokenSizeFor, ok_bind, readChallengeSize, hget]
    dsimp only
    rw [ok_bind, hval, hseed, ok_bind]
    exact hk
  simp only [handleGetTokenSize, hsize]
  rw [commit, length_toLeBytes, if_neg (not_lt.mpr hs)]
  dsimp only
  rw [if_neg (not_lt.mpr hs), reports]

/-- **The size that is reported is smaller than the token**, and a client that allocates it is
refused. -/
theorem tokenSize_lt_token (hm : self.minicbor.Preferred) {sizeVec : Bytes}
    (h : (self.handleGetToken (.ok (challenge, outvec))).result = .ok ())
    (hs : sizeOfUsize ≤ sizeVec.length) :
    (self.handleGetToken (.ok (challenge, outvec))).written < 2 ^ 32 ∧
    ∃ k < (self.handleGetToken (.ok (challenge, outvec))).written,
      self.handleGetTokenSize (.ok (toLeBytes sizeOfUsize challenge.length)) (.ok sizeVec) =
        reports sizeVec k ∧
      ∀ buf : Bytes, buf.length = k →
        (self.handleGetToken (.ok (challenge, buf))).result = .error .bufferTooSmall := by
  obtain ⟨claims, n, out, hc, hg, hn⟩ := handleGetToken_ok hm h
  obtain ⟨hsize, -, token₁, he⟩ := getToken_ok hg
  obtain ⟨hlen, hle, -⟩ := encodeToken_ok hm he
  obtain ⟨seed, c₁, c₂, c₃, c₄, c₅, c₆, c₇, hseed, rfl⟩ := collect_ok hc
  have hlt := payloadLen_lt c₁ c₂ c₃ c₄ ⟨.bootSeed, .bytes seed.toList⟩
    ⟨.swComponents, .swComponents self.platform.swComponents⟩ c₅ c₆ c₇ challenge
  have hhead := Cbor.headLen_mono hlt.le
  have hl : [AttestClaim.mk .bootSeed (.bytes seed.toList),
      ⟨.swComponents, .swComponents self.platform.swComponents⟩].length + 1 ≤ maxTotalClaims :=
    show 3 ≤ 16 by decide
  have hk := getTokenSize_eq hm hsize hl (by omega)
  have hch : challenge.length < 2 ^ 32 := by
    simp only [challengeSizeIsSupported, Bool.or_eq_true, decide_eq_true_eq] at hsize
    omega
  refine ⟨?_, _, ?_, handleGetTokenSize_ok hseed hch hs hk, fun buf hbuf => ?_⟩
  · rw [hn, hlen]
    exact lt_of_le_of_lt
      (Nat.add_le_add_right (Nat.add_le_add hle (Cbor.headLen_le _)) 73) (by decide)
  · rw [hn, hlen]
    omega
  · refine handleGetToken_error hc (getToken_of_short hm hg ?_)
    rw [hbuf, hlen]
    omega

/-- **The size handler never reports the size of the token.** -/
theorem tokenSize_never_real (hm : self.minicbor.Preferred) {sizeVec : Bytes}
    (h : (self.handleGetToken (.ok (challenge, outvec))).result = .ok ())
    (hs : sizeOfUsize ≤ sizeVec.length) :
    let reply := self.handleGetTokenSize (.ok (toLeBytes sizeOfUsize challenge.length)) (.ok sizeVec)
    reply ≠ reports sizeVec (self.handleGetToken (.ok (challenge, outvec))).written ∧
      ∃ k, reply = reports sizeVec k ∧ ∀ buf : Bytes, buf.length = k →
        (self.handleGetToken (.ok (challenge, buf))).result = .error .bufferTooSmall := by
  obtain ⟨hlt, k, hk, hreply, hshort⟩ := tokenSize_lt_token hm h hs
  refine ⟨fun heq => ?_, k, hreply, hshort⟩
  have := reports_inj (hk.trans hlt) hlt (hreply.symm.trans heq)
  omega

end AttestService

/-! ## A platform without texts -/

namespace EmptyPlatform

set_option maxRecDepth 4000

def platform : AttestPlatform where
  securityLifecycle := .ok 0x3000
  verificationService buf := (.ok 0, buf)
  profileDefinition buf := (.ok 0, buf)
  bootSeed buf := (.ok (), buf)
  implementationId buf := (.ok (), buf)
  instanceId buf := (.ok (), buf)
  certRef buf := (.ok 0, buf)
  bootRecord := none

def service : AttestService where
  platform := platform
  client := ⟨fun _ _ hash => (.ok 32, hash), fun _ _ _ signature => (.ok 64, signature)⟩
  minicbor := ⟨fun i => [i.encode], Cbor.readBytes⟩

def challenge : Bytes := List.replicate 32 0x11

def token : Bytes := List.replicate 512 0

theorem getToken_succeeds : (service.handleGetToken (.ok (challenge, token))).result = .ok () := by
  decide

theorem preferred : service.minicbor.Preferred := fun i => List.append_nil i.encode

def sizeVec : Bytes := [0, 0, 0, 0]

theorem reported_size_too_small :
    let reply := service.handleGetTokenSize
      (.ok (toLeBytes AttestService.sizeOfUsize challenge.length)) (.ok sizeVec)
    reply ≠ AttestService.reports sizeVec (service.handleGetToken (.ok (challenge, token))).written ∧
      ∃ k, reply = AttestService.reports sizeVec k ∧ ∀ buf : Bytes, buf.length = k →
        (service.handleGetToken (.ok (challenge, buf))).result = .error .bufferTooSmall :=
  AttestService.tokenSize_never_real preferred getToken_succeeds (by decide)

/-- A token of 249 bytes, for which the size handler reports 152. -/
theorem reports_152_for_249 :
    (service.handleGetToken (.ok (challenge, token))).result = .ok () ∧
    (service.handleGetToken (.ok (challenge, token))).written = 249 ∧
    (service.handleGetTokenSize (.ok (toLeBytes AttestService.sizeOfUsize challenge.length))
      (.ok sizeVec)).outvec = some (toLeBytes AttestService.sizeOfUsize 152) := by
  decide

end EmptyPlatform

end RuSpe
