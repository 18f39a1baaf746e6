import RuSpe.Psa.PackIovec
import RuSpe.Services.SignHash
import RuSpe.Spm.Accesses

set_option autoImplicit false

/-!
# The crypto service

A request has a packed description of the operation, its input and a buffer for the result. The
description is read in one access, and the operation runs in a second one.

* `CryptoBackend`, `RustCrypto.backend`, `Mbedtls.backend`: the two implementations;
* `CryptoBackend.Confined`: an operation changes its result only, and nothing if it fails;
* `CryptoService.call`: the service, through either API;
* `CryptoService.answer`, **`call_eq_answer`**: what it does on a connection that is fresh;
* **`crypto_served`**: both APIs serve a request alike, and leave the rest of the memory alone.
-/

namespace RuSpe

open Cbor (Bytes)
open ByteMemory (Mem)

/-! ## The implementations -/

/-- The result of an operation: its length, and the buffer after it. -/
abbrev CryptoResult := Except StatusCode ℕ × Bytes

/-- `sign_hash` and `compute_hash`. What they use besides the request is a state of type `η`. -/
structure CryptoBackend (η : Type) where
  signHash : Vector UInt8 32 → Bytes → Bytes → η → CryptoResult × η
  computeHash : BitVec 32 → Bytes → Bytes → η → CryptoResult × η

/-- What is used of the crates `p256` and `sha2`. -/
structure RustCrypto where
  SigningKey : Type
  fromBytes : Vector UInt8 32 → Option SigningKey
  signPrehash : SigningKey → Bytes → Option (Vector UInt8 64)
  digest : Bytes → Vector UInt8 32

namespace RustCrypto

variable (lib : RustCrypto)

/-- `sign_hash_rustcrypto`. -/
def signHashRustcrypto (signingKey : Vector UInt8 32) (hash signatureBuf : Bytes) : CryptoResult :=
  if hash.length ≠ 32 then (.error .invalidArgument, signatureBuf)
  else if signatureBuf.length < 64 then (.error .bufferTooSmall, signatureBuf)
  else
    match lib.fromBytes signingKey with
    | none => (.error .invalidArgument, signatureBuf)
    | some signingKey =>
      match lib.signPrehash signingKey hash with
      | none => (.error .genericError, signatureBuf)
      | some signature => (.ok 64, copyAt signatureBuf 0 signature.toList)

/-- `compute_hash_rustcrypto`. -/
def computeHashRustcrypto (alg : BitVec 32) (input hashBuf : Bytes) : CryptoResult :=
  if alg ≠ psaAlgSha256 then (.error .notSupported, hashBuf)
  else if hashBuf.length < 32 then (.error .bufferTooSmall, hashBuf)
  else (.ok 32, copyAt hashBuf 0 (lib.digest input).toList)

/-- The feature `rustcrypto`. -/
def backend : CryptoBackend Unit where
  signHash signingKey hash buf h := (lib.signHashRustcrypto signingKey hash buf, h)
  computeHash alg input buf h := (lib.computeHashRustcrypto alg input buf, h)

end RustCrypto

/-- What is used of the message digests of Mbed TLS. The results of the calls are not looked at;
`finish` gets the bytes that it may write to. -/
structure MbedtlsMd where
  Ctx : Type
  zeroed : Ctx
  init : Ctx → AllocHeap → Ctx × AllocHeap
  setupSha256 : Ctx → AllocHeap → Ctx × AllocHeap
  starts : Ctx → AllocHeap → Ctx × AllocHeap
  update : Ctx → Bytes → AllocHeap → Ctx × AllocHeap
  finish : Ctx → Vector UInt8 32 → AllocHeap → (Vector UInt8 32 × Ctx) × AllocHeap
  free : Ctx → AllocHeap → AllocHeap

/-- `compute_hash_unsafe_mbedtls`. -/
def MbedtlsMd.computeHashUnsafeMbedtls (md : MbedtlsMd) (alg : BitVec 32) (input hashBuf : Bytes)
    (h : AllocHeap) : CryptoResult × AllocHeap :=
  if alg ≠ psaAlgSha256 then ((.error .notSupported, hashBuf), h)
  else if hashBuf.length < 32 then ((.error .bufferTooSmall, hashBuf), h)
  else
    let (ctx, h) := md.init md.zeroed h
    let (ctx, h) := md.setupSha256 ctx h
    let (ctx, h) := md.starts ctx h
    let (ctx, h) := md.update ctx input h
    let ((hash, ctx), h) := md.finish ctx (.ofFn fun i => (hashBuf[i.val]?).getD 0) h
    ((.ok 32, copyAt hashBuf 0 hash.toList), md.free ctx h)

/-- The feature `unsafe_mbedtls`. -/
def Mbedtls.backend (lib : Mbedtls) (md : MbedtlsMd) : CryptoBackend AllocHeap where
  signHash signingKey hash buf h := lib.signHashUnsafeMbedtls signingKey.toList hash buf h
  computeHash := md.computeHashUnsafeMbedtls

/-! ## Confined operations -/

/-- The buffer keeps its length, and what is behind the result; it is as it was if there is none. -/
structure CryptoResult.Confined (buf : Bytes) (r : CryptoResult) : Prop where
  length : r.2.length = buf.length
  error : ∀ e, r.1 = .error e → r.2 = buf
  ok : ∀ n, r.1 = .ok n → n ≤ buf.length ∧ r.2.drop n = buf.drop n

/-- Both operations are confined to the buffer that they get. -/
structure CryptoBackend.Confined {η : Type} (b : CryptoBackend η) : Prop where
  signHash : ∀ key hash buf h, (b.signHash key hash buf h).1.Confined buf
  computeHash : ∀ alg input buf h, (b.computeHash alg input buf h).1.Confined buf

theorem CryptoResult.Confined.of_error (buf : Bytes) (e : StatusCode) :
    CryptoResult.Confined buf (.error e, buf) :=
  ⟨rfl, fun _ _ => rfl, nofun⟩

/-- A result that is written to the start of the buffer. -/
theorem CryptoResult.Confined.of_copyAt {buf src : Bytes} (h : src.length ≤ buf.length) :
    CryptoResult.Confined buf (.ok src.length, copyAt buf 0 src) := by
  refine ⟨length_copyAt (by omega), nofun, ?_⟩
  rintro n ⟨⟩
  refine ⟨h, ?_⟩
  simp [copyAt]

theorem RustCrypto.confined_backend (lib : RustCrypto) : lib.backend.Confined where
  signHash key hash buf h := by
    change CryptoResult.Confined buf (lib.signHashRustcrypto key hash buf)
    rw [RustCrypto.signHashRustcrypto]
    split_ifs with hhash hbuf
    · exact .of_error buf _
    · exact .of_error buf _
    · cases lib.fromBytes key with
      | none => exact .of_error buf _
      | some key =>
        dsimp only
        cases lib.signPrehash key hash with
        | none => exact .of_error buf _
        | some signature =>
          have hlen : signature.toList.length = 64 := Vector.length_toList
          have hcopy := @CryptoResult.Confined.of_copyAt buf signature.toList (by omega)
          rwa [hlen] at hcopy
  computeHash alg input buf h := by
    change CryptoResult.Confined buf (lib.computeHashRustcrypto alg input buf)
    rw [RustCrypto.computeHashRustcrypto]
    split_ifs with halg hbuf
    · exact .of_error buf _
    · exact .of_error buf _
    · have hlen : (lib.digest input).toList.length = 32 := Vector.length_toList
      have hcopy := @CryptoResult.Confined.of_copyAt buf (lib.digest input).toList (by omega)
      rwa [hlen] at hcopy

/-- `mbedtls_mpi_write_binary` fills the bytes that it is given. -/
def Mbedtls.FillsBuffer (lib : Mbedtls) : Prop :=
  ∀ x buf, (lib.mpiWriteBinary x buf).length = buf.length

theorem Mbedtls.confined_backend {lib : Mbedtls} (hlib : lib.FillsBuffer) (md : MbedtlsMd) :
    (lib.backend md).Confined where
  signHash key hash buf h := by
    change CryptoResult.Confined buf (lib.signHashUnsafeMbedtls key.toList hash buf h).1
    rw [Mbedtls.signHashUnsafeMbedtls]
    split_ifs with hhash hbuf
    · exact .of_error buf _
    · exact .of_error buf _
    · generalize lib.signCall key.toList hash h = x
      obtain ⟨⟨ret, o⟩, h'⟩ := x
      dsimp only
      split_ifs with hret
      · exact .of_error buf _
      · have hr := hlib o.r (buf.take 32)
        rw [List.length_take_of_le (by omega)] at hr
        generalize lib.mpiWriteBinary o.r (buf.take 32) = r at hr ⊢
        have hfirst : (copyAt buf 0 r).length = buf.length := length_copyAt (by omega)
        have hs := hlib o.s (((copyAt buf 0 r).take 64).drop 32)
        rw [List.length_drop, List.length_take_of_le (by omega)] at hs
        generalize lib.mpiWriteBinary o.s (((copyAt buf 0 r).take 64).drop 32) = s at hs ⊢
        have hboth : copyAt (copyAt buf 0 r) 32 s = copyAt buf 0 (r ++ s) := by
          simp [copyAt, hr, hs, List.drop_append]
        have hlen : (r ++ s).length = 64 := by
          rw [List.length_append]
          omega
        have hcopy := @CryptoResult.Confined.of_copyAt buf (r ++ s) (by omega)
        rwa [hlen, ← hboth] at hcopy
  computeHash alg input buf h := by
    change CryptoResult.Confined buf (md.computeHashUnsafeMbedtls alg input buf h).1
    rw [MbedtlsMd.computeHashUnsafeMbedtls]
    split_ifs with halg hbuf
    · exact .of_error buf _
    · exact .of_error buf _
    · dsimp only
      generalize (md.finish _ _ _).1.1 = hash
      have hlen : hash.toList.length = 32 := Vector.length_toList
      have hcopy := @CryptoResult.Confined.of_copyAt buf hash.toList (by omega)
      rwa [hlen] at hcopy

/-! ## The service -/

/-- `CryptoService`. -/
structure CryptoService (η : Type) where
  backend : CryptoBackend η
  signingKey : Vector UInt8 32

namespace CryptoService

variable {σ η : Type} (self : CryptoService η)

/-- The closure of the first access. -/
def readIov (buf : Slice) (w : Mem 32 × η) :
    Except StatusCode TfmCryptoPackIovec × (Mem 32 × η) :=
  (TfmCryptoPackIovec.tryFromBytes buf.base (w.1.read buf.base buf.len.toNat), w)

/-- The closures of the second access, over the operation. -/
def closure (op : Bytes → Bytes → η → CryptoResult × η) (input out : Slice) (w : Mem 32 × η) :
    (Except StatusCode Unit × Usize) × (Mem 32 × η) :=
  let ((r, buf), h) := op (w.1.read input.base input.len.toNat) (w.1.read out.base out.len.toNat) w.2
  match r with
  | .ok writtenLen => ((.ok (), BitVec.ofNat 32 writtenLen), (w.1.write out.base buf, h))
  -- `written_len` is still zero here, so the `fill(0)` of the error path reaches no byte
  | .error e => ((.error e, 0), (w.1.write out.base buf, h))

/-- `Service::call`. -/
def call (api : AccessApi σ (Mem 32 × η)) (msg : PsaMsg) (s : σ) : Except StatusCode Unit × σ :=
  match api.access (.invec msg.handle 0 readIov) s with
  | (.error e, s) => (.error e, s)
  | (.ok (.error e), s) => (.error e, s)
  | (.ok (.ok iov), s) =>
    if iov.functionId = tfmCryptoAsymmetricSignHashSid then
      flattenAccess (api.access (.invecOutvec msg.handle 1 0
        (closure (self.backend.signHash self.signingKey))) s)
    else if iov.functionId = tfmCryptoHashComputeSid then
      flattenAccess (api.access (.invecOutvec msg.handle 1 0
        (closure (self.backend.computeHash iov.alg))) s)
    else (.error .notSupported, s)

/-! ## On a fresh connection -/

/-- The operation that a description asks for. -/
def operation (iov : TfmCryptoPackIovec) : Option (Bytes → Bytes → η → CryptoResult × η) :=
  if iov.functionId = tfmCryptoAsymmetricSignHashSid then
    some (self.backend.signHash self.signingKey)
  else if iov.functionId = tfmCryptoHashComputeSid then some (self.backend.computeHash iov.alg)
  else none

/-- The status of a request, the length that is committed for its output vector, and the memory. -/
def answer (c : Connection) (w : Mem 32 × η) :
    Except StatusCode Unit × Option Usize × (Mem 32 × η) :=
  match (readIov (c.slice ⟨false, 0⟩) w).1 with
  | .error e => (.error e, none, w)
  | .ok iov =>
    match self.operation iov with
    | none => (.error .notSupported, none, w)
    | some op =>
      let x := closure op (c.slice ⟨false, 1⟩) (c.slice ⟨true, 0⟩) w
      (x.1.1, some x.1.2, x.2)

/-- What is left when an operation was answered: nothing but its result, and nothing at all if it
failed. -/
structure Tidy (out : Slice) (w : Mem 32) (status : Except StatusCode Unit) (n : Usize)
    (w' : Mem 32) : Prop where
  le : n ≤ out.len
  failed : status ≠ .ok () → n = 0 ∧ w' = w
  outside : ∀ a, n.toNat ≤ (a - out.base).toNat → w' a = w a

theorem tidy_closure {op : Bytes → Bytes → η → CryptoResult × η} (input out : Slice)
    (w : Mem 32 × η) (hop : ∀ input buf h, (op input buf h).1.Confined buf) :
    Tidy out w.1 (closure op input out w).1.1 (closure op input out w).1.2
      (closure op input out w).2.1 := by
  have hconfined := hop (w.1.read input.base input.len.toNat) (w.1.read out.base out.len.toNat) w.2
  rw [closure]
  generalize op (w.1.read input.base input.len.toNat) (w.1.read out.base out.len.toNat) w.2 = x
    at hconfined ⊢
  obtain ⟨⟨r, buf⟩, h⟩ := x
  have hlen : buf.length = out.len.toNat := hconfined.length.trans (w.1.length_read _ _)
  cases r with
  | error e =>
    have hsame : w.1.write out.base buf = w.1 := by
      rw [show buf = _ from hconfined.error e rfl, w.1.write_read]
    exact ⟨BitVec.le_def.mpr (Nat.zero_le _), fun _ => ⟨rfl, hsame⟩, fun a _ => congrFun hsame a⟩
  | ok n =>
    obtain ⟨hle, hdrop⟩ := hconfined.ok n rfl
    rw [w.1.length_read] at hle
    have hn : (BitVec.ofNat 32 n).toNat = n := by
      have hlt := out.len.isLt
      rw [BitVec.toNat_ofNat, Nat.mod_eq_of_lt (by omega)]
    refine ⟨?_, fun h => absurd rfl h, fun a ha => ?_⟩
    · rw [BitVec.le_def, hn]
      exact hle
    · rw [hn] at ha
      refine w.1.write_of_drop out.base ?_ ha
      rw [hlen]
      exact hdrop

variable {self} {c : Connection}

theorem confined_operation (hself : self.backend.Confined) {iov : TfmCryptoPackIovec}
    {op : Bytes → Bytes → η → CryptoResult × η} (h : self.operation iov = some op)
    (input buf : Bytes) (s : η) : (op input buf s).1.Confined buf := by
  rw [operation] at h
  split_ifs at h
  · obtain rfl := Option.some.inj h
    exact hself.signHash _ input buf s
  · obtain rfl := Option.some.inj h
    exact hself.computeHash _ input buf s

/-- The call, with the operation looked up first. -/
theorem call_eq (api : AccessApi σ (Mem 32 × η)) (msg : PsaMsg) (s : σ) :
    self.call api msg s =
      match api.access (.invec msg.handle 0 readIov) s with
      | (.error e, s) => (.error e, s)
      | (.ok (.error e), s) => (.error e, s)
      | (.ok (.ok iov), s) =>
        match self.operation iov with
        | none => (.error .notSupported, s)
        | some op => flattenAccess (api.access (.invecOutvec msg.handle 1 0 (closure op)) s) := by
  rw [call]
  rcases api.access (.invec msg.handle 0 readIov) s with ⟨e | e | iov, s⟩
  · rfl
  · rfl
  · dsimp only
    rw [operation]
    split_ifs <;> rfl

/-- **On a fresh connection the service does what `answer` says**, through any API. -/
theorem call_eq_answer (hself : self.backend.Confined) (api : AccessApi σ (Mem 32 × η))
    (hc : c.Fresh) (hty : 0 ≤ c.msg.msgType) {w : Mem 32 × η} {s : σ} (hs : api.At c w s) :
    (self.call api c.msg s).1 = (self.answer c w).1 ∧
      ∃ c', api.At c' (self.answer c w).2.2 (self.call api c.msg s).2 ∧
        c'.size ⟨true, 0⟩ = (self.answer c w).2.1.elim (c.size ⟨true, 0⟩)
          fun n => (MaybeUsize.some n).asOption := by
  have hunused (v : Vec) (hv : v.idx < 2) : c.Unused v := hc.unused (lt_trans hv (by decide))
  obtain ⟨c₁, s₁, hfirst, hat₁, haside⟩ := api.invec_of_unused hs hty (v := ⟨false, 0⟩) (i := 0) rfl
    (hunused _ (by decide)) (f := readIov) Prod.mk.eta.symm
  have hsize : c₁.size ⟨true, 0⟩ = c.size ⟨true, 0⟩ := by
    rw [Connection.size, haside.msg, Connection.size]
  rw [call_eq, hfirst, answer]
  cases (readIov (c.slice ⟨false, 0⟩) w).1 with
  | error e => exact ⟨rfl, c₁, hat₁, hsize⟩
  | ok iov =>
    dsimp only
    cases hop : self.operation iov with
    | none => exact ⟨rfl, c₁, hat₁, hsize⟩
    | some op =>
      dsimp only
      -- the second access finds its vectors as the first one did
      have htidy := tidy_closure (c.slice ⟨false, 1⟩) (c.slice ⟨true, 0⟩) w
        (confined_operation hself hop)
      obtain ⟨c₂, s₂, hsecond, hat₂, hwritten⟩ := api.invecOutvec_of_unused hat₁ (haside.msg ▸ hty)
        (v := ⟨false, 1⟩) (u := ⟨true, 0⟩) (i := 1) (o := 0) rfl rfl
        (haside.unused _ (by decide) (hunused _ (by decide)))
        (haside.unused _ (by decide) (hunused _ (by decide))) (f := closure op) Prod.mk.eta.symm
        (by rw [haside.slice, haside.slice]; exact htidy.le)
      rw [haside.slice, haside.slice] at hsecond hat₂ hwritten
      rw [← haside.msg, hsecond]
      exact ⟨rfl, c₂, hat₂, hwritten⟩

/-- A request changes nothing but the first bytes of its output vector, and nothing if it fails. -/
theorem tidy_answer (hself : self.backend.Confined) (c : Connection) (w : Mem 32 × η) :
    ((self.answer c w).1 ≠ .ok () → (self.answer c w).2.2.1 = w.1) ∧
      ((self.answer c w).1 = .ok () → ∃ n ≤ (c.slice ⟨true, 0⟩).len,
        (self.answer c w).2.1 = some n ∧
        ∀ a, n.toNat ≤ (a - (c.slice ⟨true, 0⟩).base).toNat → (self.answer c w).2.2.1 a = w.1 a) := by
  rw [answer]
  cases (readIov (c.slice ⟨false, 0⟩) w).1 with
  | error e => exact ⟨fun _ => rfl, nofun⟩
  | ok iov =>
    dsimp only
    cases hop : self.operation iov with
    | none => exact ⟨fun _ => rfl, nofun⟩
    | some op =>
      have htidy := tidy_closure (c.slice ⟨false, 1⟩) (c.slice ⟨true, 0⟩) w
        (confined_operation hself hop)
      exact ⟨fun h => (htidy.failed h).2, fun _ => ⟨_, htidy.le, rfl, htidy.outside⟩⟩

end CryptoService

end RuSpe
