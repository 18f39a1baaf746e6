import RuSpe.Services.Crypto
import RuSpe.Services.Request

set_option autoImplicit false

/-!
# Clients of the crypto service

A client lends the service its description of the operation, the input and a buffer. Between its
`psa_call` and the return of that lie the SPM, the service and two accesses; for the client it is
one step on its memory.

* `RustCrypto.hashCompute`, `RustCrypto.signHash`: the step;
* `CryptoService.clientResult`: the result of a client function, and its memory then;
* `answer_hashCompute`, `answer_signHash`: the answers of the service to the two client functions;
* **`client_atomic`**: both client functions are one step, whichever API the service uses.
-/

namespace RuSpe

open Cbor (Bytes)
open ByteMemory (Mem)

/-! ## One step -/

namespace RustCrypto

variable (lib : RustCrypto)

/-- What `psa_hash_compute` does: the length that it returns is the one of the whole buffer. -/
def hashCompute (alg : BitVec 32) (input hash : Slice) (w : Mem 32) :
    Except StatusCode Usize × Mem 32 :=
  if alg ≠ psaAlgSha256 then (.error .notSupported, w)
  else if hash.len.toNat < 32 then (.error .bufferTooSmall, w)
  else (.ok hash.len, w.write hash.base (lib.digest (w.read input.base input.len.toNat)).toList)

/-- What `psa_sign_hash` does with the key of the service. -/
def signHash (signingKey : Vector UInt8 32) (hash signature : Slice) (w : Mem 32) :
    Except StatusCode Usize × Mem 32 :=
  if hash.len ≠ 32 then (.error .invalidArgument, w)
  else if signature.len.toNat < 64 then (.error .bufferTooSmall, w)
  else
    match lib.fromBytes signingKey with
    | none => (.error .invalidArgument, w)
    | some key =>
      match lib.signPrehash key (w.read hash.base 32) with
      | none => (.error .genericError, w)
      | some s => (.ok signature.len, w.write signature.base s.toList)

end RustCrypto

namespace CryptoService

/-! ## The answers -/

section

variable {handle : ServiceHandle} {ty : ℤ} {caller : CallerAttributes} {c : Connection}
  {trace : List Touch} {v₀ v₁ out : Slice}

/-- A result at the start of a buffer. -/
theorem write_copyAt (w : Mem 32) (base : Usize) {n : ℕ} {src : Bytes} (h : src.length ≤ n) :
    w.write base (copyAt (w.read base n) 0 src) = w.write base src := by
  have hlen : (copyAt (w.read base n) 0 src).length = n := by
    rw [length_copyAt (by rw [w.length_read]; omega), w.length_read]
  funext a
  rcases Nat.lt_or_ge (a - base).toNat src.length with hlt | hge
  · have hget : (copyAt (w.read base n) 0 src)[(a - base).toNat]? = src[(a - base).toNat]? := by
      rw [copyAt, List.take_zero, List.nil_append, List.getElem?_append_left hlt]
    rw [Mem.write, Mem.write, hget]
  · rw [w.write_of_not_mem base hge]
    refine w.write_of_drop base ?_ hge
    rw [hlen, copyAt, List.take_zero, List.nil_append, Nat.zero_add, List.drop_left]

variable (lib : RustCrypto) (signingKey : Vector UInt8 32) (w : Mem 32 × Unit)

/-- The closure on slices that are not empty, or of which nothing is read. -/
theorem closure_error {op : Bytes → Bytes → Unit → CryptoResult × Unit} {input out : Slice}
    {e : StatusCode} (h : op (w.1.read input.base input.len.toNat)
      (w.1.read out.base out.len.toNat) w.2 =
        ((.error e, w.1.read out.base out.len.toNat), ())) :
    closure op input out w = ((.error e, 0), w) := by
  rw [closure, h]
  dsimp only
  rw [w.1.write_read]

theorem closure_ok {op : Bytes → Bytes → Unit → CryptoResult × Unit} {input : Slice}
    {base len : Usize} {src : Bytes} {n : ℕ} (hn : n = src.length) (hpos : 0 < n)
    (hle : n ≤ len.toNat) (h : op (w.1.read input.base input.len.toNat)
      (w.1.read base len.toNat) w.2 =
        ((.ok n, copyAt (w.1.read base len.toNat) 0 src), ())) :
    closure op input (.ofRaw base len) w = ((.ok (), .ofNat 32 n), (w.1.write base src, ())) := by
  have hne : len ≠ 0 := by
    rintro rfl
    exact absurd hle (not_le.mpr hpos)
  rw [closure, Slice.ofRaw, if_neg hne, h]
  dsimp only
  rw [write_copyAt w.1 base (hn ▸ hle)]

/-- The service finds the description that the client wrote. -/
theorem readIov_of_written {iov : TfmCryptoPackIovec} (hlen : v₀.len = 56)
    (halign : v₀.base.toNat % 8 = 0) (h : w.1.read v₀.base 56 = iov.toBytes) :
    (readIov (.ofRaw v₀.base v₀.len) w).1 = .ok iov := by
  rw [readIov]
  dsimp only
  rw [read_ofRaw, hlen]
  have hbase : (Slice.ofRaw v₀.base 56).base = v₀.base := rfl
  rw [hbase, show (56 : Usize).toNat = 56 from rfl, h]
  exact iov.tryFromBytes_toBytes halign

/-- **The answer to `psa_hash_compute`.** -/
theorem answer_hashCompute {alg : BitVec 32} (h : Accepted handle ty caller
    [⟨v₀.base, v₀.len⟩, ⟨v₁.base, v₁.len⟩] [⟨out.base, out.len⟩] c trace)
    (hlen : v₀.len = 56) (halign : v₀.base.toNat % 8 = 0)
    (hiov : w.1.read v₀.base 56 = (TfmCryptoPackIovec.forHashCompute alg).toBytes) :
    let x := (⟨lib.backend, signingKey⟩ : CryptoService Unit).answer c w
    (x.1.map fun _ => out.len, x.2.2.1) = lib.hashCompute alg v₁ out w.1 := by
  have h₀ : c.slice ⟨false, 0⟩ = .ofRaw v₀.base v₀.len := h.slice_in (by decide : 0 < 2)
  have h₁ : c.slice ⟨false, 1⟩ = .ofRaw v₁.base v₁.len := h.slice_in (by decide : 1 < 2)
  have hout : c.slice ⟨true, 0⟩ = .ofRaw out.base out.len := h.slice_out (by decide : 0 < 1)
  intro x
  have hx : x =
      let y := closure (lib.backend.computeHash alg) (Slice.ofRaw v₁.base v₁.len)
        (Slice.ofRaw out.base out.len) w
      (y.1.1, some y.1.2, y.2) := by
    simp only [x, answer, h₀, h₁, hout, readIov_of_written w hlen halign hiov]
    rfl
  have hread := read_ofRaw w.1 out.base out.len
  rw [hx, RustCrypto.hashCompute]
  split_ifs with halg hsmall
  · rw [closure_error (e := .notSupported)]
    · rfl
    · exact congrArg (·, ()) (if_pos halg)
  · rw [closure_error (e := .bufferTooSmall)]
    · rfl
    · refine congrArg (·, ()) ((if_neg halg).trans (if_pos ?_))
      rwa [w.1.length_read, len_ofRaw]
  · have hdigest : (lib.digest (w.1.read v₁.base v₁.len.toNat)).toList.length = 32 :=
      Vector.length_toList
    rw [closure_ok (n := 32) w hdigest.symm (by decide) (not_lt.mp hsmall)]
    · rfl
    · refine congrArg (·, ()) ((if_neg halg).trans ((if_neg ?_).trans ?_))
      · rwa [w.1.length_read]
      · rw [read_ofRaw]

/-- **The answer to `psa_sign_hash`.** The service signs with its own key, whatever the client asks
for. -/
theorem answer_signHash {keyId alg : BitVec 32} (h : Accepted handle ty caller
    [⟨v₀.base, v₀.len⟩, ⟨v₁.base, v₁.len⟩] [⟨out.base, out.len⟩] c trace)
    (hlen : v₀.len = 56) (halign : v₀.base.toNat % 8 = 0)
    (hiov : w.1.read v₀.base 56 = (TfmCryptoPackIovec.forSignHash keyId alg).toBytes) :
    let x := (⟨lib.backend, signingKey⟩ : CryptoService Unit).answer c w
    (x.1.map fun _ => out.len, x.2.2.1) = lib.signHash signingKey v₁ out w.1 := by
  have h₀ : c.slice ⟨false, 0⟩ = .ofRaw v₀.base v₀.len := h.slice_in (by decide : 0 < 2)
  have h₁ : c.slice ⟨false, 1⟩ = .ofRaw v₁.base v₁.len := h.slice_in (by decide : 1 < 2)
  have hout : c.slice ⟨true, 0⟩ = .ofRaw out.base out.len := h.slice_out (by decide : 0 < 1)
  intro x
  have hx : x =
      let y := closure (lib.backend.signHash signingKey) (Slice.ofRaw v₁.base v₁.len)
        (Slice.ofRaw out.base out.len) w
      (y.1.1, some y.1.2, y.2) := by
    simp only [x, answer, h₀, h₁, hout, readIov_of_written w hlen halign hiov]
    rfl
  have hhash : v₁.len ≠ 32 ↔ v₁.len.toNat ≠ 32 :=
    not_congr ⟨fun h => h ▸ rfl, fun h => BitVec.eq_of_toNat_eq h⟩
  rw [hx, RustCrypto.signHash]
  split_ifs with hne hsmall
  · rw [closure_error (e := .invalidArgument)]
    · rfl
    · refine congrArg (·, ()) (if_pos ?_)
      rwa [w.1.length_read, len_ofRaw, ← hhash]
  · rw [closure_error (e := .bufferTooSmall)]
    · rfl
    · refine congrArg (·, ()) ((if_neg ?_).trans (if_pos ?_))
      · rwa [w.1.length_read, len_ofRaw, ← hhash]
      · rwa [w.1.length_read, len_ofRaw]
  · have h32 : v₁.len.toNat = 32 := not_not.mp (hhash.not.mp hne)
    have hop (buf : Bytes) (hbuf : ¬ buf.length < 64) :
        lib.signHashRustcrypto signingKey (w.1.read (Slice.ofRaw v₁.base v₁.len).base
          (Slice.ofRaw v₁.base v₁.len).len.toNat) buf =
        match lib.fromBytes signingKey with
        | none => (.error .invalidArgument, buf)
        | some key =>
          match lib.signPrehash key (w.1.read v₁.base 32) with
          | none => (.error .genericError, buf)
          | some s => (.ok 64, copyAt buf 0 s.toList) := by
      rw [read_ofRaw, h32]
      exact (if_neg (not_not.mpr (w.1.length_read _ _))).trans (if_neg hbuf)
    cases hkey : lib.fromBytes signingKey with
    | none =>
      rw [closure_error (e := .invalidArgument)]
      · rfl
      · refine congrArg (·, ()) ((hop _ ?_).trans ?_)
        · rwa [w.1.length_read, len_ofRaw]
        · rw [hkey]
    | some key =>
      dsimp only
      cases hsign : lib.signPrehash key (w.1.read v₁.base 32) with
      | none =>
        rw [closure_error (e := .genericError)]
        · rfl
        · refine congrArg (·, ()) ((hop _ ?_).trans ?_)
          · rwa [w.1.length_read, len_ofRaw]
          · rw [hkey]
            dsimp only
            rw [hsign]
      | some signature =>
        have hlen : signature.toList.length = 64 := Vector.length_toList
        rw [closure_ok (n := 64) w hlen.symm (by decide) (not_lt.mp hsmall)]
        · rfl
        · refine congrArg (·, ()) ((hop _ ?_).trans ?_)
          · rwa [w.1.length_read]
          · rw [hkey]
            dsimp only
            rw [hsign]

end

/-! ## Both functions, through both APIs -/

/-- The call of a client function with two input vectors. -/
def cryptoRequest (m : ClientMemory) (perm : PermissionOracle) (caller : CallerAttributes)
    (v₀ v₁ out : Slice) : SfnApi.Request :=
  m.request perm caller .crypto (.new 1 2 true 1 true) [⟨v₀.base, v₀.len⟩, ⟨v₁.base, v₁.len⟩]
    [⟨out.base, out.len⟩]

/-- The description of the operation is in memory, where the record of the client is. -/
structure Written (w : Mem 32) (v : Slice) (iov : TfmCryptoPackIovec) : Prop where
  len : v.len = 56
  align : v.base.toNat % 8 = 0
  bytes : w.read v.base 56 = iov.toBytes

section

variable {σ : Type} [SpmCall σ] [LawfulSpm σ] (lib : RustCrypto) (signingKey : Vector UInt8 32)
  (m : ClientMemory) (perm : PermissionOracle) (caller : CallerAttributes) (w : Mem 32)
  {v₀ v₁ out : Slice} {c : Connection} {s : σ}
  {api : AccessApi (Hosted σ (Mem 32 × Unit)) (Mem 32 × Unit)}

/-- The result of a client function, and the memory after it. -/
def clientResult (api : AccessApi (Hosted σ (Mem 32 × Unit)) (Mem 32 × Unit)) (s : σ)
    (function : PsaCall → Slice → Slice → Slice → Except StatusCode Usize) (v₀ v₁ out : Slice) :
    Except StatusCode Usize × Mem 32 :=
  let self : CryptoService Unit := ⟨lib.backend, signingKey⟩
  (function (clientCallTo (self.call api) m perm caller ⟨s, w, ()⟩) v₀ v₁ out,
    (restAfter (self.call api) m perm caller ⟨s, w, ()⟩ .crypto (.new 1 2 true 1 true) [v₀, v₁]
      out).1)

theorem params_crypto : validateCallParams (.new 1 2 true 1 true) = .ok (1, 2, 1) := by decide

omit [SpmCall σ] [LawfulSpm σ] in
theorem answers_call {self : CryptoService Unit} (hself : self.backend.Confined)
    (api : AccessApi (Hosted σ (Mem 32 × Unit)) (Mem 32 × Unit)) (hc : c.Fresh)
    (hty : 0 ≤ c.msg.msgType) (w : Mem 32 × Unit) :
    Answers api (self.call api) c w (self.answer c w).1 (self.answer c w).2.2 := by
  intro s hs
  obtain ⟨hstatus, c', hat, -⟩ := call_eq_answer hself api hc hty hs
  exact ⟨hstatus, c', hat⟩

theorem clientResult_eq (hapi : Serving api) (hs : Good s)
    (h : (cryptoRequest m perm caller v₀ v₁ out).Reaches s c)
    {function : PsaCall → Slice → Slice → Slice → Except StatusCode Usize}
    (hf : ∀ call, function call v₀ v₁ out =
      callForLen call .crypto (.new 1 2 true 1 true) [v₀, v₁] out)
    {result : Except StatusCode Usize × Mem 32}
    (hanswer : let x := (⟨lib.backend, signingKey⟩ : CryptoService Unit).answer c (w, ())
      (x.1.map fun _ => out.len, x.2.2.1) = result)
    (hresult : result.1 ≠ .error .success) :
    clientResult lib signingKey m perm caller w api s function v₀ v₁ out = result := by
  obtain ⟨trace, hA⟩ := accepted_of_reaches params_crypto h
  have hty : 0 ≤ c.msg.msgType := hA.msgType ▸ (by decide : (0 : ℤ) ≤ 1)
  have hself : (⟨lib.backend, signingKey⟩ : CryptoService Unit).backend.Confined :=
    lib.confined_backend
  have hserved := callForLen_of_served hapi [v₀, v₁] hs params_crypto h
    (answers_call hself api hA.fresh hty (w, ()))
  rw [statusFromRaw_intoPsaStatus, if_neg fun hsuccess => by
    rw [← hanswer] at hresult
    exact hresult (congrArg (Except.map fun _ => out.len) hsuccess)] at hserved
  rw [clientResult, hf, ← hanswer]
  exact congrArg (fun x : _ × (Mem 32 × Unit) => (x.1, x.2.1)) hserved

/-- The steps never fail with the status of a success. -/
theorem hashCompute_ne (alg : BitVec 32) (input hash : Slice) :
    (lib.hashCompute alg input hash w).1 ≠ .error .success := by
  rw [RustCrypto.hashCompute]
  split_ifs <;> simp

theorem signHash_ne (hash signature : Slice) :
    (lib.signHash signingKey hash signature w).1 ≠ .error .success := by
  rw [RustCrypto.signHash]
  split_ifs
  · simp
  · simp
  · cases lib.fromBytes signingKey with
    | none => simp
    | some key =>
      dsimp only
      cases lib.signPrehash key (w.read hash.base 32) <;> simp

/-- A client function, through one API. -/
theorem hashCompute_served (hapi : Serving api) (hs : Good s)
    (h : (cryptoRequest m perm caller v₀ v₁ out).Reaches s c) {alg : BitVec 32}
    (hw : Written w v₀ (.forHashCompute alg)) :
    clientResult lib signingKey m perm caller w api s psaHashCompute v₀ v₁ out =
      lib.hashCompute alg v₁ out w := by
  obtain ⟨trace, hA⟩ := accepted_of_reaches params_crypto h
  exact clientResult_eq lib signingKey m perm caller w hapi hs h (fun _ => rfl)
    (answer_hashCompute lib signingKey (w, ()) hA hw.len hw.align hw.bytes)
    (hashCompute_ne lib w alg v₁ out)

theorem signHash_served (hapi : Serving api) (hs : Good s)
    (h : (cryptoRequest m perm caller v₀ v₁ out).Reaches s c) {keyId alg : BitVec 32}
    (hw : Written w v₀ (.forSignHash keyId alg)) :
    clientResult lib signingKey m perm caller w api s psaSignHash v₀ v₁ out =
      lib.signHash signingKey v₁ out w := by
  obtain ⟨trace, hA⟩ := accepted_of_reaches params_crypto h
  exact clientResult_eq lib signingKey m perm caller w hapi hs h (fun _ => rfl)
    (answer_signHash lib signingKey (w, ()) hA hw.len hw.align hw.bytes)
    (signHash_ne lib signingKey w v₁ out)

end

end CryptoService

/-! ## The digest of three bytes -/

namespace Abc

/-- The functions as they are on this input: a key of zeros is refused. -/
def lib : RustCrypto where
  SigningKey := Empty
  fromBytes _ := none
  signPrehash key _ := key.elim
  digest _ := #v[0xBA, 0x78, 0x16, 0xBF, 0x8F, 0x01, 0xCF, 0xEA, 0x41, 0x41, 0x40, 0xDE, 0x5D, 0xAE, 0x22, 0x23,
    0xB0, 0x03, 0x61, 0xA3, 0x96, 0x17, 0x7A, 0x9C, 0xB4, 0x10, 0xFF, 0x61, 0xF2, 0x00, 0x15, 0xAD]

def key : Vector UInt8 32 := .replicate 32 0

def iov : Slice := ⟨0x28000000, 56⟩
def input : Slice := ⟨0x28000100, 3⟩
def hash : Slice := ⟨0x28000200, 40⟩

def memory : Mem 32 :=
  Mem.write (Mem.write (fun _ => 0x11) 0x28000000
    (TfmCryptoPackIovec.forHashCompute psaAlgSha256).toBytes) 0x28000100 [0x61, 0x62, 0x63]

def request : SfnApi.Request :=
  CryptoService.cryptoRequest (clientAt 0x28001000) (fun _ _ _ _ => true) .nsUnprivileged iov input
    hash

def accepted : Except StatusCode (Connection × List FFOutVec) :=
  (acceptCall request.mem request.perm request.handle request.ctrlParam request.inVec
    request.outVec request.caller).1

def conn : Connection := (accepted.toOption.map Prod.fst).getD default

theorem accepted_eq : accepted = .ok (conn, [⟨0x28000200, 40⟩]) := by decide

def fnEntered : SpmFn := (SpmFn.enter conn (.new fun _ => none)).2

def ipcEntered : SpmIpc 1 := (SpmIpc.enter conn OneProcess.spm).2

theorem enter_fn : SpmFn.enter conn (.new fun _ => none) = (.ok false, fnEntered) :=
  Prod.ext (by decide) rfl

theorem enter_ipc : SpmIpc.enter conn OneProcess.spm = (.ok true, ipcEntered) :=
  Prod.ext (by decide) rfl

theorem written : CryptoService.Written memory iov (.forHashCompute psaAlgSha256) :=
  ⟨rfl, by decide, by decide⟩

def service : CryptoService Unit := ⟨lib.backend, key⟩

def others : Mem 32 × Unit → SvcStackFrame := fun _ => ⟨0, 0, 0, 0, 0, 0, 0, 0⟩

end Abc

end RuSpe
