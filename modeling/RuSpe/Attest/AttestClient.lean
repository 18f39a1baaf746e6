import RuSpe.Attest.ServiceCall
import RuSpe.Services.Request

set_option autoImplicit false

/-!
# Clients of the attestation service

A client lends the service a challenge and a buffer for the token. Between its `psa_call` and the
return of that lie the SPM, the service and its accesses; for the client it is one step on its
memory.

* `AttestService.getToken`, `AttestService.getTokenSize`: the steps;
* `psaInitialAttestGetTokenSize`: the client function whose result is in its memory;
* **`attest_client_atomic`**: both client functions are one step, whichever API the service uses.
-/

namespace RuSpe

open Cbor (Bytes)
open ByteMemory (Mem)

/-- `psa_initial_attest_get_token_size`: `rest` is the memory after the call. -/
def psaInitialAttestGetTokenSize (call : PsaCall) (rest : Mem 32)
    (challengeSizeBytes tokenSizeBytes : Slice) : Except StatusCode ℕ :=
  let (status, _) := call .attestationService (.new 1002 1 true 1 true)
    [⟨challengeSizeBytes.base, challengeSizeBytes.len⟩]
    [⟨tokenSizeBytes.base, tokenSizeBytes.len⟩]
  match statusFromRaw status with
  | .error e => .error e
  | .ok () => .ok (fromLeBytes (rest.read tokenSizeBytes.base tokenSizeBytes.len.toNat))

namespace AttestService

variable (self : AttestService)

/-! ## One step -/

/-- What `psa_initial_attest_get_token` does: the length that it returns is the one of the whole
buffer. -/
def getToken (challenge token : Slice) (w : Mem 32) : Except StatusCode Usize × Mem 32 :=
  let reply := self.handleGetToken (.ok (w.read challenge.base challenge.len.toNat,
    w.read token.base token.len.toNat))
  ((statusFromRaw (intoPsaStatus reply.result)).map fun _ => token.len, reply.memory token w)

/-- What `psa_initial_attest_get_token_size` does. -/
def getTokenSize (challengeSize tokenSize : Slice) (w : Mem 32) : Except StatusCode ℕ × Mem 32 :=
  let reply := self.handleGetTokenSize (.ok (w.read challengeSize.base challengeSize.len.toNat))
    (.ok (w.read tokenSize.base tokenSize.len.toNat))
  let w' := reply.memory tokenSize w
  ((statusFromRaw (intoPsaStatus reply.result)).map fun _ =>
    fromLeBytes (w'.read tokenSize.base tokenSize.len.toNat), w')

/-! ## One vector of each kind -/

section

variable {handle : ServiceHandle} {ty : ℤ} {caller : CallerAttributes} {v out : Slice}
  {c : Connection} {trace : List Touch}

/-- The sizes of a list with one vector. -/
theorem one_size {sizes : Vector MaybeUsize psaMaxIovec} {n : Usize}
    (h : ∀ i : ℕ, (sizes[i]?).bind MaybeUsize.asOption = [n][i]?) :
    sizes[0].asOption.isSome = true ∧ sizes.toList.tail.all (fun size => !size.isSome) = true := by
  constructor
  · have h0 : sizes[0].asOption = some n := h 0
    rw [h0, Option.isSome_some]
  · rw [List.all_eq_true]
    intro size hmem
    obtain ⟨i, hi⟩ := List.mem_iff_getElem?.mp hmem
    rw [List.getElem?_tail, Vector.getElem?_toList] at hi
    have hsize := h (i + 1)
    rw [hi, Option.bind_some, List.getElem?_cons_succ, List.getElem?_nil, MaybeUsize.asOption] at hsize
    split_ifs at hsize with hsome
    rw [Bool.not_eq_true _ |>.mp hsome, Bool.not_false]

theorem hasExactlyOneIovec_of_accepted
    (h : Accepted handle ty caller [⟨v.base, v.len⟩] [⟨out.base, out.len⟩] c trace) :
    hasExactlyOneIovec c.msg = true := by
  have hin : ∀ i : ℕ, (c.msg.inSize[i]?).bind MaybeUsize.asOption = [v.len][i]? := fun i =>
    (h.sizeIn i).trans (by cases i <;> rfl)
  have hout : ∀ i : ℕ, (c.msg.outSize[i]?).bind MaybeUsize.asOption = [out.len][i]? := fun i =>
    (h.sizeOut i).trans (by cases i <;> rfl)
  obtain ⟨hin0, hinRest⟩ := one_size hin
  obtain ⟨hout0, houtRest⟩ := one_size hout
  unfold hasExactlyOneIovec
  rw [hin0, hout0, hinRest, houtRest]
  rfl

/-- The reply of the service to a client with one vector of each kind. -/
theorem call_of_accepted (self : AttestService)
    (h : Accepted handle ty caller [⟨v.base, v.len⟩] [⟨out.base, out.len⟩] c trace) (w : Mem 32) :
    (let input := w.read (c.slice ⟨false, 0⟩).base (c.slice ⟨false, 0⟩).len.toNat
      let output := w.read (c.slice ⟨true, 0⟩).base (c.slice ⟨true, 0⟩).len.toNat
      self.call c.msg (.ok (input, output)) (.ok input) (.ok output)) =
      if ty = 1001 then
        self.handleGetToken (.ok (w.read v.base v.len.toNat, w.read out.base out.len.toNat))
      else if ty = 1002 then
        self.handleGetTokenSize (.ok (w.read v.base v.len.toNat))
          (.ok (w.read out.base out.len.toNat))
      else ⟨.error .notSupported, none, 0⟩ := by
  have hv : c.slice ⟨false, 0⟩ = .ofRaw v.base v.len := h.slice_in (by decide : 0 < 1)
  have hout : c.slice ⟨true, 0⟩ = .ofRaw out.base out.len := h.slice_out (by decide : 0 < 1)
  dsimp only
  rw [hv, hout, read_ofRaw, read_ofRaw, call, hasExactlyOneIovec_of_accepted h,
    if_neg (by decide),
    h.msgType]

end

/-! ## Replies keep the length of their vector -/

/-- The bytes of a reply are as many as those of the output vector. -/
def Reply.Sized (r : Reply) (n : ℕ) : Prop := ∀ buf, r.outvec = some buf → buf.length = n

theorem sized_error (e : StatusCode) (n : ℕ) : Reply.Sized ⟨.error e, none, 0⟩ n :=
  fun _ h => absurd h.symm (Option.some_ne_none _)

theorem sized_commit {outvec : Bytes} {f : Bytes → (Except StatusCode Unit × ℕ) × Bytes}
    (h : (f outvec).2.length = outvec.length) : (commit outvec f).Sized outvec.length := by
  intro buf hbuf
  unfold commit at hbuf
  dsimp only at hbuf
  split_ifs at hbuf <;> exact Option.some.inj hbuf ▸ h

theorem sized_handleGetToken (challenge outvec : Bytes) :
    (self.handleGetToken (.ok (challenge, outvec))).Sized outvec.length := by
  cases hcollect : PlatformBuffers.collect self.platform with
  | error e =>
    rw [handleGetToken, hcollect]
    exact sized_error e _
  | ok claims =>
    rw [self.handleGetToken_eq hcollect]
    exact sized_commit (self.tokenOrZeros_tokenClosure challenge claims outvec).length_eq

theorem sized_handleGetTokenSize (buf outvec : Bytes) :
    (self.handleGetTokenSize (.ok buf) (.ok outvec)).Sized outvec.length := by
  rw [handleGetTokenSize_eq]
  cases readChallengeSize buf with
  | error e => exact sized_error e _
  | ok challengeSize =>
    dsimp only
    cases self.tokenSizeOf challengeSize with
    | error e => exact sized_error e _
    | ok tokenSize =>
      refine sized_commit ?_
      unfold writeSize
      split_ifs with h
      · exact List.length_replicate
      · refine length_copyAt ?_
        rw [length_toLeBytes]
        omega

/-- An empty vector has no bytes to write, wherever it is. -/
theorem memory_ofRaw {r : Reply} {base len : Usize} (h : r.Sized len.toNat) (w : Mem 32) :
    r.memory (.ofRaw base len) w = r.memory ⟨base, len⟩ w := by
  unfold Reply.memory
  cases hr : r.outvec with
  | none => rfl
  | some buf => exact write_ofRaw w base len (h buf hr)

/-! ## The call of a client -/

section

variable {σ : Type} [SpmCall σ] [LawfulSpm σ] {api : AccessApi (Hosted σ (Mem 32)) (Mem 32)}
  (m : ClientMemory) (perm : PermissionOracle) (caller : CallerAttributes) {v out : Slice}
  {c : Connection} {s : σ} (w : Mem 32)

/-- The call of a client function with the message type `ty`. -/
def attestRequest (ty : BitVec 16) (v out : Slice) : SfnApi.Request :=
  m.request perm caller .attestationService (.new ty 1 true 1 true) [⟨v.base, v.len⟩]
    [⟨out.base, out.len⟩]

/-- A client function with the message type `ty`: the length of its buffer, and the memory. -/
theorem callForLen_served (hapi : Serving api) (hs : Good s) {ty : BitVec 16} {k : ℤ}
    (hcp : validateCallParams (.new ty 1 true 1 true) = .ok (k, 1, 1))
    (h : (attestRequest m perm caller ty v out).Reaches s c) {r : Reply}
    (hr : (if k = 1001 then
        self.handleGetToken (.ok (w.read v.base v.len.toNat, w.read out.base out.len.toNat))
      else if k = 1002 then
        self.handleGetTokenSize (.ok (w.read v.base v.len.toNat))
          (.ok (w.read out.base out.len.toNat))
      else ⟨.error .notSupported, none, 0⟩) = r) (hsized : r.Sized out.len.toNat) :
    (callForLen (clientCallTo (self.callVia api) m perm caller ⟨s, w⟩) .attestationService
        (.new ty 1 true 1 true) [v] out,
      restAfter (self.callVia api) m perm caller ⟨s, w⟩ .attestationService
        (.new ty 1 true 1 true) [v] out) =
      ((statusFromRaw (intoPsaStatus r.result)).map fun _ => out.len, r.memory out w) := by
  obtain ⟨trace, hA⟩ := accepted_of_reaches hcp h
  have hty : 0 ≤ c.msg.msgType := hA.msgType ▸ (validateCallParams_ok hcp).1
  have hout : c.slice ⟨true, 0⟩ = .ofRaw out.base out.len := hA.slice_out (by decide : 0 < 1)
  have hans : Answers api (self.callVia api) c w r.result (r.memory out w) := by
    intro t ht
    have href : Follows api c w (self.callVia api c.msg t) _ := callVia_refines api hA.fresh hty ht
    obtain ⟨hresult, c', hat, -⟩ := href
    rw [call_of_accepted self hA w, hr] at hresult hat
    rw [hout, memory_ofRaw hsized] at hat
    exact ⟨hresult, c', hat⟩
  exact callForLen_of_served hapi [v] hs hcp h hans

/-- The result of `psa_initial_attest_get_token`, and the memory after it. -/
def clientToken (api : AccessApi (Hosted σ (Mem 32)) (Mem 32)) (s : σ) (v out : Slice) :
    Except StatusCode Usize × Mem 32 :=
  (psaInitialAttestGetToken (clientCallTo (self.callVia api) m perm caller ⟨s, w⟩) v out,
    restAfter (self.callVia api) m perm caller ⟨s, w⟩ .attestationService (.new 1001 1 true 1 true)
      [v] out)

/-- The result of `psa_initial_attest_get_token_size`, and the memory after it. -/
def clientTokenSize (api : AccessApi (Hosted σ (Mem 32)) (Mem 32)) (s : σ) (v out : Slice) :
    Except StatusCode ℕ × Mem 32 :=
  let rest := restAfter (self.callVia api) m perm caller ⟨s, w⟩ .attestationService
    (.new 1002 1 true 1 true) [v] out
  (psaInitialAttestGetTokenSize (clientCallTo (self.callVia api) m perm caller ⟨s, w⟩) rest v out,
    rest)

theorem clientToken_eq (hapi : Serving api) (hs : Good s)
    (h : (attestRequest m perm caller 1001 v out).Reaches s c) :
    self.clientToken m perm caller w api s v out = self.getToken v out w := by
  refine self.callForLen_served m perm caller w hapi hs (k := 1001) (by decide) h (if_pos rfl) ?_
  have hsized := self.sized_handleGetToken (w.read v.base v.len.toNat)
    (w.read out.base out.len.toNat)
  rwa [w.length_read] at hsized

omit [LawfulSpm σ] in
/-- The function for the size is the one for the length, but for its result. -/
theorem psaInitialAttestGetTokenSize_eq (call : PsaCall) (rest : Mem 32) (v out : Slice) :
    psaInitialAttestGetTokenSize call rest v out =
      (callForLen call .attestationService (.new 1002 1 true 1 true) [v] out).map fun _ =>
        fromLeBytes (rest.read out.base out.len.toNat) := by
  unfold psaInitialAttestGetTokenSize callForLen
  rw [List.map_singleton]
  dsimp only
  generalize call .attestationService (.new 1002 1 true 1 true) [⟨v.base, v.len⟩]
    [⟨out.base, out.len⟩] = x
  cases statusFromRaw x.1 with
  | error e => rfl
  | ok u => rfl

theorem clientTokenSize_eq (hapi : Serving api) (hs : Good s)
    (h : (attestRequest m perm caller 1002 v out).Reaches s c) :
    self.clientTokenSize m perm caller w api s v out = self.getTokenSize v out w := by
  have hsized := self.sized_handleGetTokenSize (w.read v.base v.len.toNat)
    (w.read out.base out.len.toNat)
  rw [w.length_read] at hsized
  have hserved := self.callForLen_served m perm caller w hapi hs (k := 1002) (by decide) h
    ((if_neg (by decide)).trans (if_pos rfl)) hsized
  obtain ⟨hresult, hrest⟩ := Prod.mk.inj hserved
  unfold clientTokenSize getTokenSize
  dsimp only
  rw [psaInitialAttestGetTokenSize_eq, hresult, hrest]
  cases statusFromRaw _ with
  | error e => rfl
  | ok u => rfl

end

end AttestService

/-! ## A client with a challenge of 32 bytes -/

namespace TokenClient

def challenge : Slice := ⟨0x28000000, 32⟩
def size : Slice := ⟨0x28000040, 4⟩
def token : Slice := ⟨0x28000100, 512⟩
def tokenSize : Slice := ⟨0x28000300, 4⟩

def anyPerm : PermissionOracle := fun _ _ _ _ => true

def request (ty : BitVec 16) (v out : Slice) : SfnApi.Request :=
  AttestService.attestRequest (clientAt 0x28001000) anyPerm .nsUnprivileged ty v out

def attest : ServiceProcess :=
  ⟨.attestationService, 1, 0x10000, 0x10100, 0x10000, 0x18000, 0x20000, 0x24000, 0x20000, 0x24000⟩

def ipc : SpmIpc 1 := .new OneProcess.platform (Vector.replicate 1 attest) (Vector.replicate 8 ⟨0, 0⟩)

def conn (req : SfnApi.Request) : Connection :=
  (((acceptCall req.mem req.perm req.handle req.ctrlParam req.inVec req.outVec
    req.caller).1).toOption.map Prod.fst).getD default

theorem reaches_ipc {req : SfnApi.Request}
    (h : (acceptCall req.mem req.perm req.handle req.ctrlParam req.inVec req.outVec
      req.caller).1.toBool = true) (he : (SpmIpc.enter (conn req) ipc).1 = .ok true) :
    req.Reaches ipc (conn req) := by
  refine ⟨?_, true, _, Prod.ext he rfl⟩
  rw [conn]
  cases hacc : (acceptCall req.mem req.perm req.handle req.ctrlParam req.inVec req.outVec
    req.caller).1 with
  | error e =>
    rw [hacc] at h
    cases h
  | ok x => exact ⟨x.2, rfl⟩

end TokenClient

end RuSpe
