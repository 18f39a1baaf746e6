import RuSpe.Psa.Types

set_option autoImplicit false

/-!
# The client functions

The PSA functions a client calls, over the `psa_call` they go through. A `psa_call` gets the
descriptors and leaves those of the output vectors changed or not.

* `PsaCall`, `statusFromRaw`;
* `psaInitialAttestGetToken`, `psaHashCompute`, `psaSignHash`.
-/

namespace RuSpe

/-- A base and a length in memory: `RawVec`, and the slices made from it. -/
structure Slice where
  base : Usize
  len : Usize
  deriving DecidableEq, Repr

/-- `PsaApiCallInterface::psa_call`: the status, and the output descriptors as they are left. -/
abbrev PsaCall := ServiceHandle → CtrlParam → List FFInVec → List FFOutVec → ℤ × List FFOutVec

/-- `status_from_raw`. -/
def statusFromRaw (status : ℤ) : Except StatusCode Unit :=
  match StatusCode.tryFrom status with
  | .ok .success => .ok ()
  | .ok status => .error status
  | .error _ => .error .communicationFailure

/-- **A status is read back as it was returned.** -/
theorem statusFromRaw_intoPsaStatus (r : Except StatusCode Unit) :
    statusFromRaw (intoPsaStatus r) =
      if r = .error .success then .ok () else r := by
  cases r with
  | ok u => rfl
  | error e => cases e <;> rfl

/-- A client function with one output vector that returns `out_vec[0].len`. -/
def callForLen (call : PsaCall) (handle : ServiceHandle) (ctrlParam : CtrlParam)
    (inVec : List Slice) (out : Slice) : Except StatusCode Usize :=
  let (status, outVec) := call handle ctrlParam (inVec.map fun v => ⟨v.base, v.len⟩)
    [⟨out.base, out.len⟩]
  match statusFromRaw status with
  | .error e => .error e
  | .ok () => .ok ((outVec[0]?).elim 0 FFOutVec.len)

/-- `psa_initial_attest_get_token`. -/
def psaInitialAttestGetToken (call : PsaCall) (challenge tokenBuf : Slice) :
    Except StatusCode Usize :=
  callForLen call .attestationService (.new 1001 1 true 1 true) [challenge] tokenBuf

/-- `psa_hash_compute`; `iov` is the packed description of the operation. -/
def psaHashCompute (call : PsaCall) (iov input hash : Slice) : Except StatusCode Usize :=
  callForLen call .crypto (.new 1 2 true 1 true) [iov, input] hash

/-- `psa_sign_hash`; `iov` is the packed description of the operation. -/
def psaSignHash (call : PsaCall) (iov hash signature : Slice) : Except StatusCode Usize :=
  callForLen call .crypto (.new 1 2 true 1 true) [iov, hash] signature

end RuSpe
