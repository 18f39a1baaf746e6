import RuSpe.Spm.SpmCall

set_option autoImplicit false

/-!
# The SVC interface

Services in their own process reach the SPM by an SVC with their arguments in `r0` to `r3` of the
stacked frame, and find the answer there.

* `SvcStackFrame`, `setError`, `setSuccess`, `setRawVec`;
* `handleSvcWithSpm`, `svcHandlerDispatch`;
* `checkSvcResult`, **`checkSvcResult_toRaw`**: the status survives the register.
-/

namespace RuSpe

/-! ## Numbers -/

abbrev svcProcessExit : BitVec 8 := 0
abbrev svcPsaAccessVec : BitVec 8 := 1
abbrev svcPsaReleaseVec : BitVec 8 := 2
abbrev svcStartProcess : BitVec 8 := 3
abbrev svcPsaCall : BitVec 8 := 4
abbrev svcPsaVersion : BitVec 8 := 5
abbrev svcPsaCallReturn : BitVec 8 := 7

/-! ## The stacked frame -/

/-- `SvcStackFrame`: the eight words an exception stacks. -/
structure SvcStackFrame where
  r0 : Usize
  r1 : Usize
  r2 : Usize
  r3 : Usize
  r12 : Usize
  lr : Usize
  pc : Usize
  xpsr : Usize
  deriving DecidableEq, Repr

/-- `service_handle_from_raw`. -/
def serviceHandleFromRaw (raw : Usize) : Except StatusCode ServiceHandle :=
  if raw = ServiceHandle.internalTrustedStorageService.val then .ok .internalTrustedStorageService
  else if raw = ServiceHandle.crypto.val then .ok .crypto
  else if raw = ServiceHandle.attestationService.val then .ok .attestationService
  else .error .invalidHandle

@[simp] theorem serviceHandleFromRaw_val (h : ServiceHandle) : serviceHandleFromRaw h.val = .ok h := by
  cases h <;> rfl

namespace SvcStackFrame

variable (frame : SvcStackFrame)

/-- `set_status`. -/
def setStatus (status : StatusCode) : SvcStackFrame := { frame with r0 := status.toRaw }

/-- `set_success`. -/
def setSuccess : SvcStackFrame := frame.setStatus .success

/-- `set_error`. -/
def setError (status : StatusCode) : SvcStackFrame :=
  setStatus { frame with r1 := 0, r2 := 0, r3 := 0 } status

/-- `set_raw_vec`. -/
def setRawVec (raw : Slice) : SvcStackFrame :=
  setSuccess { frame with r1 := raw.base, r2 := raw.len, r3 := 0 }

end SvcStackFrame

/-! ## The handler -/

variable {σ : Type} [SpmCall σ]

/-- The arguments of `SfnApi::call` that an SVC frame carries, over a call of the closure API. -/
abbrev SfnCall (σ : Type) :=
  ServiceHandle → CtrlParam → Usize → Usize → CallerAttributes → σ → Except StatusCode Unit × σ

/-- The branch `SVC_PSA_ACCESS_VEC` of `handle_svc_with_spm`. -/
def handleAccessVec (handle : ServiceHandle) (frame : SvcStackFrame) (s : σ) : SvcStackFrame × σ :=
  let isOutvec := frame.r2 != 0
  let (result, s) :=
    if isOutvec then prepareOutvecRaw handle frame.r1 s else prepareInvecRaw handle frame.r1 s
  match result with
  | .ok raw => (frame.setRawVec raw, SpmCall.mapVec isOutvec frame.r1 raw.base raw.len s)
  | .error status => (frame.setError status, s)

/-- The branch `SVC_PSA_RELEASE_VEC` of `handle_svc_with_spm`. -/
def handleReleaseVec (handle : ServiceHandle) (frame : SvcStackFrame) (s : σ) : SvcStackFrame × σ :=
  let isOutvec := frame.r2 != 0
  let (result, s) :=
    if isOutvec then finishOutvecRaw handle frame.r1 frame.r3 s
    else finishInvecRaw handle frame.r1 s
  match result with
  | .ok () => (frame.setSuccess, SpmCall.unmapVec isOutvec frame.r1 s)
  | .error status => (frame.setError status, s)

/-- `handle_svc_with_spm`: whether the SVC was handled, the frame and the state after it. -/
def handleSvcWithSpm (svcNum : BitVec 8) (frame : SvcStackFrame) (sfnCall : SfnCall σ) (s : σ) :
    Bool × SvcStackFrame × σ :=
  match serviceHandleFromRaw frame.r0 with
  | .error status => (true, frame.setError status, s)
  | .ok handle =>
    if svcNum = svcPsaAccessVec then (true, handleAccessVec handle frame s)
    else if svcNum = svcPsaReleaseVec then (true, handleReleaseVec handle frame s)
    else if svcNum = svcPsaCall then
      let (result, s) := sfnCall handle ⟨frame.r1⟩ frame.r2 frame.r3 .secureUnprivileged s
      match result with
      | .ok () => (true, frame.setSuccess, s)
      | .error status => (true, frame.setError status, s)
    else if svcNum = svcPsaVersion then
      (true, { frame with r0 := (SpmCall.version handle s).getD 0 }, s)
    else (false, frame, s)

/-- `svc_handler_dispatch`, with the SPM in place. -/
def svcHandlerDispatch (svcNum : BitVec 8) (frame : SvcStackFrame) (sfnCall : SfnCall σ) (s : σ) :
    SvcStackFrame × σ :=
  match handleSvcWithSpm svcNum frame sfnCall s with
  | (true, frame, s) => (frame, s)
  | (false, frame, s) => (frame.setStatus .notSupported, s)

/-! ## The caller's side -/

/-- `check_svc_result`. -/
def checkSvcResult (raw : Usize) : Except StatusCode Unit :=
  match StatusCode.tryFrom raw.toInt with
  | .ok .success => .ok ()
  | .ok status => .error status
  | .error _ => .error .communicationFailure

/-- **A status that goes through a register is read back as it was.** -/
theorem checkSvcResult_toRaw (status : StatusCode) :
    checkSvcResult status.toRaw = if status = .success then .ok () else .error status := by
  rw [checkSvcResult, StatusCode.toRaw_toInt, StatusCode.tryFrom_toPsaStatus]
  cases status <;> rfl

end RuSpe
