import RuSpe.Spm.Svc

set_option autoImplicit false

/-!
# The client side of the SVC interface

What a service in its own process runs: it loads `r0` to `r3`, issues an SVC and reads the answer
from the same registers. The SVC is a parameter; `svcCall` is the one the SPM handles.

* `SvcCall`, `svcCall`;
* `svcAccessVec`, `svcReleaseVec`;
* `SvcApi.accessInvec`, `SvcApi.accessOutvec`, `SvcApi.accessInvecOutvec`.
-/

namespace RuSpe

/-- `svc_call`: what an SVC with `r0` to `r3` does, and `r0` to `r3` after it. -/
abbrev SvcCall (α : Type) :=
  BitVec 8 → Usize → Usize → Usize → Usize → α → (Usize × Usize × Usize × Usize) × α

/-- An SVC handled by the SPM. The other words of the stacked frame are those of `others`. -/
def svcCall {σ : Type} [SpmCall σ] (others : SvcStackFrame) (f : SfnCall σ) : SvcCall σ :=
  fun svcNum arg0 arg1 arg2 arg3 s =>
    let (frame, s) := svcHandlerDispatch svcNum
      { others with r0 := arg0, r1 := arg1, r2 := arg2, r3 := arg3 } f s
    ((frame.r0, frame.r1, frame.r2, frame.r3), s)

variable {α ρ : Type} (svc : SvcCall α)

/-- The body shared by `svc_access_invec` and `svc_access_outvec`, over the flag in `r2`. -/
def svcAccessVec (isOutvec handle idx : Usize) (s : α) : Except StatusCode Slice × α :=
  let ((status, base, len, _), s) := svc svcPsaAccessVec handle idx isOutvec 0 s
  match checkSvcResult status with
  | .error e => (.error e, s)
  | .ok () => (.ok (.ofRaw base len), s)

/-- `svc_access_invec`. -/
def svcAccessInvec : Usize → Usize → α → Except StatusCode Slice × α := svcAccessVec svc 0

/-- `svc_access_outvec`. -/
def svcAccessOutvec : Usize → Usize → α → Except StatusCode Slice × α := svcAccessVec svc 1

/-- The body shared by `svc_release_invec` and `svc_release_outvec`. -/
def svcReleaseVec (isOutvec handle idx writtenLen : Usize) (s : α) : Except StatusCode Unit × α :=
  let ((status, _, _, _), s) := svc svcPsaReleaseVec handle idx isOutvec writtenLen s
  (checkSvcResult status, s)

/-- `svc_release_invec`. -/
def svcReleaseInvec (handle idx : Usize) : α → Except StatusCode Unit × α :=
  svcReleaseVec svc 0 handle idx 0

/-- `svc_release_outvec`. -/
def svcReleaseOutvec (handle idx writtenLen : Usize) : α → Except StatusCode Unit × α :=
  svcReleaseVec svc 1 handle idx writtenLen

namespace SvcApi

/-- `SvcApi::access_invec`. -/
def accessInvec (msgHandle : ServiceHandle) (invecIdx : BitVec 32) (f : Slice → α → ρ × α) (s : α) :
    Except StatusCode ρ × α :=
  match svcAccessInvec svc msgHandle.val invecIdx s with
  | (.error e, s) => (.error e, s)
  | (.ok invec, s) =>
    let (result, s) := f invec s
    match svcReleaseInvec svc msgHandle.val invecIdx s with
    | (.error e, s) => (.error e, s)
    | (.ok (), s) => (.ok result, s)

/-- `SvcApi::access_outvec`. -/
def accessOutvec (msgHandle : ServiceHandle) (outvecIdx : BitVec 32)
    (f : Slice → α → (ρ × Usize) × α) (s : α) : Except StatusCode ρ × α :=
  match svcAccessOutvec svc msgHandle.val outvecIdx s with
  | (.error e, s) => (.error e, s)
  | (.ok outvec, s) =>
    let ((result, writtenLen), s) := f outvec s
    match svcReleaseOutvec svc msgHandle.val outvecIdx writtenLen s with
    | (.error e, s) => (.error e, s)
    | (.ok (), s) => (.ok result, s)

/-- `SvcApi::access_invec_outvec`. -/
def accessInvecOutvec (msgHandle : ServiceHandle) (invecIdx outvecIdx : BitVec 32)
    (f : Slice → Slice → α → (ρ × Usize) × α) (s : α) : Except StatusCode ρ × α :=
  match svcAccessInvec svc msgHandle.val invecIdx s with
  | (.error e, s) => (.error e, s)
  | (.ok invec, s) =>
    match svcAccessOutvec svc msgHandle.val outvecIdx s with
    | (.error e, s) => (.error e, s)
    | (.ok outvec, s) =>
      let ((result, writtenLen), s) := f invec outvec s
      match svcReleaseOutvec svc msgHandle.val outvecIdx writtenLen s with
      | (.error e, s) => (.error e, s)
      | (.ok (), s) =>
        match svcReleaseInvec svc msgHandle.val invecIdx s with
        | (.error e, s) => (.error e, s)
        | (.ok (), s) => (.ok result, s)

end SvcApi

end RuSpe
