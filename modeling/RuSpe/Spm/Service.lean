import RuSpe.Spm.Svc

set_option autoImplicit false

/-!
# Services

The code of a service is not known, so it is any finite tree of what it can ask of the SPM, each
question with a branch for every answer. Computation between the questions, and what the service
reads from its vectors, is in the choice of the branches.

* `Outcome`, `Service`;
* `Service.run`: the tree executed on an SPM.
-/

namespace RuSpe

/-- What a service or a closure ends with: the status of the service, the written length a closure
reports, and a number for whatever else it passes on. -/
structure Outcome where
  status : Except StatusCode Unit
  written : Usize
  data : ℕ

/-- A finite behaviour of service code. -/
inductive Service where
  | done (outcome : Outcome)
  /-- `access_invec` with a closure. -/
  | accessInvec (msgHandle : ServiceHandle) (invecIdx : BitVec 32) (f : Slice → Service)
      (next : Except StatusCode Outcome → Service)
  /-- `access_outvec` with a closure. -/
  | accessOutvec (msgHandle : ServiceHandle) (outvecIdx : BitVec 32) (f : Slice → Service)
      (next : Except StatusCode Outcome → Service)
  /-- `access_invec_outvec` with a closure. -/
  | accessInvecOutvec (msgHandle : ServiceHandle) (invecIdx outvecIdx : BitVec 32)
      (f : Slice → Slice → Service) (next : Except StatusCode Outcome → Service)
  /-- `psa_call` through `SfnApi::call`, with what the called service does. -/
  | psaCall (req : SfnApi.Request) (initEntry : Service) (callEntry : PsaMsg → Service)
      (next : Except StatusCode Unit → List FFOutVec → Service)
  /-- An SVC with any number and registers; `mem`, `perm` and the two entries are for a `psa_call`
  made this way. -/
  | svc (svcNum : BitVec 8) (frame : SvcStackFrame) (mem : Memory) (perm : PermissionOracle)
      (initEntry : Service) (callEntry : PsaMsg → Service) (next : SvcStackFrame → Service)

namespace Service

variable {σ : Type} [SpmCall σ]

/-- What the service does to the SPM, and what it ends with. -/
def run : Service → σ → Outcome × σ
  | .done outcome, s => (outcome, s)
  | .accessInvec msgHandle invecIdx f next, s =>
    let (r, s) := SfnApi.accessInvec msgHandle invecIdx (fun slice s => run (f slice) s) s
    run (next r) s
  | .accessOutvec msgHandle outvecIdx f next, s =>
    let (r, s) := SfnApi.accessOutvec msgHandle outvecIdx
      (fun slice s =>
        let (outcome, s) := run (f slice) s
        ((outcome, outcome.written), s)) s
    run (next r) s
  | .accessInvecOutvec msgHandle invecIdx outvecIdx f next, s =>
    let (r, s) := SfnApi.accessInvecOutvec msgHandle invecIdx outvecIdx
      (fun invec outvec s =>
        let (outcome, s) := run (f invec outvec) s
        ((outcome, outcome.written), s)) s
    run (next r) s
  | .psaCall req initEntry callEntry next, s =>
    let (r, outVecs, s) := SfnApi.call req (fun s => (run initEntry s).2)
      (fun msg s =>
        let (outcome, s) := run (callEntry msg) s
        (outcome.status, s)) s
    run (next r outVecs) s
  | .svc svcNum frame mem perm initEntry callEntry next, s =>
    let (frame, s) := svcHandlerDispatch svcNum frame
      (fun handle ctrlParam inVec outVec caller s =>
        let (r, _, s) := SfnApi.call ⟨mem, perm, handle, ctrlParam, inVec, outVec, caller⟩
          (fun s => (run initEntry s).2)
          (fun msg s =>
            let (outcome, s) := run (callEntry msg) s
            (outcome.status, s)) s
        (r, s)) s
    run (next frame) s

end Service

end RuSpe
