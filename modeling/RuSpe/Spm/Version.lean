import RuSpe.Spm.SvcApi
import RuSpe.Spm.SpmFn

set_option autoImplicit false

/-!
# Asking for the version of a service

Three clients ask the SPM for a version: the veneer, a service in its own process by an SVC, and a
secure service linked to the SPM. The first two agree. The third calls itself.

* `psaVersionImpl`, `IpcPsaClient.psaVersion`, `InternalPsaClient.psaVersion`;
* `versionOf`: the answer they should give;
* **`version_queries`**: who gives it.
-/

namespace RuSpe

variable {σ α : Type}

/-- `psa_version_impl`, the body of the veneer; `none` for an SPM that is not set up. -/
def psaVersionImpl [SpmCall σ] (spm : Option σ) (serviceId : BitVec 32) : BitVec 32 :=
  match ServiceHandle.tryFrom serviceId with
  | .error _ => 0
  | .ok handle =>
    match spm with
    | none => 0
    | some spm => (SpmCall.version handle spm).getD 0

/-- `IpcPsaClient::psa_version`. -/
def IpcPsaClient.psaVersion (svc : SvcCall α) (serviceId : BitVec 32) (s : α) : BitVec 32 × α :=
  match ServiceHandle.tryFrom serviceId with
  | .error _ => (0, s)
  | .ok handle =>
    let ((version, _, _, _), s) := svc svcPsaVersion handle.val 0 0 0 s
    (version, s)

/-- `InternalPsaClient::psa_version`, with at most `fuel` calls of itself. Its body is
`Self::psa_version(service_id)`, and the type has no other function of that name. -/
def InternalPsaClient.psaVersion : ℕ → BitVec 32 → Option (BitVec 32)
  | 0, _ => none
  | fuel + 1, serviceId => InternalPsaClient.psaVersion fuel serviceId

/-- The version of the service with this id; zero if there is no such handle or no such service. -/
def versionOf [SpmCall σ] (s : σ) (serviceId : BitVec 32) : BitVec 32 :=
  let known : List ServiceHandle := [.internalTrustedStorageService, .crypto, .attestationService]
  ((known.find? (·.val = serviceId)).bind fun handle => SpmCall.version handle s).getD 0

/-- All clients return, and with the same version. -/
def VersionsAgree [SpmCall σ] (svc : SvcCall σ) (s : σ) (serviceId : BitVec 32) : Prop :=
  (∃ fuel, InternalPsaClient.psaVersion fuel serviceId = some (versionOf s serviceId)) ∧
    (IpcPsaClient.psaVersion svc serviceId s).1 = versionOf s serviceId ∧
    psaVersionImpl (some s) serviceId = versionOf s serviceId

/-! ## What the clients answer -/

theorem InternalPsaClient.psaVersion_eq_none (fuel : ℕ) (serviceId : BitVec 32) :
    InternalPsaClient.psaVersion fuel serviceId = none := by
  induction fuel with
  | zero => rfl
  | succ fuel ih => exact ih

theorem not_versionsAgree [SpmCall σ] (svc : SvcCall σ) (s : σ) (serviceId : BitVec 32) :
    ¬ VersionsAgree svc s serviceId := by
  rintro ⟨⟨fuel, h⟩, -⟩
  rw [InternalPsaClient.psaVersion_eq_none] at h
  cases h

section

variable [SpmCall σ] (s : σ) (serviceId : BitVec 32)

/-- `ServiceHandle::try_from` finds the handle if there is one. -/
theorem versionOf_eq : versionOf s serviceId =
    match ServiceHandle.tryFrom serviceId with
    | .error _ => 0
    | .ok handle => (SpmCall.version handle s).getD 0 := by
  have hval : ∀ handle : ServiceHandle, versionOf s handle.val =
      (SpmCall.version handle s).getD 0 := by
    intro handle
    cases handle <;> rfl
  cases ht : ServiceHandle.tryFrom serviceId with
  | ok handle =>
    obtain rfl := ServiceHandle.val_of_tryFrom ht
    exact hval handle
  | error e =>
    have hne : ∀ handle : ServiceHandle, handle.val ≠ serviceId := by
      rintro handle rfl
      rw [ServiceHandle.tryFrom_val] at ht
      cases ht
    simp [versionOf, hne]

theorem psaVersionImpl_some : psaVersionImpl (some s) serviceId = versionOf s serviceId := by
  rw [psaVersionImpl, versionOf_eq]

/-- The SVC leaves the version in `r0`, and the SPM as it was. -/
theorem svcCall_version (others : SvcStackFrame) (f : SfnCall σ) (handle : ServiceHandle) :
    svcCall others f svcPsaVersion handle.val 0 0 0 s =
      (((SpmCall.version handle s).getD 0, 0, 0, 0), s) := by
  have hd : ∀ frame : SvcStackFrame, frame.r0 = handle.val →
      svcHandlerDispatch svcPsaVersion frame f s =
        ({ frame with r0 := (SpmCall.version handle s).getD 0 }, s) := by
    intro frame hr
    rw [svcHandlerDispatch, handleSvcWithSpm, hr, serviceHandleFromRaw_val]
    rfl
  rw [svcCall, hd _ rfl]

theorem ipcPsaVersion_eq (others : SvcStackFrame) (f : SfnCall σ) :
    IpcPsaClient.psaVersion (svcCall others f) serviceId s = (versionOf s serviceId, s) := by
  rw [IpcPsaClient.psaVersion, versionOf_eq]
  cases ServiceHandle.tryFrom serviceId with
  | error e => rfl
  | ok handle =>
    dsimp only
    rw [svcCall_version]

end

/-- **The veneer and the SVC give the version of the service, zero for an id that is not known, and
leave the SPM as it was. The client of the secure services never returns.** -/
theorem version_queries [SpmCall σ] (others : SvcStackFrame) (f : SfnCall σ) (s : σ)
    (serviceId : BitVec 32) :
    ¬ VersionsAgree (svcCall others f) s serviceId ∧
      (∀ fuel, InternalPsaClient.psaVersion fuel serviceId = none) ∧
      IpcPsaClient.psaVersion (svcCall others f) serviceId s = (versionOf s serviceId, s) ∧
      psaVersionImpl (some s) serviceId = versionOf s serviceId :=
  ⟨not_versionsAgree _ s serviceId, fun fuel => InternalPsaClient.psaVersion_eq_none fuel serviceId,
    ipcPsaVersion_eq s serviceId others f, psaVersionImpl_some s serviceId⟩

/-- The version of the crypto service of an SPM that has one. -/
theorem not_versionsAgree_crypto :
    ¬ VersionsAgree (svcCall ⟨0, 0, 0, 0, 0, 0, 0, 0⟩ fun _ _ _ _ _ s => (.ok (), s))
      (SpmFn.new fun _ => some 1) ServiceHandle.crypto.val :=
  not_versionsAgree _ _ _

end RuSpe
