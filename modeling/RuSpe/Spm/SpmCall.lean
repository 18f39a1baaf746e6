import RuSpe.Psa.Client
import RuSpe.Spm.Accepted
import RuSpe.Spm.ConnectionArray

set_option autoImplicit false

/-!
# The operations of an SPM

An SPM is a state behind a lock. Closures and services that run inside an operation are functions
that take the state and return it, so that they may call back into the SPM. `SpmCall` is the
interface both SPMs implement; on it rest the raw vector operations of the SVC path and the closure
API `SfnApi`.

* `ConnStore`, `withActiveConnection`: the lock around the connection stack;
* `SpmCall`: the trait;
* `withValidatedConnection`, `prepareRaw`, `finishInvecRaw`, `finishOutvecRaw`;
* `SfnApi.accessInvec`, `SfnApi.accessOutvec`, `SfnApi.accessInvecOutvec`, `SfnApi.call`.
-/

namespace RuSpe

/-! ## The active connection -/

/-- A state with a lock around its connection stack. -/
class ConnStore (σ : Type) where
  tryLock {ρ : Type} (f : ConnectionArray → ρ × ConnectionArray) : σ → Except Unit ρ × σ

section ConnStore

variable {σ ρ : Type} [ConnStore σ]

/-- The first half of `with_active_connection`: take the connection out. -/
def takeActive (s : σ) : Except SpmError (ℕ × Connection) × σ :=
  match ConnStore.tryLock ConnectionArray.takeActiveConnection s with
  | (.ok r, s) => (r, s)
  | (.error (), s) => (.error .mutexBusy, s)

/-- The second half: put it back. -/
def restoreActive (index : ℕ) (connection : Connection) (s : σ) : Except SpmError Unit × σ :=
  match ConnStore.tryLock (·.restoreActiveConnection index connection) s with
  | (.ok r, s) => (r, s)
  | (.error (), s) => (.error .mutexBusy, s)

/-- `with_active_connection`, the same text in `SpmFn` and `SpmIpc`. The closure works on the
connection it is given while the rest of the state may change under it. -/
def withActiveConnection (f : Connection → σ → ρ × Connection × σ) (s : σ) :
    Except SpmError ρ × σ :=
  match takeActive s with
  | (.error e, s) => (.error e, s)
  | (.ok (index, connection), s) =>
    let (result, connection, s) := f connection s
    match restoreActive index connection s with
    | (.error e, s) => (.error e, s)
    | (.ok (), s) => (.ok result, s)

end ConnStore

/-- The laws of the lock: `conns` is the stack behind it, `Free` says that nobody holds it. -/
class LawfulConnStore (σ : Type) [ConnStore σ] where
  conns : σ → ConnectionArray
  put : ConnectionArray → σ → σ
  Free : σ → Prop
  conns_put (a : ConnectionArray) (s : σ) : conns (put a s) = a
  free_put {s : σ} (a : ConnectionArray) (h : Free s) : Free (put a s)
  put_put (a b : ConnectionArray) (s : σ) : put a (put b s) = put a s
  put_conns {s : σ} (h : Free s) : put (conns s) s = s
  tryLock_eq {s : σ} {ρ : Type} (h : Free s) (f : ConnectionArray → ρ × ConnectionArray) :
    ConnStore.tryLock f s = (.ok (f (conns s)).1, put (f (conns s)).2 s)

section LawfulConnStore

variable {σ : Type} [ConnStore σ] [LawfulConnStore σ] {s : σ}

open LawfulConnStore (conns put Free)

/-- **The active connection is taken out if there is one.** -/
theorem takeActive_eq (hf : Free s) (hw : (conns s).Wf) :
    takeActive s =
      if (conns s).Active then
        (.ok ((conns s).topConnection - 1, (conns s).topSlot), put (conns s).lent s)
      else if (conns s).topConnection = 0 then (.error .noActiveConnection, s)
      else (.error .corruptedConnectionStack, s) := by
  rw [takeActive, LawfulConnStore.tryLock_eq hf, ConnectionArray.takeActiveConnection_eq hw]
  split_ifs
  · rfl
  · rw [LawfulConnStore.put_conns hf]
  · rw [LawfulConnStore.put_conns hf]

theorem restoreActive_eq (hf : Free s) (index : ℕ) (c : Connection) :
    restoreActive index c s =
      (((conns s).restoreActiveConnection index c).1,
        put ((conns s).restoreActiveConnection index c).2 s) := by
  rw [restoreActive, LawfulConnStore.tryLock_eq hf]

end LawfulConnStore

/-! ## The trait -/

/-- What an SPM does around service code: `enter` is `call` up to the first instruction of the
service and says whether the service must be initialised first, `leave` is the rest of `call`. -/
class SpmCall (σ : Type) extends ConnStore σ where
  enter (connection : Connection) : σ → Except StatusCode Bool × σ
  leave : σ → σ
  mapVec (isOutvec : Bool) (vecIdx : BitVec 32) (base size : Usize) : σ → σ
  unmapVec (isOutvec : Bool) (vecIdx : BitVec 32) : σ → σ
  version (handle : ServiceHandle) : σ → Option (BitVec 32)

variable {σ ρ : Type} [SpmCall σ]

/-- `SpmCall::call`, over what the initialisation and the call of the service do. -/
def SpmCall.call (connection : Connection) (initProcess : σ → σ)
    (callProcess : PsaMsg → σ → Except StatusCode Unit × σ) (s : σ) : Except StatusCode Unit × σ :=
  match SpmCall.enter connection s with
  | (.error e, s) => (.error e, s)
  | (.ok shouldInit, s) =>
    let s := if shouldInit then initProcess s else s
    let (result, s) := callProcess connection.msg s
    (result, SpmCall.leave s)

/-! ## Using the vectors of the active connection -/

/-- `with_validated_connection`, and `with_connection_for_handle`. -/
def withValidatedConnection (msgHandle : ServiceHandle)
    (f : Connection → σ → Except StatusCode ρ × Connection × σ) (s : σ) : Except StatusCode ρ × σ :=
  let body (connection : Connection) (s : σ) : Except StatusCode ρ × Connection × σ :=
    if connection.msg.handle ≠ msgHandle then (.error .invalidHandle, connection, s)
    else if connection.msg.msgType < 0 then (.error .programmerError, connection, s)
    else f connection s
  match withActiveConnection body s with
  | (.ok result, s) => (result, s)
  | (.error _, s) => (.error .communicationFailure, s)

/-- `slice::from_raw_parts`; an empty one is `&[]`. -/
def Slice.ofRaw (base len : Usize) : Slice := if len = 0 then ⟨0, 0⟩ else ⟨base, len⟩

/-- The body shared by `prepare_invec_raw` and `prepare_outvec_raw`. -/
def prepareRaw (isOutvec : Bool) (msgHandle : ServiceHandle) (idx : BitVec 32) (s : σ) :
    Except StatusCode Slice × σ :=
  withValidatedConnection msgHandle (fun connection s =>
    match prepare connection isOutvec idx with
    | (.error e, connection) => (.error e, connection, s)
    | (.ok (_, len, base), connection) => (.ok ⟨base, len⟩, connection, s)) s

/-- `prepare_invec_raw`. -/
def prepareInvecRaw : ServiceHandle → BitVec 32 → σ → Except StatusCode Slice × σ :=
  prepareRaw false

/-- `prepare_outvec_raw`. -/
def prepareOutvecRaw : ServiceHandle → BitVec 32 → σ → Except StatusCode Slice × σ :=
  prepareRaw true

/-- `finish_invec_raw`. -/
def finishInvecRaw (msgHandle : ServiceHandle) (invecIdx : BitVec 32) (s : σ) :
    Except StatusCode Unit × σ :=
  withValidatedConnection msgHandle (fun connection s =>
    let (result, connection) := markInvecUnmapped connection invecIdx.toNat
    (result, connection, s)) s

/-- `finish_outvec_raw`. -/
def finishOutvecRaw (msgHandle : ServiceHandle) (outvecIdx : BitVec 32) (writtenLen : Usize)
    (s : σ) : Except StatusCode Unit × σ :=
  withValidatedConnection msgHandle (fun connection s =>
    let index := outvecIdx.toNat
    let outLen := (connection.msg.outSize[index]?).elim 0 (·.unwrapOr 0)
    let (result, connection) := commitOutvecWrite connection index outLen writtenLen
    (result, connection, s)) s

/-! ## The closure API -/

/-- `with_mapped_invec`. -/
def withMappedInvec (connection : Connection) (invecIdx : BitVec 32) (f : Slice → σ → ρ × σ)
    (s : σ) : Except StatusCode ρ × Connection × σ :=
  match prepareInvec connection invecIdx with
  | (.error e, connection) => (.error e, connection, s)
  | (.ok (index, inLen, base), connection) =>
    let (result, s) := f (.ofRaw base inLen) s
    match markInvecUnmapped connection index with
    | (.error e, connection) => (.error e, connection, s)
    | (.ok (), connection) => (.ok result, connection, s)

/-- `with_mapped_outvec`. -/
def withMappedOutvec (connection : Connection) (outvecIdx : BitVec 32)
    (f : Slice → σ → (ρ × Usize) × σ) (s : σ) : Except StatusCode ρ × Connection × σ :=
  match prepareOutvec connection outvecIdx with
  | (.error e, connection) => (.error e, connection, s)
  | (.ok (index, outLen, base), connection) =>
    let ((result, writtenLen), s) := f (.ofRaw base outLen) s
    match commitOutvecWrite connection index outLen writtenLen with
    | (.error e, connection) => (.error e, connection, s)
    | (.ok (), connection) => (.ok result, connection, s)

/-- The closure of `SfnApi::access_invec_outvec`. -/
def withMappedInvecOutvec (connection : Connection) (invecIdx outvecIdx : BitVec 32)
    (f : Slice → Slice → σ → (ρ × Usize) × σ) (s : σ) : Except StatusCode ρ × Connection × σ :=
  match prepareInvec connection invecIdx with
  | (.error e, connection) => (.error e, connection, s)
  | (.ok (inIndex, inLen, inBase), connection) =>
    match prepareOutvec connection outvecIdx with
    | (.error e, connection) => (.error e, connection, s)
    | (.ok (outIndex, outLen, outBase), connection) =>
      let ((result, writtenLen), s) := f (.ofRaw inBase inLen) (.ofRaw outBase outLen) s
      match commitOutvecWrite connection outIndex outLen writtenLen with
      | (.error e, connection) => (.error e, connection, s)
      | (.ok (), connection) =>
        match markInvecUnmapped connection inIndex with
        | (.error e, connection) => (.error e, connection, s)
        | (.ok (), connection) => (.ok result, connection, s)

namespace SfnApi

/-- `SfnApi::access_invec`. -/
def accessInvec (msgHandle : ServiceHandle) (invecIdx : BitVec 32) (f : Slice → σ → ρ × σ) :
    σ → Except StatusCode ρ × σ :=
  withValidatedConnection msgHandle fun connection => withMappedInvec connection invecIdx f

/-- `SfnApi::access_outvec`. -/
def accessOutvec (msgHandle : ServiceHandle) (outvecIdx : BitVec 32)
    (f : Slice → σ → (ρ × Usize) × σ) : σ → Except StatusCode ρ × σ :=
  withValidatedConnection msgHandle fun connection => withMappedOutvec connection outvecIdx f

/-- `SfnApi::access_invec_outvec`. -/
def accessInvecOutvec (msgHandle : ServiceHandle) (invecIdx outvecIdx : BitVec 32)
    (f : Slice → Slice → σ → (ρ × Usize) × σ) : σ → Except StatusCode ρ × σ :=
  withValidatedConnection msgHandle fun connection =>
    withMappedInvecOutvec connection invecIdx outvecIdx f

/-- What a client passes to `psa_call`, with the memory it lies in and the platform's answers. -/
structure Request where
  mem : Memory
  perm : PermissionOracle
  handle : ServiceHandle
  ctrlParam : CtrlParam
  inVec : Usize
  outVec : Usize
  caller : CallerAttributes

/-- `SfnApi::call`. The descriptors of the output vectors are returned as the call leaves them in
the caller's memory; a call that is not accepted leaves all of that memory alone. -/
def call (req : Request) (initProcess : σ → σ)
    (callProcess : PsaMsg → σ → Except StatusCode Unit × σ) (s : σ) :
    Except StatusCode Unit × List FFOutVec × σ :=
  match (acceptCall req.mem req.perm req.handle req.ctrlParam req.inVec req.outVec req.caller).1 with
  | .error e => (.error e, [], s)
  | .ok (connection, outVecs) =>
    let (result, s) := SpmCall.call connection initProcess callProcess s
    (result, outVecs, s)

end SfnApi

end RuSpe
