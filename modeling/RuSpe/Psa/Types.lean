import Mathlib.Tactic

set_option autoImplicit false

/-!
# The PSA interface types

The values that cross the SPM boundary: service handles, status codes, the packed control
parameter, the vector descriptors, the caller attributes and the message a service receives.
`usize` and pointers are 32-bit words, as on the Armv8-M targets.

* `ServiceHandle`, `StatusCode`, `CtrlParam`, `FFInVec`, `FFOutVec`;
* `CallerAttributes`, `MaybeUsize`, `PsaMsg`;
* **`StatusCode.tryFrom_toPsaStatus`**: a status code survives its trip through a register.
-/

namespace RuSpe

/-- `usize`, and an address, on the 32-bit target. -/
abbrev Usize := BitVec 32

/-- `usize::MAX`. -/
def usizeMax : Usize := 0xFFFFFFFF

/-- `PSA_MAX_IOVEC`. -/
abbrev psaMaxIovec : ℕ := 4

/-! ## Service handles -/

inductive ServiceHandle
  | internalTrustedStorageService
  | crypto
  | attestationService
  deriving DecidableEq, Repr

/-- The discriminant of a handle. -/
def ServiceHandle.val : ServiceHandle → BitVec 32
  | .internalTrustedStorageService => 0x40000102
  | .crypto => 0x40000100
  | .attestationService => 0x40000103

/-- `impl TryFrom<i32> for ServiceHandle`. -/
def ServiceHandle.tryFrom (value : BitVec 32) : Except Unit ServiceHandle :=
  if value = ServiceHandle.crypto.val then .ok .crypto
  else if value = ServiceHandle.internalTrustedStorageService.val then
    .ok .internalTrustedStorageService
  else if value = ServiceHandle.attestationService.val then .ok .attestationService
  else .error ()

@[simp] theorem ServiceHandle.tryFrom_val (h : ServiceHandle) : tryFrom h.val = .ok h := by
  cases h <;> rfl

theorem ServiceHandle.val_of_tryFrom {value : BitVec 32} {h : ServiceHandle}
    (ht : tryFrom value = .ok h) : h.val = value := by
  rw [tryFrom] at ht
  split_ifs at ht with h1 h2 h3 <;> obtain rfl := Except.ok.inj ht
  · exact h1.symm
  · exact h2.symm
  · exact h3.symm

/-! ## Status codes -/

inductive StatusCode
  | success
  | programmerError
  | connectionRefused
  | connectionBusy
  | genericError
  | notPermitted
  | notSupported
  | invalidArgument
  | invalidHandle
  | badState
  | bufferTooSmall
  | alreadyExists
  | doesNotExist
  | insufficientMemory
  | insufficientStorage
  | insufficientData
  | serviceFailure
  | communicationFailure
  | storageFailure
  | hardwareFailure
  | invalidSignature
  | corruptionDetected
  | dataCorrupt
  | dataInvalid
  | operationIncomplete
  deriving DecidableEq, Repr

/-- `status as PsaStatus`. -/
def StatusCode.toPsaStatus : StatusCode → ℤ
  | .success => 0
  | .programmerError => -129
  | .connectionRefused => -130
  | .connectionBusy => -131
  | .genericError => -132
  | .notPermitted => -133
  | .notSupported => -134
  | .invalidArgument => -135
  | .invalidHandle => -136
  | .badState => -137
  | .bufferTooSmall => -138
  | .alreadyExists => -139
  | .doesNotExist => -140
  | .insufficientMemory => -141
  | .insufficientStorage => -142
  | .insufficientData => -143
  | .serviceFailure => -144
  | .communicationFailure => -145
  | .storageFailure => -146
  | .hardwareFailure => -147
  | .invalidSignature => -149
  | .corruptionDetected => -151
  | .dataCorrupt => -152
  | .dataInvalid => -153
  | .operationIncomplete => -248

/-- `impl TryFrom<PsaStatus> for StatusCode`. -/
def StatusCode.tryFrom (status : ℤ) : Except ℤ StatusCode :=
  match status with
  | 0 => .ok .success
  | -129 => .ok .programmerError
  | -130 => .ok .connectionRefused
  | -131 => .ok .connectionBusy
  | -132 => .ok .genericError
  | -133 => .ok .notPermitted
  | -134 => .ok .notSupported
  | -135 => .ok .invalidArgument
  | -136 => .ok .invalidHandle
  | -137 => .ok .badState
  | -138 => .ok .bufferTooSmall
  | -139 => .ok .alreadyExists
  | -140 => .ok .doesNotExist
  | -141 => .ok .insufficientMemory
  | -142 => .ok .insufficientStorage
  | -143 => .ok .insufficientData
  | -144 => .ok .serviceFailure
  | -145 => .ok .communicationFailure
  | -146 => .ok .storageFailure
  | -147 => .ok .hardwareFailure
  | -149 => .ok .invalidSignature
  | -151 => .ok .corruptionDetected
  | -152 => .ok .dataCorrupt
  | -153 => .ok .dataInvalid
  | -248 => .ok .operationIncomplete
  | _ => .error status

/-- `(status as PsaStatus).cast_unsigned()`: the status as a register value. -/
def StatusCode.toRaw (status : StatusCode) : Usize := BitVec.ofInt 32 status.toPsaStatus

@[simp] theorem StatusCode.tryFrom_toPsaStatus (s : StatusCode) : tryFrom s.toPsaStatus = .ok s := by
  cases s <;> rfl

theorem StatusCode.toRaw_toInt (s : StatusCode) : s.toRaw.toInt = s.toPsaStatus := by
  cases s <;> rfl

/-- `into_psa_status`. -/
def intoPsaStatus (r : Except StatusCode Unit) : ℤ :=
  match r with
  | .ok () => StatusCode.success.toPsaStatus
  | .error e => e.toPsaStatus

/-! ## The control parameter -/

/-- `CtrlParam`: `0..15` type, `16..18` number of output vectors, `24..26` of input vectors. -/
structure CtrlParam where
  raw : BitVec 32
  deriving DecidableEq, Repr

/-- `CtrlParam::new`. -/
def CtrlParam.new (type : BitVec 16) (inLen : BitVec 8) (inNs : Bool) (outLen : BitVec 8)
    (outNs : Bool) : CtrlParam :=
  let val : BitVec 32 := type.setWidth 32 &&& 0xFFFF
  let val := val ||| ((inLen.setWidth 32 <<< 24) &&& 0x07000000)
  let val := val ||| ((outLen.setWidth 32 <<< 16) &&& 0x00070000)
  let val := if inNs then val ||| 0x08000000 else val
  let val := if outNs then val ||| 0x00080000 else val
  ⟨val⟩

/-- `unpack_type`: the low half word, sign extended. -/
def CtrlParam.unpackType (c : CtrlParam) : ℤ := (c.raw.setWidth 16).toInt

/-- `has_iovec`. -/
def CtrlParam.hasIovec (c : CtrlParam) : Bool := (c.raw &&& ~~~0xFFFF#32) != 0

/-- `in_len`. -/
def CtrlParam.inLen (c : CtrlParam) : ℕ := ((c.raw >>> 24) &&& 0x7).toNat

/-- `out_len`. -/
def CtrlParam.outLen (c : CtrlParam) : ℕ := ((c.raw >>> 16) &&& 0x7).toNat

/-! ## Descriptors, callers and messages -/

/-- An input vector descriptor as the client passes it. -/
structure FFInVec where
  base : Usize
  len : Usize
  deriving DecidableEq, Repr

/-- An output vector descriptor as the client passes it. -/
structure FFOutVec where
  base : Usize
  len : Usize
  deriving DecidableEq, Repr

structure CallerAttributes where
  ns : Bool
  privileged : Bool
  deriving DecidableEq, Repr

def CallerAttributes.nsUnprivileged : CallerAttributes := ⟨true, false⟩
def CallerAttributes.securePrivileged : CallerAttributes := ⟨false, true⟩
def CallerAttributes.secureUnprivileged : CallerAttributes := ⟨false, false⟩

/-- `MaybeUsize`: `None` is encoded as `usize::MAX` in the same word. -/
structure MaybeUsize where
  raw : Usize
  deriving DecidableEq, Repr

namespace MaybeUsize

def none : MaybeUsize := ⟨usizeMax⟩

def some (v : Usize) : MaybeUsize := ⟨v⟩

def isSome (m : MaybeUsize) : Bool := m.raw != usizeMax

def asOption (m : MaybeUsize) : Option Usize := if m.isSome then .some m.raw else .none

def unwrapOr (m : MaybeUsize) (default : Usize) : Usize := if m.isSome then m.raw else default

theorem unwrapOr_eq (m : MaybeUsize) (d : Usize) : m.unwrapOr d = m.asOption.getD d := by
  unfold unwrapOr asOption
  split_ifs <;> rfl

@[simp] theorem asOption_none : none.asOption = .none := rfl

theorem asOption_some {v : Usize} (hv : v ≠ usizeMax) : (some v).asOption = .some v := by
  simp [asOption, isSome, some, hv]

end MaybeUsize

/-- The message a service receives. -/
structure PsaMsg where
  handle : ServiceHandle
  msgType : ℤ
  caller : CallerAttributes
  inSize : Vector MaybeUsize psaMaxIovec
  outSize : Vector MaybeUsize psaMaxIovec
  deriving DecidableEq, Repr

/-- `PsaMsg::new`. -/
def PsaMsg.new (handle : ServiceHandle) (msgType : ℤ) (caller : CallerAttributes) : PsaMsg where
  handle := handle
  msgType := msgType
  caller := caller
  inSize := Vector.replicate _ MaybeUsize.none
  outSize := Vector.replicate _ MaybeUsize.none

end RuSpe
