import RuSpe.Spm.Accepted

set_option autoImplicit false

/-!
# Which memory a call touches

The trace of a call is everything `SfnApi::call` reads on behalf of its caller, followed by the
payload ranges the service is handed. A touch is approved if the platform granted a range around it
to the same caller, in the same direction, earlier in the trace.

* `callTrace`, `Touch.Approved`, `AllApproved`;
* **`approved_exposures`**: payload ranges are always approved before they are handed out;
* **`allApproved_callTrace_iff`**: everything is approved exactly when no descriptor array is read.
-/

namespace RuSpe

/-! ## The trace of a call -/

/-- All vectors of a connection. -/
def allVecs : List Vec :=
  (List.range psaMaxIovec).map (Vec.mk false) ++ (List.range psaMaxIovec).map (Vec.mk true)

/-- The payload ranges a connection hands to its service. -/
def Connection.exposures (c : Connection) : List Touch :=
  allVecs.filterMap fun v => (c.size v).map fun n => .expose (c.base v) n v.isOutvec

/-- Everything `SfnApi::call` touches for its caller. -/
def callTrace (mem : Memory) (perm : PermissionOracle) (handle : ServiceHandle)
    (ctrlParam : CtrlParam) (inVec outVec : Usize) (caller : CallerAttributes) : List Touch :=
  match acceptCall mem perm handle ctrlParam inVec outVec caller with
  | (.error _, trace) => trace
  | (.ok (c, _), trace) => trace ++ c.exposures

/-! ## Approval -/

/-- Some range around `[addr, addr + n)` was granted to `caller` in `before`. -/
def Granted (caller : CallerAttributes) (before : List Touch) (isWrite : Bool) (addr : Usize)
    (n : ℕ) : Prop :=
  ∃ base len, .check base len isWrite caller true ∈ before ∧
    base.toNat ≤ addr.toNat ∧ addr.toNat + n ≤ base.toNat + len.toNat

/-- What must have happened before a touch. Empty ranges need no approval. -/
def Touch.Approved (caller : CallerAttributes) (before : List Touch) : Touch → Prop
  | .deref addr n isWrite => n ≠ 0 → Granted caller before isWrite addr n
  | .expose base len isWrite => len ≠ 0 → Granted caller before isWrite base len.toNat
  | .check .. => True

/-- Every touch of a trace was approved before it. -/
def AllApproved (caller : CallerAttributes) (trace : List Touch) : Prop :=
  ∀ before t after, trace = before ++ t :: after → t.Approved caller before

theorem Touch.Approved.mono {caller : CallerAttributes} {l l' : List Touch} {t : Touch}
    (h : t.Approved caller l) (hl : ∀ x ∈ l, x ∈ l') : t.Approved caller l' := by
  cases t with
  | deref addr n w =>
    intro hn
    obtain ⟨b, len, hm, h⟩ := h hn
    exact ⟨b, len, hl _ hm, h⟩
  | expose base n w =>
    intro hn
    obtain ⟨b, len, hm, h⟩ := h hn
    exact ⟨b, len, hl _ hm, h⟩
  | check => trivial

theorem allApproved_nil (caller : CallerAttributes) : AllApproved caller [] := by
  intro before t after h
  simp at h

section

variable (mem : Memory) (perm : PermissionOracle) (handle : ServiceHandle) (ctrlParam : CtrlParam)
  (inVec outVec : Usize) (caller : CallerAttributes)

/-- **Payload ranges are approved for the caller and the direction before they are handed out.** -/
theorem approved_exposures {c : Connection} {outs : List FFOutVec} {trace : List Touch}
    (h : acceptCall mem perm handle ctrlParam inVec outVec caller = (.ok (c, outs), trace)) :
    ∀ t ∈ c.exposures, t.Approved caller trace := by
  obtain ⟨_, _, _, _, _, hA⟩ := acceptCall_ok (congrArg Prod.fst h)
  rw [h] at hA
  intro t ht
  obtain ⟨v, -, hv⟩ := List.mem_filterMap.mp ht
  obtain ⟨n, hn, rfl⟩ := Option.map_eq_some_iff.mp hv
  exact fun h0 => ⟨_, _, (hA.checked v n hn).2 h0, le_rfl, le_rfl⟩

/-- The call gets past its first checks and names a descriptor array that is not empty. -/
def ReadsDescriptors : Prop :=
  ∃ t i o, validateCallParams ctrlParam = .ok (t, i, o) ∧
    validateVecPointerShape ctrlParam.hasIovec i o inVec outVec = .ok () ∧ 0 < i + o

/-- A call that reads descriptors begins by doing so. -/
theorem callTrace_of_readsDescriptors (h : ReadsDescriptors ctrlParam inVec outVec) :
    ∃ p n w rest, n ≠ 0 ∧
      callTrace mem perm handle ctrlParam inVec outVec caller = .deref p n w :: rest := by
  obtain ⟨t, i, o, hp, hs, hio⟩ := h
  obtain ⟨p, n, w, rest, hn, hrest⟩ : ∃ p n w rest, n ≠ 0 ∧
      (acceptCall mem perm handle ctrlParam inVec outVec caller).2 = .deref p n w :: rest := by
    rw [acceptCall, TouchM.lift, hp]
    dsimp only [bind]
    rw [TouchM.lift, hs]
    by_cases hi : i = 0
    · have ho : o ≠ 0 := by omega
      rw [derefArray, if_pos hi, derefArray, if_neg ho]
      exact ⟨_, _, _, _, by simp [descriptorSize, ho], rfl⟩
    · rw [derefArray, if_neg hi]
      exact ⟨_, _, _, _, by simp [descriptorSize, hi], rfl⟩
  rw [callTrace]
  rcases h : acceptCall mem perm handle ctrlParam inVec outVec caller with ⟨r, tr⟩
  rw [h] at hrest
  cases r with
  | error e => exact ⟨p, n, w, rest, hn, hrest⟩
  | ok r => exact ⟨p, n, w, rest ++ r.1.exposures, hn, congrArg (· ++ r.1.exposures) hrest⟩

/-- A call without descriptors touches nothing. -/
theorem callTrace_of_not_readsDescriptors (h : ¬ ReadsDescriptors ctrlParam inVec outVec) :
    callTrace mem perm handle ctrlParam inVec outVec caller = [] := by
  cases hp : validateCallParams ctrlParam with
  | error e => rw [callTrace, acceptCall, hp]; rfl
  | ok r =>
    obtain ⟨t, i, o⟩ := r
    cases hs : validateVecPointerShape ctrlParam.hasIovec i o inVec outVec with
    | error e => rw [callTrace, acceptCall, hp]; simp [TouchM.lift, hs, bind]
    | ok u =>
      obtain ⟨rfl, rfl⟩ : i = 0 ∧ o = 0 := by
        by_contra hio
        exact h ⟨t, i, o, hp, hs, by omega⟩
      have ha : acceptCall mem perm handle ctrlParam inVec outVec caller =
          (.ok (.ofMsg (.new handle t caller), []), []) := by
        simp [acceptCall, hp, hs, TouchM.lift, bind, derefArray, callFromSlices, Memory.inVecs,
          Memory.outVecs, validateInvecPayloadNonoverlap, acceptInvecs, acceptOutvecs]
        rfl
      rw [callTrace, ha]
      simp [Connection.exposures, Connection.size_ofMsg_new]

/-- **Every range a call touches is approved first if and only if the call reads no descriptor
array.** The arrays themselves are read without asking. -/
theorem allApproved_callTrace_iff :
    AllApproved caller (callTrace mem perm handle ctrlParam inVec outVec caller) ↔
      ¬ ReadsDescriptors ctrlParam inVec outVec := by
  constructor
  · intro h hr
    obtain ⟨p, n, w, rest, hn, ht⟩ :=
      callTrace_of_readsDescriptors mem perm handle ctrlParam inVec outVec caller hr
    obtain ⟨_, _, hm, _⟩ := h [] _ rest ht hn
    exact absurd hm List.not_mem_nil
  · intro h
    rw [callTrace_of_not_readsDescriptors mem perm handle ctrlParam inVec outVec caller h]
    exact allApproved_nil caller

end

/-- A non-secure client makes the SPM read an address that nobody approved. -/
theorem not_allApproved_callTrace :
    ¬ AllApproved .nsUnprivileged (callTrace (fun _ => 0) (fun _ _ _ _ => false) .crypto
      (.new 1 1 false 0 false) 0x30000000 0 .nsUnprivileged) := by
  intro h
  obtain ⟨_, _, hm, _⟩ := h [] (.deref 0x30000000 8 false) [.expose 0 0 false] (by decide) (by decide)
  exact absurd hm List.not_mem_nil

end RuSpe
