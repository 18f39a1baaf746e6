import RuSpe.Spm.Discipline

set_option autoImplicit false

/-!
# What a vector SVC does to the process SPM

Both layers that keep the flags of a vector taken together: the checks and updates of
`connection.rs`, then the mapping of `SpmIpc`.

* `VecSvc`: an `ACCESS_VEC` or a `RELEASE_VEC` with its frame;
* `VecSvc.Passes`, `VecSvc.after`, `VecSvc.answer`: its checks, its effect, its answer;
* **`handleSvc_of_passes`**, **`handleSvc_error`**: what the handler does with it.
-/

namespace RuSpe

/-- An SVC that accesses or releases a vector. -/
structure VecSvc where
  isRelease : Bool
  frame : SvcStackFrame
  deriving DecidableEq, Repr

namespace VecSvc

variable (svc : VecSvc) (c : Connection)

def svcNum : BitVec 8 := if svc.isRelease then svcPsaReleaseVec else svcPsaAccessVec

/-- The vector it names. -/
def vec : Vec := ⟨svc.frame.r2 != 0, svc.frame.r1.toNat⟩

/-- The checks it has to pass on the active connection. -/
def Passes : Prop :=
  serviceHandleFromRaw svc.frame.r0 = .ok c.msg.handle ∧ 0 ≤ c.msg.msgType ∧
    svc.vec.idx < psaMaxIovec ∧
    if svc.isRelease then
      c.unmapped svc.vec = false ∧
        (svc.vec.isOutvec = true → svc.frame.r3 ≤ (c.size svc.vec).getD 0)
    else c.mapped svc.vec = false ∧ c.used svc.vec = 0

instance : Decidable (svc.Passes c) :=
  inferInstanceAs (Decidable (_ ∧ _ ∧ _ ∧ ite _ _ _))

/-- The connection after it passed. -/
def after : Connection :=
  if svc.isRelease then
    (((if svc.vec.isOutvec then c.setWritten svc.vec.idx svc.frame.r3 else c).setUnmapped
      svc.vec true).setMapped svc.vec false).setUnmapped svc.vec true
  else ((c.setMapped svc.vec true).setMapped svc.vec true).setUnmapped svc.vec false

/-- The frame after it passed. -/
def answer : SvcStackFrame :=
  if svc.isRelease then svc.frame.setSuccess
  else svc.frame.setRawVec ⟨c.base svc.vec, (c.size svc.vec).getD 0⟩

end VecSvc

namespace SpmIpc

variable {n : ℕ} {s : SpmIpc n}

/-- The state with the active connection replaced. -/
def withTop (s : SpmIpc n) (c : Connection) : SpmIpc n :=
  LawfulConnStore.put (s.state.value.connections.filled c) s

/-- The active connection. -/
def top (s : SpmIpc n) : Connection := s.state.value.connections.topSlot

@[simp] theorem findProcessIndex_withTop (s : SpmIpc n) (c : Connection) (h : ServiceHandle) :
    (s.withTop c).findProcessIndex h = s.findProcessIndex h := rfl

theorem good_withTop (h : Good s) (ha : s.state.value.connections.Active) (c : Connection) :
    Good (s.withTop c) :=
  ⟨h.free, h.wf.filled ha.1 c⟩

theorem active_withTop (h : Good s) (ha : s.state.value.connections.Active) (c : Connection) :
    (s.withTop c).state.value.connections.Active :=
  ConnectionArray.active_filled h.wf ha.1 c

theorem top_withTop (h : Good s) (ha : s.state.value.connections.Active) (c : Connection) :
    (s.withTop c).top = c :=
  ConnectionArray.topSlot_filled h.wf ha.1 c

theorem withTop_withTop (s : SpmIpc n) (c d : Connection) :
    (s.withTop c).withTop d = s.withTop d := by
  simp only [withTop, LawfulConnStore.put_put]
  exact congrArg (LawfulConnStore.put · s) (ConnectionArray.filled_filled _ c d)

theorem withTop_top (h : Good s) (ha : s.state.value.connections.Active) : s.withTop s.top = s := by
  have := ConnectionArray.filled_topSlot h.wf ha
  exact (congrArg (LawfulConnStore.put · s) this).trans (LawfulConnStore.put_conns h.free)

theorem markVec_of_find {c : Connection} {p : ℕ} (hp : s.findProcessIndex c.msg.handle = some p)
    (o : Bool) (idx : BitVec 32) (b : Bool) :
    (s.markVec o idx b c).2 = (c.setMapped ⟨o, idx.toNat⟩ b).setUnmapped ⟨o, idx.toNat⟩ !b := by
  rw [markVec, hp]

/-- Mapping and unmapping a vector of a process that exists. -/
theorem updateVecMapping_of_find {p : ℕ} (h : Good s) (ha : s.state.value.connections.Active)
    (hp : s.findProcessIndex s.top.msg.handle = some p) (o : Bool) (idx : BitVec 32) (b : Bool) :
    updateVecMapping o idx b s =
      (s.withTop ((s.top.setMapped ⟨o, idx.toNat⟩ b).setUnmapped ⟨o, idx.toNat⟩ !b)).applyMpuConfig
        p := by
  have hm : s.marked o idx b =
      s.withTop ((s.top.setMapped ⟨o, idx.toNat⟩ b).setUnmapped ⟨o, idx.toNat⟩ !b) := by
    rw [marked, ← markVec_of_find hp o idx b]
    rfl
  rw [updateVecMapping_eq h.free h.wf, if_pos ha, show s.findProcessIndex
    s.state.value.connections.topSlot.msg.handle = some p from hp]
  exact congrArg (applyMpuConfig p) hm

end SpmIpc

/-! ## The operations on the connection alone -/

theorem serviceHandleFromRaw_error {raw : Usize} {e : StatusCode}
    (h : serviceHandleFromRaw raw = .error e) : e = .invalidHandle := by
  unfold serviceHandleFromRaw at h
  split_ifs at h
  exact (Except.error.inj h).symm

/-- The length `finish_outvec_raw` checks against. -/
theorem outLen_eq (c : Connection) (i : ℕ) :
    (c.msg.outSize[i]?).elim 0 (·.unwrapOr 0) = (c.size ⟨true, i⟩).getD 0 := by
  rw [Connection.size, if_pos rfl]
  cases c.msg.outSize[i]? with
  | none => rfl
  | some m => exact m.unwrapOr_eq 0

variable {σ ρ : Type} [SpmCall σ] [LawfulSpm σ]

theorem validated_of_ok {mh : ServiceHandle} {g : Connection → Except StatusCode ρ × Connection}
    {c : Connection} (hh : c.msg.handle = mh) (ht : 0 ≤ c.msg.msgType) : validated mh g c = g c := by
  rw [validated, if_neg (not_not.mpr hh), if_neg (not_lt.mpr ht)]

/-- An operation that refuses every connection it does not change. -/
theorem validated_error (mh : ServiceHandle) {g : Connection → Except StatusCode ρ × Connection}
    {c : Connection} (hg : c.msg.handle = mh → 0 ≤ c.msg.msgType → g c = (.error .programmerError, c)) :
    validated mh g c =
      (.error (if c.msg.handle = mh then .programmerError else .invalidHandle), c) := by
  by_cases hh : c.msg.handle = mh
  · rw [if_pos hh]
    by_cases ht : 0 ≤ c.msg.msgType
    · exact (validated_of_ok hh ht).trans (hg hh ht)
    · rw [validated, if_neg (not_not.mpr hh), if_pos (not_le.mp ht)]
  · rw [if_neg hh, validated, if_pos hh]

/-- The body of `prepare_invec_raw` and `prepare_outvec_raw`. -/
def prepareBody (o : Bool) (idx : BitVec 32) (c : Connection) : Except StatusCode Slice × Connection :=
  if idx.toNat < psaMaxIovec ∧ c.mapped ⟨o, idx.toNat⟩ = false ∧ c.used ⟨o, idx.toNat⟩ = 0 then
    (.ok ⟨c.base ⟨o, idx.toNat⟩, (c.size ⟨o, idx.toNat⟩).getD 0⟩, c.setMapped ⟨o, idx.toNat⟩ true)
  else (.error .programmerError, c)

/-- The body of `finish_invec_raw` and `finish_outvec_raw`. -/
def finishBody (o : Bool) (idx : BitVec 32) (written : Usize) (c : Connection) :
    Except StatusCode Unit × Connection :=
  if idx.toNat < psaMaxIovec ∧ c.unmapped ⟨o, idx.toNat⟩ = false ∧
      (o = true → written ≤ (c.size ⟨o, idx.toNat⟩).getD 0) then
    (.ok (), (if o then c.setWritten idx.toNat written else c).setUnmapped ⟨o, idx.toNat⟩ true)
  else (.error .programmerError, c)

section

variable {s : σ} (h : Good s) (ha : (LawfulConnStore.conns s).Active) (mh : ServiceHandle)
  (o : Bool) (idx : BitVec 32)

include h ha

theorem prepareRaw_eq : prepareRaw o mh idx s =
    ((validated mh (prepareBody o idx) (LawfulConnStore.conns s).topSlot).1,
      LawfulConnStore.put ((LawfulConnStore.conns s).filled
        (validated mh (prepareBody o idx) (LawfulConnStore.conns s).topSlot).2) s) := by
  rw [← withValidatedConnection_pure h ha mh, prepareRaw]
  congr 1
  funext c t
  rw [prepare_eq, prepareBody]
  split_ifs <;> rfl

theorem finishRaw_eq (written : Usize) :
    (if o then finishOutvecRaw mh idx written s else finishInvecRaw mh idx s) =
    ((validated mh (finishBody o idx written) (LawfulConnStore.conns s).topSlot).1,
      LawfulConnStore.put ((LawfulConnStore.conns s).filled
        (validated mh (finishBody o idx written) (LawfulConnStore.conns s).topSlot).2) s) := by
  rw [← withValidatedConnection_pure h ha mh]
  cases o with
  | false =>
    rw [if_neg Bool.false_ne_true, finishInvecRaw]
    congr 1
    funext c t
    rw [markInvecUnmapped_eq, finishBody]
    simp only [Bool.false_eq_true, false_imp_iff, and_true, if_false]
  | true =>
    rw [if_pos rfl, finishOutvecRaw]
    congr 1
    funext c t
    dsimp only
    rw [outLen_eq, commitOutvecWrite_eq, finishBody]
    simp only [true_imp_iff, if_true]

end

/-! ## The handler -/

section

variable {n : ℕ} {s : SpmIpc n} (svc : VecSvc) (f : SfnCall (SpmIpc n))

section

variable {mh : ServiceHandle} {frame : SvcStackFrame} {t : SpmIpc n}

theorem prepareRaw_of_flag : (if (frame.r2 != 0) = true then prepareOutvecRaw mh frame.r1 s
    else prepareInvecRaw mh frame.r1 s) = prepareRaw (frame.r2 != 0) mh frame.r1 s := by
  cases frame.r2 != 0 <;> rfl

theorem handleAccessVec_ok {raw : Slice}
    (hr : prepareRaw (frame.r2 != 0) mh frame.r1 s = (.ok raw, t)) :
    handleAccessVec mh frame s =
      (frame.setRawVec raw, SpmIpc.updateVecMapping (frame.r2 != 0) frame.r1 true t) := by
  rw [handleAccessVec]
  dsimp only
  rw [prepareRaw_of_flag, hr]
  rfl

theorem handleAccessVec_error {e : StatusCode}
    (hr : prepareRaw (frame.r2 != 0) mh frame.r1 s = (.error e, t)) :
    handleAccessVec mh frame s = (frame.setError e, t) := by
  rw [handleAccessVec]
  dsimp only
  rw [prepareRaw_of_flag, hr]

theorem handleReleaseVec_ok (hr : (if (frame.r2 != 0) = true then
      finishOutvecRaw mh frame.r1 frame.r3 s else finishInvecRaw mh frame.r1 s) = (.ok (), t)) :
    handleReleaseVec mh frame s =
      (frame.setSuccess, SpmIpc.updateVecMapping (frame.r2 != 0) frame.r1 false t) := by
  rw [handleReleaseVec]
  dsimp only
  rw [hr]
  rfl

theorem handleReleaseVec_error {e : StatusCode} (hr : (if (frame.r2 != 0) = true then
      finishOutvecRaw mh frame.r1 frame.r3 s else finishInvecRaw mh frame.r1 s) = (.error e, t)) :
    handleReleaseVec mh frame s = (frame.setError e, t) := by
  rw [handleReleaseVec]
  dsimp only
  rw [hr]

end

/-- **A vector SVC that fails its checks** reports an error and changes nothing. -/
theorem handleSvc_error {mh : ServiceHandle} (h : Good s) (ha : s.state.value.connections.Active)
    (hr : serviceHandleFromRaw svc.frame.r0 = .ok mh) (hp : ¬ svc.Passes s.top) :
    handleSvcWithSpm svc.svcNum svc.frame f s =
      (true, svc.frame.setError
        (if s.top.msg.handle = mh then .programmerError else .invalidHandle), s) := by
  obtain ⟨isRelease, frame⟩ := svc
  rw [handleSvcWithSpm, hr]
  have hkeep : SpmIpc.withTop s s.top = s := SpmIpc.withTop_top h ha
  cases isRelease with
  | false =>
    have hv := validated_error mh (g := prepareBody (frame.r2 != 0) frame.r1)
      (c := s.top) fun hh ht => if_neg fun hb =>
        hp ⟨by rw [hr, hh], ht, hb.1, by simpa [VecSvc.vec] using hb.2⟩
    have hprep := prepareRaw_eq h ha mh (frame.r2 != 0) frame.r1
    rw [show (LawfulConnStore.conns s).topSlot = s.top from rfl, hv] at hprep
    exact congrArg (Prod.mk true) (handleAccessVec_error (hprep.trans (congrArg (Prod.mk _) hkeep)))
  | true =>
    have hv := validated_error mh
      (g := finishBody (frame.r2 != 0) frame.r1 frame.r3) (c := s.top) fun hh ht => if_neg fun hb =>
        hp ⟨by rw [hr, hh], ht, hb.1, by simpa [VecSvc.vec] using hb.2⟩
    have hfin := finishRaw_eq h ha mh (frame.r2 != 0) frame.r1 frame.r3
    rw [show (LawfulConnStore.conns s).topSlot = s.top from rfl, hv] at hfin
    exact congrArg (Prod.mk true) (handleReleaseVec_error (hfin.trans (congrArg (Prod.mk _) hkeep)))

theorem handleSvc_of_not_passes (h : Good s) (ha : s.state.value.connections.Active)
    (hp : ¬ svc.Passes s.top) :
    ∃ e, e ≠ .success ∧
      handleSvcWithSpm svc.svcNum svc.frame f s = (true, svc.frame.setError e, s) := by
  cases hr : serviceHandleFromRaw svc.frame.r0 with
  | error e =>
    refine ⟨e, by rw [serviceHandleFromRaw_error hr]; decide, ?_⟩
    rw [handleSvcWithSpm, hr]
  | ok mh =>
    refine ⟨_, ?_, handleSvc_error svc f h ha hr hp⟩
    split_ifs <;> decide

/-- Mapping or unmapping after an operation that left `c` as the active connection. -/
theorem updateVecMapping_withTop {p : ℕ} {c : Connection} (h : Good s)
    (ha : s.state.value.connections.Active) (hf : s.findProcessIndex s.top.msg.handle = some p)
    (hc : c.msg.handle = s.top.msg.handle) (o : Bool) (idx : BitVec 32) (b : Bool) :
    SpmIpc.updateVecMapping o idx b (s.withTop c) =
      (s.withTop ((c.setMapped ⟨o, idx.toNat⟩ b).setUnmapped ⟨o, idx.toNat⟩ !b)).applyMpuConfig
        p := by
  have hmap := SpmIpc.updateVecMapping_of_find (p := p) (SpmIpc.good_withTop h ha c)
    (SpmIpc.active_withTop h ha c)
    (by rw [SpmIpc.top_withTop h ha, hc, SpmIpc.findProcessIndex_withTop, hf]) o idx b
  rwa [SpmIpc.top_withTop h ha, SpmIpc.withTop_withTop] at hmap

/-- **A vector SVC that passes its checks** updates the active connection and the MPU. -/
theorem handleSvc_of_passes {p : ℕ} (h : Good s) (ha : s.state.value.connections.Active)
    (hf : s.findProcessIndex s.top.msg.handle = some p) (hp : svc.Passes s.top) :
    handleSvcWithSpm svc.svcNum svc.frame f s =
      (true, svc.answer s.top, (s.withTop (svc.after s.top)).applyMpuConfig p) := by
  obtain ⟨isRelease, frame⟩ := svc
  obtain ⟨hr, ht, hi, hb⟩ := hp
  rw [handleSvcWithSpm, hr]
  dsimp only at hi hb ⊢
  cases isRelease with
  | false =>
    have hv : validated s.top.msg.handle (prepareBody (frame.r2 != 0) frame.r1) s.top =
        (.ok ⟨s.top.base ⟨frame.r2 != 0, frame.r1.toNat⟩,
          (s.top.size ⟨frame.r2 != 0, frame.r1.toNat⟩).getD 0⟩,
          s.top.setMapped ⟨frame.r2 != 0, frame.r1.toNat⟩ true) :=
      (validated_of_ok rfl ht).trans (if_pos ⟨hi, by simpa [VecSvc.vec] using hb⟩)
    have hprep := prepareRaw_eq h ha s.top.msg.handle (frame.r2 != 0) frame.r1
    rw [show (LawfulConnStore.conns s).topSlot = s.top from rfl, hv] at hprep
    have hmap := updateVecMapping_withTop h ha hf
      (congrArg PsaMsg.handle (s.top.msg_setMapped ⟨frame.r2 != 0, frame.r1.toNat⟩ true))
      (frame.r2 != 0) frame.r1 true
    exact congrArg (Prod.mk true) ((handleAccessVec_ok hprep).trans (congrArg (Prod.mk _) hmap))
  | true =>
    have hv : validated s.top.msg.handle (finishBody (frame.r2 != 0) frame.r1 frame.r3) s.top =
        (.ok (), (if (frame.r2 != 0) = true then s.top.setWritten frame.r1.toNat frame.r3
          else s.top).setUnmapped ⟨frame.r2 != 0, frame.r1.toNat⟩ true) :=
      (validated_of_ok rfl ht).trans (if_pos ⟨hi, by simpa [VecSvc.vec] using hb⟩)
    have hfin := finishRaw_eq h ha s.top.msg.handle (frame.r2 != 0) frame.r1 frame.r3
    rw [show (LawfulConnStore.conns s).topSlot = s.top from rfl, hv] at hfin
    have hc : ((if (frame.r2 != 0) = true then s.top.setWritten frame.r1.toNat frame.r3
        else s.top).setUnmapped ⟨frame.r2 != 0, frame.r1.toNat⟩ true).msg.handle =
          s.top.msg.handle := by
      rw [Connection.msg_setUnmapped]
      split_ifs <;> rfl
    have hmap := updateVecMapping_withTop h ha hf hc (frame.r2 != 0) frame.r1 false
    exact congrArg (Prod.mk true) ((handleReleaseVec_ok hfin).trans (congrArg (Prod.mk _) hmap))

/-! ## The running process -/

/-- The active connection belongs to process `p`. -/
structure OnTop (p : ℕ) (s : SpmIpc n) : Prop where
  good : Good s
  active : s.state.value.connections.Active
  find : s.findProcessIndex s.top.msg.handle = some p

theorem VecSvc.handle_after (svc : VecSvc) (c : Connection) :
    (svc.after c).msg.handle = c.msg.handle := by
  rw [VecSvc.after]
  split_ifs <;> simp

variable {p : ℕ}

/-- The active connection is replaced by one of the same service. -/
theorem OnTop.withTop (h : OnTop p s) {c : Connection} (hc : c.msg.handle = s.top.msg.handle) :
    OnTop p (s.withTop c) ∧ (s.withTop c).top = c := by
  have ht : (s.withTop c).top = c := SpmIpc.top_withTop h.good h.active c
  refine ⟨⟨SpmIpc.good_withTop h.good h.active c, SpmIpc.active_withTop h.good h.active c, ?_⟩, ht⟩
  rw [ht, SpmIpc.findProcessIndex_withTop, hc, h.find]

theorem OnTop.replace (h : OnTop p s) {c : Connection} (hc : c.msg.handle = s.top.msg.handle) :
    OnTop p ((s.withTop c).applyMpuConfig p) ∧ ((s.withTop c).applyMpuConfig p).top = c := by
  obtain ⟨hw, ht⟩ := h.withTop hc
  rw [SpmIpc.applyMpuConfig_eq_mpu _ hw.good.free]
  exact ⟨⟨⟨hw.good.free, hw.good.wf⟩, hw.active, hw.find⟩, ht⟩

/-- What `apply_mpu_config` builds for the process of the active connection. -/
theorem OnTop.configFor (h : OnTop p s) (proc : ServiceProcess) :
    s.configFor p proc = SpmIpc.vecConfig s.top (SpmIpc.processConfig s.platform proc) := by
  have hw : s.state.value.connections.Wf := h.good.wf
  rw [SpmIpc.configFor, ConnectionArray.peekActiveConnection_eq hw, if_pos h.active]
  dsimp only
  rw [if_pos (show s.findProcessIndex s.state.value.connections.topSlot.msg.handle = _ from h.find)]
  rfl

theorem OnTop.after (h : OnTop p s) :
    OnTop p ((s.withTop (svc.after s.top)).applyMpuConfig p) ∧
      ((s.withTop (svc.after s.top)).applyMpuConfig p).top = svc.after s.top :=
  h.replace (svc.handle_after s.top)

/-- The connection that was just pushed is on top. -/
theorem onTop_of_enter {s₀ : SpmIpc n} {c : Connection} {b : Bool} (h : Good s₀)
    (he : SpmIpc.enter c s₀ = (.ok b, s)) : s.top = c ∧ ∃ p, OnTop p s := by
  obtain ⟨p, hp, ht, rfl⟩ := SpmIpc.enter_eq_ok h.free he
  have hf : (s₀.called c p).state.lock = false := rfl
  have htop : ((s₀.called c p).applyMpuConfig p).top = c := by
    rw [SpmIpc.applyMpuConfig_eq_mpu _ hf]
    exact ConnectionArray.topSlot_pushed ht c
  refine ⟨htop, p, ?_⟩
  rw [SpmIpc.applyMpuConfig_eq_mpu _ hf] at htop ⊢
  refine ⟨⟨hf, h.wf.pushed ht c⟩, ConnectionArray.active_pushed ht c, ?_⟩
  rw [htop]
  exact hp

/-- **What any SVC of a service but a call does to the SPM**: nothing, or a vector of the active
connection changes and the MPU follows. -/
theorem svc_eq_or (h : OnTop p s) {num : BitVec 8} (hn : num ≠ svcPsaCall) (frame : SvcStackFrame)
    (f : SfnCall (SpmIpc n)) :
    (svcHandlerDispatch num frame f s).2 = s ∨ ∃ svc : VecSvc, svc.Passes s.top ∧
      (svcHandlerDispatch num frame f s).2 = (s.withTop (svc.after s.top)).applyMpuConfig p := by
  have hd : (svcHandlerDispatch num frame f s).2 = (handleSvcWithSpm num frame f s).2.2 := by
    rw [svcHandlerDispatch]
    rcases handleSvcWithSpm num frame f s with ⟨b, fr, t⟩
    cases b <;> rfl
  rw [hd]
  by_cases hv : num = svcPsaAccessVec ∨ num = svcPsaReleaseVec
  · obtain ⟨svc, rfl, rfl⟩ : ∃ svc : VecSvc, svc.svcNum = num ∧ svc.frame = frame := by
      rcases hv with rfl | rfl
      · exact ⟨⟨false, frame⟩, rfl, rfl⟩
      · exact ⟨⟨true, frame⟩, rfl, rfl⟩
    by_cases hp : svc.Passes s.top
    · exact .inr ⟨svc, hp, by rw [handleSvc_of_passes svc f h.good h.active h.find hp]⟩
    · obtain ⟨e, -, he⟩ := handleSvc_of_not_passes svc f h.good h.active hp
      exact .inl (by rw [he])
  · left
    rw [not_or] at hv
    rw [handleSvcWithSpm]
    cases serviceHandleFromRaw frame.r0 with
    | error e => rfl
    | ok mh =>
      dsimp only
      rw [if_neg hv.1, if_neg hv.2, if_neg hn]
      split_ifs <;> rfl

end

/-! ## One process, and its first call -/

namespace OneProcess

def platform : IpcPlatform := ⟨fun _ => []⟩

def crypto : ServiceProcess :=
  ⟨.crypto, 1, 0x10000, 0x10100, 0x10000, 0x18000, 0x20000, 0x24000, 0x20000, 0x24000⟩

def spm : SpmIpc 1 := .new platform (Vector.replicate 1 crypto) (Vector.replicate 8 ⟨0, 0⟩)

def conn : Connection := .ofMsg (.new .crypto 1 .nsUnprivileged)

def entered : SpmIpc 1 := (SpmIpc.enter conn spm).2

theorem enter_conn : SpmIpc.enter conn spm = (.ok true, entered) := Prod.ext (by decide) rfl

end OneProcess

end RuSpe
