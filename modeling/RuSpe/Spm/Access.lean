import RuSpe.Spm.IpcSvc
import RuSpe.Spm.SvcApi
import RuSpe.Spm.SpmFn

set_option autoImplicit false

/-!
# Using vectors through either API

`SfnApi` and `SvcApi` have the same three functions for the vectors of a call. The first runs the
closure inside one operation of the SPM, the second between two SVCs. What both do to the active
connection differs in how they record the start and the end of a use.

* `Hosted`: an SPM and what closures may change;
* `Access`, `SfnApi.access`, `SvcApi.access`: one operation, through either API;
* `Bookkeeping`, `Access.run`: an operation on the connection alone;
* **`sfnAccess_eq`**, **`svcAccess_eq`**: either API is `Access.run` with its own bookkeeping.
-/

namespace RuSpe

/-! ## An SPM and its surroundings -/

/-- An SPM, with the memory and whatever else the closures of a service may change. -/
structure Hosted (σ τ : Type) where
  spm : σ
  rest : τ

namespace Hosted

variable {σ τ α : Type}

instance [ConnStore σ] : ConnStore (Hosted σ τ) where
  tryLock f s :=
    let (r, t) := ConnStore.tryLock f s.spm
    (r, { s with spm := t })

instance [SpmCall σ] : SpmCall (Hosted σ τ) where
  enter c s :=
    let (r, t) := SpmCall.enter c s.spm
    (r, { s with spm := t })
  leave s := { s with spm := SpmCall.leave s.spm }
  mapVec o idx base size s := { s with spm := SpmCall.mapVec o idx base size s.spm }
  unmapVec o idx s := { s with spm := SpmCall.unmapVec o idx s.spm }
  version handle s := SpmCall.version handle s.spm

instance [ConnStore σ] [LawfulConnStore σ] : LawfulConnStore (Hosted σ τ) where
  conns s := LawfulConnStore.conns s.spm
  put a s := { s with spm := LawfulConnStore.put a s.spm }
  Free s := LawfulConnStore.Free s.spm
  conns_put a s := LawfulConnStore.conns_put a s.spm
  free_put a h := LawfulConnStore.free_put a h
  put_put a b s := congrArg (Hosted.mk · s.rest) (LawfulConnStore.put_put a b s.spm)
  put_conns {s} h := congrArg (Hosted.mk · s.rest) (LawfulConnStore.put_conns h)
  tryLock_eq {s _} h f := by
    simp only [ConnStore.tryLock, LawfulConnStore.tryLock_eq (s := s.spm) h]

/-- A closure that does not call the SPM. -/
def onRest (f : τ → α × τ) (s : Hosted σ τ) : α × Hosted σ τ :=
  let (r, rest) := f s.rest
  (r, { s with rest })

/-- An SVC; the registers it does not set are whatever they are. -/
def svcCall [SpmCall σ] (others : τ → SvcStackFrame) (f : SfnCall σ) : SvcCall (Hosted σ τ) :=
  fun svcNum arg0 arg1 arg2 arg3 s =>
    let (r, t) := RuSpe.svcCall (others s.rest) f svcNum arg0 arg1 arg2 arg3 s.spm
    (r, { s with spm := t })

end Hosted

/-- One use of the vectors of a call: `access_invec`, `access_outvec` or `access_invec_outvec` with
a closure. -/
inductive Access (τ ρ : Type)
  | invec (msgHandle : ServiceHandle) (invecIdx : BitVec 32) (f : Slice → τ → ρ × τ)
  | outvec (msgHandle : ServiceHandle) (outvecIdx : BitVec 32) (f : Slice → τ → (ρ × Usize) × τ)
  | invecOutvec (msgHandle : ServiceHandle) (invecIdx outvecIdx : BitVec 32)
      (f : Slice → Slice → τ → (ρ × Usize) × τ)

variable {σ τ ρ : Type}

/-- The operation through `SfnApi`. -/
def SfnApi.access [SpmCall σ] : Access τ ρ → Hosted σ τ → Except StatusCode ρ × Hosted σ τ
  | .invec mh i f => SfnApi.accessInvec mh i fun invec => Hosted.onRest (f invec)
  | .outvec mh o f => SfnApi.accessOutvec mh o fun outvec => Hosted.onRest (f outvec)
  | .invecOutvec mh i o f =>
    SfnApi.accessInvecOutvec mh i o fun invec outvec => Hosted.onRest (f invec outvec)

/-- The operation through `SvcApi`. -/
def SvcApi.access (svc : SvcCall (Hosted σ τ)) :
    Access τ ρ → Hosted σ τ → Except StatusCode ρ × Hosted σ τ
  | .invec mh i f => SvcApi.accessInvec svc mh i fun invec => Hosted.onRest (f invec)
  | .outvec mh o f => SvcApi.accessOutvec svc mh o fun outvec => Hosted.onRest (f outvec)
  | .invecOutvec mh i o f =>
    SvcApi.accessInvecOutvec svc mh i o fun invec outvec => Hosted.onRest (f invec outvec)

/-! ## The connection alone -/

namespace Connection

variable (c : Connection) (v : Vec)

/-- `v` can be started: in range, not in use and not counted as used. -/
def Startable : Prop := v.idx < psaMaxIovec ∧ c.mapped v = false ∧ c.used v = 0

instance : Decidable (c.Startable v) := inferInstanceAs (Decidable (_ ∧ _ ∧ _))

/-- What a closure sees of `v`. -/
def slice : Slice := .ofRaw (c.base v) ((c.size v).getD 0)

end Connection

/-- How the start and the end of a use are recorded. -/
structure Bookkeeping where
  start : Vec → Connection → Connection
  finish : Vec → Connection → Connection

/-- `SfnApi` works on the connection alone. -/
def sfnBookkeeping : Bookkeeping where
  start v c := c.setMapped v true
  finish v c := c.setUnmapped v true

/-- The SVCs let `SpmIpc` map and unmap the vector as well. -/
def svcBookkeeping : Bookkeeping where
  start v c := ((c.setMapped v true).setMapped v true).setUnmapped v false
  finish v c := ((c.setUnmapped v true).setMapped v false).setUnmapped v true

/-- The checks of `with_validated_connection` before an operation that knows its surroundings. -/
def validatedIn (mh : ServiceHandle)
    (g : Connection → τ → Except StatusCode ρ × Connection × τ) (c : Connection) (w : τ) :
    Except StatusCode ρ × Connection × τ :=
  if c.msg.handle ≠ mh then (.error .invalidHandle, c, w)
  else if c.msg.msgType < 0 then (.error .programmerError, c, w)
  else g c w

namespace Access

variable (k : Bookkeeping)

def msgHandle : Access τ ρ → ServiceHandle
  | invec mh _ _ | outvec mh _ _ | invecOutvec mh _ _ _ => mh

/-- The vectors it uses. -/
def vecs : Access τ ρ → List Vec
  | invec _ i _ => [⟨false, i.toNat⟩]
  | outvec _ o _ => [⟨true, o.toNat⟩]
  | invecOutvec _ i o _ => [⟨false, i.toNat⟩, ⟨true, o.toNat⟩]

/-- The operation on a connection that it is meant for. -/
def body : Access τ ρ → Connection → τ → Except StatusCode ρ × Connection × τ
  | .invec _ i f, c, w =>
    let v : Vec := ⟨false, i.toNat⟩
    if c.Startable v then
      let (result, w) := f (c.slice v) w
      let c := k.start v c
      if c.unmapped v = false then (.ok result, k.finish v c, w)
      else (.error .programmerError, c, w)
    else (.error .programmerError, c, w)
  | .outvec _ o f, c, w =>
    let v : Vec := ⟨true, o.toNat⟩
    if c.Startable v then
      let ((result, n), w) := f (c.slice v) w
      let c := k.start v c
      if c.unmapped v = false ∧ n ≤ (c.size v).getD 0 then
        (.ok result, k.finish v (c.setWritten v.idx n), w)
      else (.error .programmerError, c, w)
    else (.error .programmerError, c, w)
  | .invecOutvec _ i o f, c, w =>
    let v : Vec := ⟨false, i.toNat⟩
    let u : Vec := ⟨true, o.toNat⟩
    if c.Startable v then
      let c := k.start v c
      if c.Startable u then
        let ((result, n), w) := f (c.slice v) (c.slice u) w
        let c := k.start u c
        if c.unmapped u = false ∧ n ≤ (c.size u).getD 0 then
          let c := k.finish u (c.setWritten u.idx n)
          if c.unmapped v = false then (.ok result, k.finish v c, w)
          else (.error .programmerError, c, w)
        else (.error .programmerError, c, w)
      else (.error .programmerError, c, w)
    else (.error .programmerError, c, w)

/-- The operation on any connection. -/
def run (op : Access τ ρ) : Connection → τ → Except StatusCode ρ × Connection × τ :=
  validatedIn op.msgHandle (op.body k)

end Access

/-! ## The closure API -/

section

variable [SpmCall σ] [LawfulSpm σ] {s : σ}

open LawfulConnStore (conns put Free)

/-- An operation on the active connection and its surroundings. -/
theorem withValidatedConnection_hosted {F : Connection → Hosted σ τ →
      Except StatusCode ρ × Connection × Hosted σ τ}
    {g : Connection → τ → Except StatusCode ρ × Connection × τ} (h : Good s)
    (ha : (conns s).Active) (mh : ServiceHandle) (w : τ)
    (hF : ∀ c t w, F c ⟨t, w⟩ = ((g c w).1, (g c w).2.1, ⟨t, (g c w).2.2⟩)) :
    withValidatedConnection mh F ⟨s, w⟩ =
      ((validatedIn mh g (conns s).topSlot w).1,
        ⟨put ((conns s).filled (validatedIn mh g (conns s).topSlot w).2.1) s,
          (validatedIn mh g (conns s).topSlot w).2.2⟩) := by
  have hbody : ∀ (c : Connection) (t : σ), (if c.msg.handle ≠ mh then
        (Except.error StatusCode.invalidHandle, c, (⟨t, w⟩ : Hosted σ τ))
      else if c.msg.msgType < 0 then (.error .programmerError, c, ⟨t, w⟩)
      else F c ⟨t, w⟩) =
      ((validatedIn mh g c w).1, (validatedIn mh g c w).2.1, ⟨t, (validatedIn mh g c w).2.2⟩) := by
    intro c t
    rw [validatedIn, hF]
    split_ifs <;> rfl
  have htake : takeActive (⟨s, w⟩ : Hosted σ τ) =
      (.ok ((conns s).topConnection - 1, (conns s).topSlot), ⟨put (conns s).lent s, w⟩) :=
    (takeActive_eq (s := (⟨s, w⟩ : Hosted σ τ)) h.free h.wf).trans (if_pos ha)
  rw [withValidatedConnection, withActiveConnection, htake]
  dsimp only
  rw [hbody]
  generalize validatedIn mh g (conns s).topSlot w = x
  have hr := ConnectionArray.restoreActiveConnection_eq h.wf.lent ha.1 x.2.1
  rw [if_neg (ConnectionArray.not_active_lent _), ConnectionArray.filled_lent] at hr
  have hre : restoreActive ((conns s).topConnection - 1) x.2.1
      (⟨put (conns s).lent s, x.2.2⟩ : Hosted σ τ) =
        (.ok (), ⟨put ((conns s).filled x.2.1) s, x.2.2⟩) := by
    have hfree : Free (⟨put (conns s).lent s, x.2.2⟩ : Hosted σ τ) :=
      LawfulConnStore.free_put (conns s).lent h.free
    have hc : conns (⟨put (conns s).lent s, x.2.2⟩ : Hosted σ τ) = (conns s).lent :=
      LawfulConnStore.conns_put _ s
    rw [restoreActive_eq hfree, hc]
    refine (congrArg (fun r : _ × ConnectionArray => (r.1, (⟨put r.2 (put (conns s).lent s), x.2.2⟩ :
      Hosted σ τ))) hr).trans ?_
    rw [LawfulConnStore.put_put]
  rw [hre]

end

theorem prepare_startable (c : Connection) (o : Bool) (idx : BitVec 32) :
    prepare c o idx =
      if c.Startable ⟨o, idx.toNat⟩ then
        (.ok (idx.toNat, (c.size ⟨o, idx.toNat⟩).getD 0, c.base ⟨o, idx.toNat⟩),
          sfnBookkeeping.start ⟨o, idx.toNat⟩ c)
      else (.error .programmerError, c) :=
  prepare_eq c o idx

section

variable (c : Connection) (mh : ServiceHandle) (i o : BitVec 32) (t : σ) (w : τ)

theorem withMappedInvec_hosted (f : Slice → τ → ρ × τ) :
    withMappedInvec c i (fun invec => Hosted.onRest (f invec)) (⟨t, w⟩ : Hosted σ τ) =
      (((Access.invec mh i f).body sfnBookkeeping c w).1,
        ((Access.invec mh i f).body sfnBookkeeping c w).2.1,
        ⟨t, ((Access.invec mh i f).body sfnBookkeeping c w).2.2⟩) := by
  have hp := prepare_startable c false i
  rw [withMappedInvec, Access.body, show prepareInvec c i = prepare c false i from rfl, hp]
  by_cases hs : c.Startable ⟨false, i.toNat⟩
  · rw [if_pos hs, if_pos hs]
    dsimp only [Hosted.onRest]
    rw [markInvecUnmapped_eq]
    by_cases hu : (sfnBookkeeping.start ⟨false, i.toNat⟩ c).unmapped ⟨false, i.toNat⟩ = false
    · rw [if_pos ⟨hs.1, hu⟩, if_pos hu]
      rfl
    · rw [if_neg fun h => hu h.2, if_neg hu]
      rfl
  · rw [if_neg hs, if_neg hs]

theorem withMappedOutvec_hosted (f : Slice → τ → (ρ × Usize) × τ) :
    withMappedOutvec c o (fun outvec => Hosted.onRest (f outvec)) (⟨t, w⟩ : Hosted σ τ) =
      (((Access.outvec mh o f).body sfnBookkeeping c w).1,
        ((Access.outvec mh o f).body sfnBookkeeping c w).2.1,
        ⟨t, ((Access.outvec mh o f).body sfnBookkeeping c w).2.2⟩) := by
  have hp := prepare_startable c true o
  rw [withMappedOutvec, Access.body, show prepareOutvec c o = prepare c true o from rfl, hp]
  by_cases hs : c.Startable ⟨true, o.toNat⟩
  · rw [if_pos hs, if_pos hs]
    dsimp only [Hosted.onRest]
    rw [commitOutvecWrite_eq, show (sfnBookkeeping.start ⟨true, o.toNat⟩ c).size ⟨true, o.toNat⟩ =
      c.size ⟨true, o.toNat⟩ from c.size_setMapped _ _ _]
    -- the reported length is checked after the closure ran
    by_cases hu : (sfnBookkeeping.start ⟨true, o.toNat⟩ c).unmapped ⟨true, o.toNat⟩ = false ∧
        (f (c.slice ⟨true, o.toNat⟩) w).1.2 ≤ (c.size ⟨true, o.toNat⟩).getD 0
    · rw [if_pos ⟨hs.1, hu⟩, if_pos hu]
      rfl
    · rw [if_neg fun h => hu h.2, if_neg hu]
      rfl
  · rw [if_neg hs, if_neg hs]

theorem withMappedInvecOutvec_hosted (f : Slice → Slice → τ → (ρ × Usize) × τ) :
    withMappedInvecOutvec c i o (fun invec outvec => Hosted.onRest (f invec outvec))
        (⟨t, w⟩ : Hosted σ τ) =
      (((Access.invecOutvec mh i o f).body sfnBookkeeping c w).1,
        ((Access.invecOutvec mh i o f).body sfnBookkeeping c w).2.1,
        ⟨t, ((Access.invecOutvec mh i o f).body sfnBookkeeping c w).2.2⟩) := by
  have hp := prepare_startable c false i
  rw [withMappedInvecOutvec, Access.body, show prepareInvec c i = prepare c false i from rfl, hp]
  by_cases hs : c.Startable ⟨false, i.toNat⟩
  swap
  · rw [if_neg hs, if_neg hs]
  rw [if_pos hs, if_pos hs]
  dsimp only
  generalize hc₁ : sfnBookkeeping.start ⟨false, i.toNat⟩ c = c₁
  have hp := prepare_startable c₁ true o
  rw [show prepareOutvec c₁ o = prepare c₁ true o from rfl, hp]
  by_cases hs' : c₁.Startable ⟨true, o.toNat⟩
  swap
  · rw [if_neg hs', if_neg hs']
  rw [if_pos hs', if_pos hs']
  have hslice : c₁.slice ⟨false, i.toNat⟩ = c.slice ⟨false, i.toNat⟩ := by
    rw [← hc₁, Connection.slice, Connection.slice, sfnBookkeeping, Connection.base_setMapped,
      Connection.size_setMapped]
  dsimp only [Hosted.onRest]
  rw [hslice, show Slice.ofRaw (c.base ⟨false, i.toNat⟩) ((c.size ⟨false, i.toNat⟩).getD 0) =
      c.slice ⟨false, i.toNat⟩ from rfl,
    show Slice.ofRaw (c₁.base ⟨true, o.toNat⟩) ((c₁.size ⟨true, o.toNat⟩).getD 0) =
      c₁.slice ⟨true, o.toNat⟩ from rfl,
    show (sfnBookkeeping.start ⟨true, o.toNat⟩ c₁).size ⟨true, o.toNat⟩ =
      c₁.size ⟨true, o.toNat⟩ from c₁.size_setMapped _ _ _]
  generalize f (c.slice ⟨false, i.toNat⟩) (c₁.slice ⟨true, o.toNat⟩) w = r
  rw [commitOutvecWrite_eq]
  by_cases hu : (sfnBookkeeping.start ⟨true, o.toNat⟩ c₁).unmapped ⟨true, o.toNat⟩ = false ∧
      r.1.2 ≤ (c₁.size ⟨true, o.toNat⟩).getD 0
  swap
  · rw [if_neg fun h => hu h.2, if_neg hu]
  rw [if_pos ⟨hs'.1, hu⟩, if_pos hu]
  dsimp only
  rw [markInvecUnmapped_eq]
  by_cases hv : (sfnBookkeeping.finish ⟨true, o.toNat⟩ ((sfnBookkeeping.start ⟨true, o.toNat⟩
      c₁).setWritten o.toNat r.1.2)).unmapped ⟨false, i.toNat⟩ = false
  · rw [if_pos ⟨hs.1, hv⟩, if_pos hv]
    rfl
  · rw [if_neg fun h => hv h.2, if_neg hv]
    rfl

end

/-- **An operation through `SfnApi`.** -/
theorem sfnAccess_eq [SpmCall σ] [LawfulSpm σ] {s : σ} (h : Good s)
    (ha : (LawfulConnStore.conns s).Active) (op : Access τ ρ) (w : τ) :
    SfnApi.access op ⟨s, w⟩ =
      ((op.run sfnBookkeeping (LawfulConnStore.conns s).topSlot w).1,
        ⟨LawfulConnStore.put ((LawfulConnStore.conns s).filled
          (op.run sfnBookkeeping (LawfulConnStore.conns s).topSlot w).2.1) s,
          (op.run sfnBookkeeping (LawfulConnStore.conns s).topSlot w).2.2⟩) := by
  cases op with
  | invec mh i f =>
    exact withValidatedConnection_hosted h ha mh w fun c t w =>
      withMappedInvec_hosted c mh i t w f
  | outvec mh o f =>
    exact withValidatedConnection_hosted h ha mh w fun c t w =>
      withMappedOutvec_hosted c mh o t w f
  | invecOutvec mh i o f =>
    exact withValidatedConnection_hosted h ha mh w fun c t w =>
      withMappedInvecOutvec_hosted c mh i o t w f

/-! ## The SVCs -/

theorem svcHandlerDispatch_of_handled {σ : Type} [SpmCall σ] {num : BitVec 8}
    {frame frame' : SvcStackFrame} {f : SfnCall σ} {s s' : σ}
    (h : handleSvcWithSpm num frame f s = (true, frame', s')) :
    svcHandlerDispatch num frame f s = (frame', s') := by
  rw [svcHandlerDispatch, h]

section

variable {n p : ℕ} {t : SpmIpc n} (others : τ → SvcStackFrame) (f : SfnCall (SpmIpc n))

/-- The flag in `r2`. -/
def dirFlag (isOutvec : Bool) : Usize := if isOutvec then 1 else 0

theorem dirFlag_ne_zero (o : Bool) : (dirFlag o != 0) = o := by
  cases o <;> rfl

theorem svcAccessVec_hosted (h : OnTop p t) (o : Bool) (mh : ServiceHandle) (idx : BitVec 32)
    (w : τ) :
    svcAccessVec (Hosted.svcCall others f) (dirFlag o) mh.val idx ⟨t, w⟩ =
      if t.top.msg.handle ≠ mh then (.error .invalidHandle, ⟨t, w⟩)
      else if t.top.msg.msgType < 0 ∨ ¬ t.top.Startable ⟨o, idx.toNat⟩ then
        (.error .programmerError, ⟨t, w⟩)
      else (.ok (t.top.slice ⟨o, idx.toNat⟩),
        ⟨(t.withTop (svcBookkeeping.start ⟨o, idx.toNat⟩ t.top)).applyMpuConfig p, w⟩) := by
  let svc : VecSvc :=
    ⟨false, { others w with r0 := mh.val, r1 := idx, r2 := dirFlag o, r3 := 0 }⟩
  have hvec : svc.vec = ⟨o, idx.toNat⟩ := congrArg (Vec.mk · idx.toNat) (dirFlag_ne_zero o)
  have hpass : svc.Passes t.top ↔ t.top.msg.handle = mh ∧ 0 ≤ t.top.msg.msgType ∧
      t.top.Startable ⟨o, idx.toNat⟩ := by
    rw [VecSvc.Passes, hvec, show svc.frame.r0 = mh.val from rfl, serviceHandleFromRaw_val,
      Except.ok.injEq, eq_comm (a := mh), if_neg (show ¬svc.isRelease = true from Bool.noConfusion)]
    rfl
  by_cases hp : svc.Passes t.top
  · obtain ⟨hh, hty, hs⟩ := hpass.mp hp
    have hrun := svcHandlerDispatch_of_handled (handleSvc_of_passes svc f h.good h.active h.find hp)
    rw [if_neg (not_not.mpr hh), if_neg (by simp [hty, hs])]
    rw [svcAccessVec, Hosted.svcCall, svcCall, show svcHandlerDispatch svcPsaAccessVec
      { others w with r0 := mh.val, r1 := idx, r2 := dirFlag o, r3 := 0 } f t = _ from hrun]
    rw [VecSvc.answer, VecSvc.after, hvec]
    rfl
  · have hrun := svcHandlerDispatch_of_handled
      (handleSvc_error svc f h.good h.active (serviceHandleFromRaw_val mh) hp)
    rw [svcAccessVec, Hosted.svcCall, svcCall, show svcHandlerDispatch svcPsaAccessVec
      { others w with r0 := mh.val, r1 := idx, r2 := dirFlag o, r3 := 0 } f t = _ from hrun]
    by_cases hh : t.top.msg.handle = mh
    · have hbad : t.top.msg.msgType < 0 ∨ ¬ t.top.Startable ⟨o, idx.toNat⟩ := by
        rw [← not_le, ← not_and_or]
        exact fun hb => hp (hpass.mpr ⟨hh, hb⟩)
      rw [if_pos hh, if_neg (not_not.mpr hh), if_pos hbad]
      rfl
    · rw [if_neg hh, if_pos hh]
      rfl

/-- Giving back a vector that was just accessed. -/
theorem svcReleaseVec_hosted (h : OnTop p t) (o : Bool) {mh : ServiceHandle} {idx : BitVec 32}
    (hh : t.top.msg.handle = mh) (hty : 0 ≤ t.top.msg.msgType) (hi : idx.toNat < psaMaxIovec)
    (written : Usize) (w : τ) :
    svcReleaseVec (Hosted.svcCall others f) (dirFlag o) mh.val idx written ⟨t, w⟩ =
      if t.top.unmapped ⟨o, idx.toNat⟩ = false ∧
          (o = true → written ≤ (t.top.size ⟨o, idx.toNat⟩).getD 0) then
        (.ok (), ⟨(t.withTop (svcBookkeeping.finish ⟨o, idx.toNat⟩
          (if o then t.top.setWritten idx.toNat written else t.top))).applyMpuConfig p, w⟩)
      else (.error .programmerError, ⟨t, w⟩) := by
  let svc : VecSvc :=
    ⟨true, { others w with r0 := mh.val, r1 := idx, r2 := dirFlag o, r3 := written }⟩
  have hvec : svc.vec = ⟨o, idx.toNat⟩ := congrArg (Vec.mk · idx.toNat) (dirFlag_ne_zero o)
  have hpass : svc.Passes t.top ↔ t.top.unmapped ⟨o, idx.toNat⟩ = false ∧
      (o = true → written ≤ (t.top.size ⟨o, idx.toNat⟩).getD 0) := by
    rw [VecSvc.Passes, hvec, show svc.frame.r0 = mh.val from rfl, serviceHandleFromRaw_val, hh,
      if_pos (show svc.isRelease = true from rfl)]
    exact ⟨fun hb => hb.2.2.2, fun hb => ⟨rfl, hty, hi, hb⟩⟩
  by_cases hp : svc.Passes t.top
  · have hrun := svcHandlerDispatch_of_handled (handleSvc_of_passes svc f h.good h.active h.find hp)
    rw [if_pos (hpass.mp hp)]
    rw [svcReleaseVec, Hosted.svcCall, svcCall, show svcHandlerDispatch svcPsaReleaseVec
      { others w with r0 := mh.val, r1 := idx, r2 := dirFlag o, r3 := written } f t = _ from hrun]
    rw [VecSvc.answer, VecSvc.after, hvec]
    rfl
  · have hrun := svcHandlerDispatch_of_handled
      (handleSvc_error svc f h.good h.active (serviceHandleFromRaw_val mh) hp)
    rw [svcReleaseVec, Hosted.svcCall, svcCall, show svcHandlerDispatch svcPsaReleaseVec
      { others w with r0 := mh.val, r1 := idx, r2 := dirFlag o, r3 := written } f t = _ from hrun]
    rw [if_pos hh, if_neg (mt hpass.mpr hp)]
    rfl

/-- A run ends with a result, an active connection and the surroundings. -/
structure EndsWith (p : ℕ) (r : Except StatusCode ρ × Hosted (SpmIpc n) τ)
    (x : Except StatusCode ρ × Connection × τ) : Prop where
  onTop : OnTop p r.2.spm
  result : r.1 = x.1
  top : r.2.spm.top = x.2.1
  rest : r.2.rest = x.2.2

theorem msg_start (v : Vec) (c : Connection) :
    (svcBookkeeping.start v c).msg = c.msg := by
  simp only [svcBookkeeping, Connection.msg_setUnmapped, Connection.msg_setMapped]

theorem msg_finish (v : Vec) (c : Connection) : (svcBookkeeping.finish v c).msg = c.msg := by
  simp only [svcBookkeeping, Connection.msg_setUnmapped, Connection.msg_setMapped]

theorem slice_start (v u : Vec) (c : Connection) :
    (svcBookkeeping.start v c).slice u = c.slice u := by
  simp only [svcBookkeeping, Connection.slice, Connection.base_setUnmapped,
    Connection.base_setMapped, Connection.size_setUnmapped, Connection.size_setMapped]

/-- An operation whose first SVC fails. -/
theorem svcAccess_of_error {svc : SvcCall (Hosted σ τ)} {s : Hosted σ τ} {e : StatusCode}
    (op : Access τ ρ)
    (h : ∀ o idx, svcAccessVec svc (dirFlag o) op.msgHandle.val idx s = (.error e, s)) :
    SvcApi.access svc op s = (.error e, s) := by
  cases op with
  | invec mh i g =>
    have h := h false i
    rw [SvcApi.access, SvcApi.accessInvec, show svcAccessInvec svc mh.val i s = _ from h]
  | outvec mh o g =>
    have h := h true o
    rw [SvcApi.access, SvcApi.accessOutvec, show svcAccessOutvec svc mh.val o s = _ from h]
  | invecOutvec mh i o g =>
    have h := h false i
    rw [SvcApi.access, SvcApi.accessInvecOutvec, show svcAccessInvec svc mh.val i s = _ from h]

section

variable (h : OnTop p t) {mh : ServiceHandle} (hh : t.top.msg.handle = mh)
  (hty : 0 ≤ t.top.msg.msgType) (w : τ)

include h hh hty

theorem svcAccessVec_meant (o : Bool) (idx : BitVec 32) :
    svcAccessVec (Hosted.svcCall others f) (dirFlag o) mh.val idx ⟨t, w⟩ =
      if t.top.Startable ⟨o, idx.toNat⟩ then (.ok (t.top.slice ⟨o, idx.toNat⟩),
        ⟨(t.withTop (svcBookkeeping.start ⟨o, idx.toNat⟩ t.top)).applyMpuConfig p, w⟩)
      else (.error .programmerError, ⟨t, w⟩) := by
  rw [svcAccessVec_hosted others f h, if_neg (not_not.mpr hh)]
  by_cases hs : t.top.Startable ⟨o, idx.toNat⟩
  · rw [if_pos hs, if_neg (not_or.mpr ⟨not_lt.mpr hty, not_not.mpr hs⟩)]
  · rw [if_neg hs, if_pos (.inr hs)]

/-- After an access, the same service is still active. -/
theorem meant_of_start (v : Vec) : ∃ t₁,
    (t.withTop (svcBookkeeping.start v t.top)).applyMpuConfig p = t₁ ∧ OnTop p t₁ ∧
      t₁.top = svcBookkeeping.start v t.top ∧ t₁.top.msg.handle = mh ∧ 0 ≤ t₁.top.msg.msgType := by
  have hm := msg_start v t.top
  obtain ⟨h₁, ht₁⟩ := h.replace (congrArg PsaMsg.handle hm)
  refine ⟨_, rfl, h₁, ht₁, ?_, ?_⟩
  · rw [ht₁, hm, hh]
  · rw [ht₁, hm]
    exact hty

theorem svcAccessInvec_eq (i : BitVec 32) (g : Slice → τ → ρ × τ) :
    EndsWith p (SvcApi.accessInvec (Hosted.svcCall others f) mh i
        (fun invec => Hosted.onRest (g invec)) ⟨t, w⟩)
      ((Access.invec mh i g).body svcBookkeeping t.top w) := by
  rw [SvcApi.accessInvec, svcAccessInvec, show (0 : Usize) = dirFlag false from rfl,
    svcAccessVec_meant others f h hh hty, Access.body]
  by_cases hs : t.top.Startable ⟨false, i.toNat⟩
  swap
  · rw [if_neg hs, if_neg hs]
    exact ⟨h, rfl, rfl, rfl⟩
  obtain ⟨t₁, he, h₁, ht₁, hh₁, hty₁⟩ := meant_of_start h hh hty ⟨false, i.toNat⟩
  rw [if_pos hs, if_pos hs, he]
  dsimp only [Hosted.onRest]
  rw [← ht₁, svcReleaseInvec, show (0 : Usize) = dirFlag false from rfl,
    svcReleaseVec_hosted others f h₁ false hh₁ hty₁ hs.1]
  by_cases hu : t₁.top.unmapped ⟨false, i.toNat⟩ = false
  · rw [if_pos ⟨hu, nofun⟩, if_pos hu]
    obtain ⟨h₂, ht₂⟩ := h₁.replace (congrArg PsaMsg.handle (msg_finish ⟨false, i.toNat⟩ t₁.top))
    exact ⟨h₂, rfl, ht₂, rfl⟩
  · rw [if_neg fun hb => hu hb.1, if_neg hu]
    exact ⟨h₁, rfl, rfl, rfl⟩

theorem svcAccessOutvec_eq (o : BitVec 32) (g : Slice → τ → (ρ × Usize) × τ) :
    EndsWith p (SvcApi.accessOutvec (Hosted.svcCall others f) mh o
        (fun outvec => Hosted.onRest (g outvec)) ⟨t, w⟩)
      ((Access.outvec mh o g).body svcBookkeeping t.top w) := by
  rw [SvcApi.accessOutvec, svcAccessOutvec, show (1 : Usize) = dirFlag true from rfl,
    svcAccessVec_meant others f h hh hty, Access.body]
  by_cases hs : t.top.Startable ⟨true, o.toNat⟩
  swap
  · rw [if_neg hs, if_neg hs]
    exact ⟨h, rfl, rfl, rfl⟩
  obtain ⟨t₁, he, h₁, ht₁, hh₁, hty₁⟩ := meant_of_start h hh hty ⟨true, o.toNat⟩
  rw [if_pos hs, if_pos hs, he]
  dsimp only [Hosted.onRest]
  generalize g (t.top.slice ⟨true, o.toNat⟩) w = r
  rw [← ht₁, svcReleaseOutvec, show (1 : Usize) = dirFlag true from rfl,
    svcReleaseVec_hosted others f h₁ true hh₁ hty₁ hs.1]
  by_cases hu : t₁.top.unmapped ⟨true, o.toNat⟩ = false ∧
      r.1.2 ≤ (t₁.top.size ⟨true, o.toNat⟩).getD 0
  · rw [if_pos ⟨hu.1, fun _ => hu.2⟩, if_pos hu]
    obtain ⟨h₂, ht₂⟩ := h₁.replace ((congrArg PsaMsg.handle
      (msg_finish ⟨true, o.toNat⟩ (t₁.top.setWritten o.toNat r.1.2))).trans
        (Connection.handle_setWritten _ _ _))
    exact ⟨h₂, rfl, ht₂, rfl⟩
  · rw [if_neg fun hb => hu ⟨hb.1, hb.2 rfl⟩, if_neg hu]
    exact ⟨h₁, rfl, rfl, rfl⟩

theorem svcAccessInvecOutvec_eq (i o : BitVec 32) (g : Slice → Slice → τ → (ρ × Usize) × τ) :
    EndsWith p (SvcApi.accessInvecOutvec (Hosted.svcCall others f) mh i o
        (fun invec outvec => Hosted.onRest (g invec outvec)) ⟨t, w⟩)
      ((Access.invecOutvec mh i o g).body svcBookkeeping t.top w) := by
  rw [SvcApi.accessInvecOutvec, svcAccessInvec, show (0 : Usize) = dirFlag false from rfl,
    svcAccessVec_meant others f h hh hty, Access.body]
  by_cases hs : t.top.Startable ⟨false, i.toNat⟩
  swap
  · rw [if_neg hs, if_neg hs]
    exact ⟨h, rfl, rfl, rfl⟩
  obtain ⟨t₁, he, h₁, ht₁, hh₁, hty₁⟩ := meant_of_start h hh hty ⟨false, i.toNat⟩
  have hslice : t₁.top.slice ⟨false, i.toNat⟩ = t.top.slice ⟨false, i.toNat⟩ := by
    rw [ht₁, slice_start]
  rw [if_pos hs, if_pos hs, he]
  dsimp only
  rw [← ht₁, svcAccessOutvec, show (1 : Usize) = dirFlag true from rfl,
    svcAccessVec_meant others f h₁ hh₁ hty₁]
  by_cases hs' : t₁.top.Startable ⟨true, o.toNat⟩
  swap
  · rw [if_neg hs', if_neg hs']
    exact ⟨h₁, rfl, rfl, rfl⟩
  obtain ⟨t₂, he', h₂, ht₂, hh₂, hty₂⟩ := meant_of_start h₁ hh₁ hty₁ ⟨true, o.toNat⟩
  rw [if_pos hs', if_pos hs', he']
  dsimp only [Hosted.onRest]
  rw [← ht₂, hslice]
  generalize g (t.top.slice ⟨false, i.toNat⟩) (t₁.top.slice ⟨true, o.toNat⟩) w = r
  rw [svcReleaseOutvec, show (1 : Usize) = dirFlag true from rfl,
    svcReleaseVec_hosted others f h₂ true hh₂ hty₂ hs'.1]
  by_cases hu : t₂.top.unmapped ⟨true, o.toNat⟩ = false ∧
      r.1.2 ≤ (t₂.top.size ⟨true, o.toNat⟩).getD 0
  swap
  · rw [if_neg fun hb => hu ⟨hb.1, hb.2 rfl⟩, if_neg hu]
    exact ⟨h₂, rfl, rfl, rfl⟩
  rw [if_pos ⟨hu.1, fun _ => hu.2⟩, if_pos hu]
  have hm := msg_finish ⟨true, o.toNat⟩ (t₂.top.setWritten o.toNat r.1.2)
  obtain ⟨h₃, ht₃⟩ := h₂.replace ((congrArg PsaMsg.handle hm).trans
    (Connection.handle_setWritten _ _ _))
  dsimp only
  rw [if_pos rfl]
  generalize (t₂.withTop (svcBookkeeping.finish ⟨true, o.toNat⟩
    (t₂.top.setWritten o.toNat r.1.2))).applyMpuConfig p = t₃ at h₃ ht₃ ⊢
  rw [← ht₃] at hm ⊢
  rw [svcReleaseInvec, show (0 : Usize) = dirFlag false from rfl,
    svcReleaseVec_hosted others f h₃ false (by rw [hm]; exact hh₂) (by rw [hm]; exact hty₂) hs.1]
  by_cases hv : t₃.top.unmapped ⟨false, i.toNat⟩ = false
  · rw [if_pos ⟨hv, nofun⟩, if_pos hv]
    obtain ⟨h₄, ht₄⟩ := h₃.replace (congrArg PsaMsg.handle (msg_finish ⟨false, i.toNat⟩ t₃.top))
    exact ⟨h₄, rfl, ht₄, rfl⟩
  · rw [if_neg fun hb => hv hb.1, if_neg hv]
    exact ⟨h₃, rfl, rfl, rfl⟩

end

/-- **An operation through `SvcApi`.** -/
theorem svcAccess_eq (h : OnTop p t) (op : Access τ ρ) (w : τ) :
    EndsWith p (SvcApi.access (Hosted.svcCall others f) op ⟨t, w⟩)
      (op.run svcBookkeeping t.top w) := by
  rw [Access.run, validatedIn]
  by_cases hh : t.top.msg.handle = op.msgHandle
  swap
  · rw [if_pos hh, svcAccess_of_error op fun o idx =>
      (svcAccessVec_hosted others f h o op.msgHandle idx w).trans (if_pos hh)]
    exact ⟨h, rfl, rfl, rfl⟩
  rw [if_neg (not_not.mpr hh)]
  by_cases hty : t.top.msg.msgType < 0
  · rw [if_pos hty, svcAccess_of_error op fun o idx =>
      (svcAccessVec_hosted others f h o op.msgHandle idx w).trans
        ((if_neg (not_not.mpr hh)).trans (if_pos (.inl hty)))]
    exact ⟨h, rfl, rfl, rfl⟩
  rw [if_neg hty]
  have hty := not_lt.mp hty
  cases op with
  | invec mh i g => exact svcAccessInvec_eq others f h hh hty w i g
  | outvec mh o g => exact svcAccessOutvec_eq others f h hh hty w o g
  | invecOutvec mh i o g => exact svcAccessInvecOutvec_eq others f h hh hty w i o g

end

end RuSpe
