import RuSpe.Spm.CallFromSlices
import RuSpe.Spm.IpcSvc
import RuSpe.Spm.Observed
import RuSpe.Spm.Permission

set_option autoImplicit false

/-!
# What a service gets is what was validated

Every range that a run hands out is held against the request it is handed out for. The ledger of a
log is the stack of the requests that are being served; a log is validated if every range in it
belongs to the innermost of them.

* `SfnApi.Request.Grants`: a range is empty, or starts a vector of the request that was checked;
* `Ledger`, `Validated`: the requests behind a log, and what it may contain;
* `Connection.Shrinks`, `FromRequest`: a connection at some time after its request was accepted;
* `Observed.Inv`, `Observed.Works`: the invariant of a run and what finished work keeps;
* **`works_observe`**: every service keeps it;
* **`grants_validated`**: the logs of all runs are validated, and no recorded size grows.
-/

namespace RuSpe

/-! ## Requests -/

namespace SfnApi.Request

variable (req : SfnApi.Request)

/-- What `SfnApi::call` makes of the request before the service runs. -/
def accept : Except StatusCode (Connection × List FFOutVec) :=
  (acceptCall req.mem req.perm req.handle req.ctrlParam req.inVec req.outVec req.caller).1

/-- The vector a descriptor of the request names. -/
def vec (v : Vec) : Option Slice :=
  if v.isOutvec then
    ((req.mem.outVecs req.outVec req.ctrlParam.outLen)[v.idx]?).map fun d => ⟨d.base, d.len⟩
  else ((req.mem.inVecs req.inVec req.ctrlParam.inLen)[v.idx]?).map fun d => ⟨d.base, d.len⟩

/-- The range is empty, or it starts the vector `v` of the request, which was checked for the
caller in this direction. -/
def Grants (v : Vec) (slice : Slice) : Prop :=
  slice.len = 0 ∨ ∃ w, req.vec v = some w ∧ slice.base = w.base ∧ slice.len ≤ w.len ∧
    VecAllowed req.perm req.caller v.isOutvec w.base w.len

end SfnApi.Request

/-! ## The ledger of a log -/

/-- The request that was made last, and those that are being served, innermost first. -/
structure Ledger where
  pending : Option SfnApi.Request
  calls : List SfnApi.Request

namespace Ledger

/-- The ledger after an event. -/
def after (g : Ledger) : Event → Ledger
  | .called req => { g with pending := some req }
  | .entered _ => ⟨none, g.pending.toList ++ g.calls⟩
  | .left => { g with calls := g.calls.tail }
  | _ => g

/-- The innermost request has the handle and grants the range. -/
def Serves (g : Ledger) (handle : Except StatusCode ServiceHandle) (v : Vec) (slice : Slice) :
    Prop :=
  ∃ req, g.calls.head? = some req ∧ handle = .ok req.handle ∧ req.Grants v slice

/-- What the ledger allows to happen next. -/
def Allows (g : Ledger) : Event → Prop
  | .called _ => True
  | .entered c => ∃ req, g.pending = some req ∧ ∃ outs, req.accept = .ok (c, outs)
  | .left => True
  | .shown handle v slice => g.Serves (.ok handle) v slice
  | .shownBoth handle i j invec outvec =>
    g.Serves (.ok handle) ⟨false, i⟩ invec ∧ g.Serves (.ok handle) ⟨true, j⟩ outvec
  | .answered frame answer => answer.r2 = 0 ∨
    g.Serves (serviceHandleFromRaw frame.r0) ⟨frame.r2 != 0, frame.r1.toNat⟩ ⟨answer.r1, answer.r2⟩
  | .opened v slice => ∃ req, g.calls.head? = some req ∧ req.Grants v slice

end Ledger

/-- The ledger of a log. -/
def ledger : List Event → Ledger
  | [] => ⟨none, []⟩
  | e :: l => (ledger l).after e

/-- Every event was allowed by the events before it. -/
def Validated : List Event → Prop
  | [] => True
  | e :: l => (ledger l).Allows e ∧ Validated l

theorem validated_iff (log : List Event) :
    Validated log ↔ ∀ e l, e :: l <:+ log → (ledger l).Allows e := by
  induction log with
  | nil => simp [Validated]
  | cons d log ih =>
    rw [Validated, ih]
    constructor
    · rintro ⟨hd, hl⟩ e l h
      rcases List.suffix_cons_iff.mp h with heq | h
      · obtain ⟨rfl, rfl⟩ := List.cons.inj heq
        exact hd
      · exact hl e l h
    · intro h
      exact ⟨h d log (List.suffix_refl _), fun e l he => h e l (he.trans (List.suffix_cons d log))⟩

/-! ## Connections as time goes by -/

namespace Connection

/-- `d` is `c` after its service used some vectors: the same call, and no size has grown. -/
structure Shrinks (c d : Connection) : Prop where
  same : c.SameCall d
  size : ∀ v, (d.size v).getD 0 ≤ (c.size v).getD 0

instance : Std.Refl Shrinks where
  refl c := ⟨Std.Refl.refl c, fun _ => BitVec.le_refl _⟩

instance : IsTrans Connection Shrinks where
  trans _ _ _ h h' :=
    ⟨IsTrans.trans _ _ _ h.same h'.same, fun v => BitVec.le_trans (h'.size v) (h.size v)⟩

variable (c : Connection)

theorem shrinks_setMapped (v : Vec) (b : Bool) : c.Shrinks (c.setMapped v b) :=
  ⟨c.sameCall_setMapped v b, fun w => by rw [size_setMapped]; exact BitVec.le_refl _⟩

theorem shrinks_setUnmapped (v : Vec) (b : Bool) : c.Shrinks (c.setUnmapped v b) :=
  ⟨c.sameCall_setUnmapped v b, fun w => by rw [size_setUnmapped]; exact BitVec.le_refl _⟩

/-- The size read back from a word is at most the word. -/
theorem asOption_some_le (n : Usize) : ((MaybeUsize.some n).asOption).getD 0 ≤ n := by
  rw [MaybeUsize.asOption]
  split_ifs
  · exact BitVec.le_refl n
  · exact Nat.zero_le n.toNat

theorem shrinks_setWritten {i : ℕ} {n : Usize} (h : n ≤ (c.size ⟨true, i⟩).getD 0) :
    c.Shrinks (c.setWritten i n) := by
  refine ⟨c.sameCall_setWritten i n, fun w => ?_⟩
  rw [size_setWritten]
  split_ifs with hw
  · rw [hw.1]
    exact BitVec.le_trans (asOption_some_le n) h
  · exact BitVec.le_refl _

theorem shrinks_prepare (o : Bool) (idx : BitVec 32) : c.Shrinks (prepare c o idx).2 := by
  rw [prepare_eq]
  split_ifs
  · exact c.shrinks_setMapped _ _
  · exact Std.Refl.refl c

theorem shrinks_markInvecUnmapped (i : ℕ) : c.Shrinks (markInvecUnmapped c i).2 := by
  rw [markInvecUnmapped_eq]
  split_ifs
  · exact c.shrinks_setUnmapped ⟨false, i⟩ true
  · exact Std.Refl.refl c

theorem shrinks_commitOutvecWrite {i : ℕ} {l n : Usize} (h : l = (c.size ⟨true, i⟩).getD 0) :
    c.Shrinks (commitOutvecWrite c i l n).2 := by
  rw [commitOutvecWrite_eq]
  split_ifs with hc
  · exact IsTrans.trans _ _ _ (c.shrinks_setWritten (h ▸ hc.2.2))
      (shrinks_setUnmapped (c.setWritten i n) ⟨true, i⟩ true)
  · exact Std.Refl.refl c

end Connection

/-- What a vector that can be started hands out. -/
theorem prepare_eq_ok {c c' : Connection} {o : Bool} {idx : BitVec 32} {i : ℕ} {n b : Usize}
    (h : prepare c o idx = (.ok (i, n, b), c')) :
    i = idx.toNat ∧ n = (c.size ⟨o, idx.toNat⟩).getD 0 ∧ b = c.base ⟨o, idx.toNat⟩ ∧
      c' = c.setMapped ⟨o, idx.toNat⟩ true := by
  rw [prepare_eq] at h
  split_ifs at h
  · obtain ⟨hr, rfl⟩ := Prod.mk.inj h
    obtain ⟨rfl, hr'⟩ := Prod.mk.inj (Except.ok.inj hr)
    obtain ⟨rfl, rfl⟩ := Prod.mk.inj hr'
    exact ⟨rfl, rfl, rfl, rfl⟩
  · cases h

/-- `c` is the connection of `req` some time after it was accepted. -/
def FromRequest (req : SfnApi.Request) (c : Connection) : Prop :=
  ∃ c₀ outs, req.accept = .ok (c₀, outs) ∧ c₀.Shrinks c

theorem FromRequest.shrinks {req : SfnApi.Request} {c d : Connection} (h : FromRequest req c)
    (hd : c.Shrinks d) : FromRequest req d := by
  obtain ⟨c₀, outs, ha, hc⟩ := h
  exact ⟨c₀, outs, ha, IsTrans.trans _ _ _ hc hd⟩

/-- An accepted request was accepted by `call_from_slices` for the descriptors it names. -/
theorem callFromSlices_of_accept {req : SfnApi.Request} {c : Connection} {outs : List FFOutVec}
    (h : req.accept = .ok (c, outs)) :
    (callFromSlices req.perm req.handle req.ctrlParam
      (req.mem.inVecs req.inVec req.ctrlParam.inLen)
      (req.mem.outVecs req.outVec req.ctrlParam.outLen) req.caller).1 = .ok (c, outs) := by
  obtain ⟨⟨t, i, o⟩, hp, h, -⟩ := TouchM.bind_eq_ok h
  obtain ⟨⟨⟩, -, h, -⟩ := TouchM.bind_eq_ok h
  obtain ⟨⟨⟩, -, h, -⟩ := TouchM.bind_eq_ok h
  obtain ⟨⟨⟩, -, h, -⟩ := TouchM.bind_eq_ok h
  obtain ⟨-, -, rfl, rfl, -⟩ := validateCallParams_eq_ok_iff.mp hp
  exact h

theorem FromRequest.accepted {req : SfnApi.Request} {c : Connection} (h : FromRequest req c) :
    c.msg.handle = req.handle ∧ c.msg.caller = req.caller ∧
      ∀ v, req.Grants v ⟨c.base v, (c.size v).getD 0⟩ := by
  obtain ⟨c₀, outs, ha, hc⟩ := h
  have hcall := callFromSlices_of_accept ha
  obtain ⟨hA, -, -⟩ := acceptable_of_ok hcall
  obtain ⟨t, -, rfl, hD⟩ := callFromSlices_ok hcall
  refine ⟨hc.same.handle.trans hD.handle, hc.same.caller.trans hD.callerAttr, fun v => ?_⟩
  have hle := hc.size v
  have hb := hc.same.base v
  obtain ⟨o, i⟩ := v
  cases o with
  | false =>
    rw [hD.sizeIn i] at hle
    by_cases hi : i < (req.mem.inVecs req.inVec req.ctrlParam.inLen).length
    · rw [List.getElem?_eq_getElem hi, Option.map_some, Option.getD_some] at hle
      refine .inr ⟨⟨_, _⟩, ?_, hb.trans (hD.baseIn i hi), hle, hA.ins _ (List.getElem_mem hi)⟩
      rw [SfnApi.Request.vec, if_neg Bool.false_ne_true, List.getElem?_eq_getElem hi]
      rfl
    · rw [List.getElem?_eq_none (not_lt.mp hi)] at hle
      exact .inl (BitVec.le_zero_iff.mp hle)
  | true =>
    rw [hD.sizeOut i] at hle
    by_cases hi : i < (req.mem.outVecs req.outVec req.ctrlParam.outLen).length
    · rw [List.getElem?_eq_getElem hi, Option.map_some, Option.getD_some] at hle
      refine .inr ⟨⟨_, _⟩, ?_, hb.trans (hD.baseOut i hi), hle, hA.outs _ (List.getElem_mem hi)⟩
      rw [SfnApi.Request.vec, if_pos rfl, List.getElem?_eq_getElem hi]
      rfl
    · rw [List.getElem?_eq_none (not_lt.mp hi)] at hle
      exact .inl (BitVec.le_zero_iff.mp hle)

theorem SfnApi.Request.Grants.ofRaw {req : SfnApi.Request} {v : Vec} {base len : Usize}
    (h : req.Grants v ⟨base, len⟩) : req.Grants v (.ofRaw base len) := by
  rw [Slice.ofRaw]
  split_ifs
  · exact .inl rfl
  · exact h

/-! ## The invariant of a run -/

/-- An SPM that only changes flags when it maps a vector, and programs the MPU for vectors of the
active connection. -/
class GrantingSpm (σ : Type) [SpmCall σ] [MpuUse σ] extends LawfulSpm σ where
  mapVec_shrinks {s : σ} (h : Free s) (hw : (conns s).Wf) (o : Bool) (idx : BitVec 32)
    (b n : Usize) : conns (SpmCall.mapVec o idx b n s) = conns s ∨ (conns s).Active ∧
      ∃ c, (conns s).topSlot.Shrinks c ∧ conns (SpmCall.mapVec o idx b n s) = (conns s).filled c
  unmapVec_shrinks {s : σ} (h : Free s) (hw : (conns s).Wf) (o : Bool) (idx : BitVec 32) :
    conns (SpmCall.unmapVec o idx s) = conns s ∨ (conns s).Active ∧
      ∃ c, (conns s).topSlot.Shrinks c ∧ conns (SpmCall.unmapVec o idx s) = (conns s).filled c
  opened_eq {s : σ} (hw : (conns s).Wf) {v : Vec} {slice : Slice}
    (h : (v, slice) ∈ MpuUse.opened s) : (conns s).Active ∧
      slice = ⟨(conns s).topSlot.base v, ((conns s).topSlot.size v).getD 0⟩

section

variable {σ : Type} [SpmCall σ] [MpuUse σ] [GrantingSpm σ]

open LawfulConnStore (conns put Free)

instance : LawfulConnStore (Observed σ) where
  conns s := conns s.spm
  put a s := { s with spm := put a s.spm }
  Free s := Free s.spm
  conns_put a s := LawfulConnStore.conns_put a s.spm
  free_put a h := LawfulConnStore.free_put a h
  put_put a b s := by rw [LawfulConnStore.put_put]
  put_conns {s} h := by rw [LawfulConnStore.put_conns h]
  tryLock_eq {s _} h f := by
    simp only [ConnStore.tryLock]
    rw [LawfulConnStore.tryLock_eq h]

namespace Observed

/-- The requests that are being served are those of the connections on the stack. -/
def Tracks (calls : List SfnApi.Request) (st : LentStack Connection) : Prop :=
  List.Forall₂ (fun req p => FromRequest req p.val) calls st

/-- The invariant of a run. -/
structure Inv (s : Observed σ) : Prop where
  free : Free s
  wf : (conns s).Wf
  validated : Validated s.log
  tracks : Tracks (ledger s.log).calls (conns s).stack

/-- The work between `s` and `t` is finished. -/
structure Works (s t : Observed σ) : Prop where
  inv : Inv t
  kept : LentStack.Kept Connection.Shrinks (conns s).stack (conns t).stack
  calls : (ledger t.log).calls = (ledger s.log).calls

variable {s t u : Observed σ}

theorem Works.refl (h : Inv s) : Works s s := ⟨h, .refl _, rfl⟩

theorem Works.trans (h : Works s t) (h' : Works t u) : Works s u :=
  ⟨h'.inv, h.kept.trans h'.kept, h'.calls.trans h.calls⟩

/-- The innermost request is the one of the top connection. -/
theorem Inv.head (h : Inv s) (h0 : (conns s).topConnection ≠ 0) :
    ∃ req, (ledger s.log).calls.head? = some req ∧ FromRequest req (conns s).topSlot := by
  have ht := h.tracks
  rw [Tracks, ConnectionArray.stack_eq_cons h0] at ht
  rcases hl : (ledger s.log).calls with _ | ⟨req, rest⟩ <;> rw [hl] at ht
  · cases ht
  · exact ⟨req, rfl, (List.forall₂_cons.mp ht).1⟩

/-- The top connection grants what it records. -/
theorem Inv.serves (h : Inv s) (h0 : (conns s).topConnection ≠ 0) (v : Vec) :
    (ledger s.log).Serves (.ok (conns s).topSlot.msg.handle) v
      ⟨(conns s).topSlot.base v, ((conns s).topSlot.size v).getD 0⟩ := by
  obtain ⟨req, hr, hf⟩ := h.head h0
  obtain ⟨hh, -, hg⟩ := hf.accepted
  exact ⟨req, hr, by rw [hh], hg v⟩

/-- An event that is allowed and leaves the calls alone. -/
theorem Inv.note {e : Event} (h : Inv s) (ha : (ledger s.log).Allows e)
    (hc : ((ledger s.log).after e).calls = (ledger s.log).calls) : Works s (s.note e) := by
  refine ⟨⟨h.free, h.wf, ⟨ha, h.validated⟩, ?_⟩, .refl _, hc⟩
  rw [log_note, ledger, hc]
  exact h.tracks

theorem Inv.program (h : Inv s) : Works s s.program := by
  have hall : ∀ x ∈ MpuUse.opened s.spm, ∃ req, (ledger s.log).calls.head? = some req ∧
      req.Grants x.1 x.2 := by
    rintro ⟨v, slice⟩ hx
    obtain ⟨ha, rfl⟩ := GrantingSpm.opened_eq (s := s.spm) h.wf hx
    obtain ⟨req, hr, -, hg⟩ := h.serves (s := s) ha.1 v
    exact ⟨req, hr, hg⟩
  suffices hl : ∀ l : List (Vec × Slice), (∀ x ∈ l, ∃ req, (ledger s.log).calls.head? = some req ∧
      req.Grants x.1 x.2) → Works s ⟨s.spm, l.map (fun x => .opened x.1 x.2) ++ s.log⟩ from
    hl _ hall
  intro l hl
  induction l with
  | nil => exact .refl h
  | cons x l ih =>
    rw [List.forall_mem_cons] at hl
    have ih := ih hl.2
    refine ih.trans (ih.inv.note (e := .opened x.1 x.2) ?_ rfl)
    rw [Ledger.Allows, ih.calls]
    exact hl.1

theorem Tracks.kept {calls : List SfnApi.Request} {st st' : LentStack Connection}
    (h : Tracks calls st) (hk : LentStack.Kept Connection.Shrinks st st') : Tracks calls st' := by
  cases hk with
  | nil => exact h
  | cons p q st hl hv hr =>
    rw [Tracks, List.forall₂_cons_right_iff] at h
    obtain ⟨req, rest, hp, hst, rfl⟩ := h
    exact .cons (hp.shrinks hr) hst

/-! ### The active connection -/

/-- Replacing the active connection by one that shrank. -/
theorem Inv.filled {c : Connection} (h : Inv s) (ha : (conns s).Active)
    (hc : (conns s).topSlot.Shrinks c) (hf : Free t) (ht : conns t = (conns s).filled c)
    (hl : t.log = s.log) : Works s t := by
  have hk : LentStack.Kept Connection.Shrinks (conns s).stack (conns t).stack :=
    ht ▸ ConnectionArray.kept_filled h.wf ha hc
  exact ⟨⟨hf, ht ▸ h.wf.filled ha.1 c, hl ▸ h.validated, hl ▸ h.tracks.kept hk⟩, hk, by rw [hl]⟩

theorem Inv.lent (h : Inv s) (ha : (conns s).Active) : Inv (put (conns s).lent s) := by
  have hcs : conns (put (conns s).lent s) = (conns s).lent := LawfulConnStore.conns_put _ _
  refine ⟨LawfulConnStore.free_put _ h.free, hcs.symm ▸ h.wf.lent, h.validated, ?_⟩
  have ht := h.tracks
  rw [hcs, ConnectionArray.stack_of_not_active (a := (conns s).lent) ha.1
    (ConnectionArray.not_active_lent _)]
  rw [ConnectionArray.stack_of_active ha] at ht
  rw [show (conns s).lent.topConnection = (conns s).topConnection from rfl,
    ConnectionArray.stackBelow_lent]
  obtain ⟨req, rest, hp, hst, hr⟩ := List.forall₂_cons_right_iff.mp ht
  rw [show (ledger (put (conns s).lent s).log).calls = (ledger s.log).calls from rfl, hr]
  exact .cons hp hst

/-- A closure keeps the invariant while it works on the connection it was lent. -/
def Keeps {ρ : Type} (f : Connection → Observed σ → ρ × Connection × Observed σ) : Prop :=
  ∀ t, Inv t → (conns t).topConnection ≠ 0 → Works t (f (conns t).topSlot t).2.2 ∧
    (conns t).topSlot.Shrinks (f (conns t).topSlot t).2.1

theorem works_withActiveConnection {ρ : Type}
    {f : Connection → Observed σ → ρ × Connection × Observed σ} (h : Inv s) (hf : Keeps f) :
    Works s (withActiveConnection f s).2 ∧ ∀ r, (withActiveConnection f s).1 = .ok r →
      (conns s).topConnection ≠ 0 ∧ r = (f (conns s).topSlot (put (conns s).lent s)).1 := by
  rw [withActiveConnection, takeActive_eq h.free h.wf]
  by_cases ha : (conns s).Active
  swap
  · by_cases h0 : (conns s).topConnection = 0
    · simp only [if_neg ha, if_pos h0]
      exact ⟨.refl h, fun r hr => by cases hr⟩
    · simp only [if_neg ha, if_neg h0]
      exact ⟨.refl h, fun r hr => by cases hr⟩
  have hcs : conns (put (conns s).lent s) = (conns s).lent := LawfulConnStore.conns_put _ _
  obtain ⟨hw, hc⟩ := hf _ (h.lent ha) (by rw [hcs]; exact ha.1)
  rw [hcs, show (conns s).lent.topSlot = (conns s).topSlot from rfl] at hw hc
  rcases hr : f (conns s).topSlot (put (conns s).lent s) with ⟨r, c, t⟩
  rw [hr] at hw hc
  have hk := hw.kept
  rw [hcs] at hk
  obtain ⟨hre, h0, hk⟩ := ConnectionArray.restore_of_kept ha hw.inv.wf hk hc
  simp only [if_pos ha, hr, restoreActive_eq hw.inv.free, hre]
  have hct : conns (put ((conns t).filled c) t) = (conns t).filled c := LawfulConnStore.conns_put _ _
  refine ⟨⟨⟨LawfulConnStore.free_put _ hw.inv.free, hct.symm ▸ hw.inv.wf.filled h0 c,
    hw.inv.validated, ?_⟩, hct.symm ▸ hk, hw.calls⟩, fun r' hr' => ⟨ha.1, (Except.ok.inj hr').symm⟩⟩
  rw [hct, show (ledger (put ((conns t).filled c) t).log).calls = (ledger s.log).calls from hw.calls]
  exact h.tracks.kept hk

theorem works_withValidatedConnection {ρ : Type} (mh : ServiceHandle)
    {f : Connection → Observed σ → Except StatusCode ρ × Connection × Observed σ} (h : Inv s)
    (hf : ∀ t, Inv t → (conns t).topConnection ≠ 0 → (conns t).topSlot.msg.handle = mh →
      Works t (f (conns t).topSlot t).2.2 ∧ (conns t).topSlot.Shrinks (f (conns t).topSlot t).2.1) :
    Works s (withValidatedConnection mh f s).2 ∧
      ∀ r, (withValidatedConnection mh f s).1 = .ok r → (conns s).topConnection ≠ 0 ∧
        (conns s).topSlot.msg.handle = mh ∧
          (f (conns s).topSlot (put (conns s).lent s)).1 = .ok r := by
  let body (connection : Connection) (s : Observed σ) :
      Except StatusCode ρ × Connection × Observed σ :=
    if connection.msg.handle ≠ mh then (.error .invalidHandle, connection, s)
    else if connection.msg.msgType < 0 then (.error .programmerError, connection, s)
    else f connection s
  have hbody : Keeps body := fun t ht h0 => by
    simp only [body]
    split_ifs with h1 h2
    · exact ⟨.refl ht, Std.Refl.refl _⟩
    · exact ⟨.refl ht, Std.Refl.refl _⟩
    · exact hf t ht h0 (not_not.mp h1)
  obtain ⟨hw, hr⟩ := works_withActiveConnection h hbody
  rw [withValidatedConnection]
  rcases he : withActiveConnection body s with ⟨e | r, t⟩ <;> rw [he] at hw hr
  · exact ⟨hw, fun r hr => by cases hr⟩
  · refine ⟨hw, fun r' hr' => ?_⟩
    obtain ⟨h0, hb⟩ := hr r rfl
    obtain rfl : r = .ok r' := hr'
    simp only [body] at hb
    split_ifs at hb with h1 h2
    exact ⟨h0, not_not.mp h1, hb.symm⟩

/-! ### The raw operations and the SVCs -/

theorem works_prepareRaw (h : Inv s) (mh : ServiceHandle) (o : Bool) (idx : BitVec 32) :
    Works s (prepareRaw o mh idx s).2 ∧ ∀ raw, (prepareRaw o mh idx s).1 = .ok raw →
      (ledger s.log).Serves (.ok mh) ⟨o, idx.toNat⟩ raw := by
  refine And.imp_right (fun hr raw hraw => ?_)
    (works_withValidatedConnection mh h fun t ht _ _ => ?_)
  swap
  · have hc := (conns t).topSlot.shrinks_prepare o idx
    rcases hp : prepare (conns t).topSlot o idx with ⟨r, c⟩
    rw [hp] at hc
    cases r <;> exact ⟨.refl ht, hc⟩
  obtain ⟨h0, hh, hb⟩ := hr raw hraw
  rw [prepare_eq] at hb
  split_ifs at hb with hi
  obtain rfl := Except.ok.inj hb
  have hs := h.serves h0 ⟨o, idx.toNat⟩
  rwa [hh] at hs

theorem works_finishInvecRaw (h : Inv s) (mh : ServiceHandle) (idx : BitVec 32) :
    Works s (finishInvecRaw mh idx s).2 :=
  (works_withValidatedConnection mh h fun t ht _ _ =>
    ⟨.refl ht, (conns t).topSlot.shrinks_markInvecUnmapped idx.toNat⟩).1

theorem works_finishOutvecRaw (h : Inv s) (mh : ServiceHandle) (idx : BitVec 32) (n : Usize) :
    Works s (finishOutvecRaw mh idx n s).2 :=
  (works_withValidatedConnection mh h fun t ht _ _ =>
    ⟨.refl ht, (conns t).topSlot.shrinks_commitOutvecWrite (outLen_eq _ _)⟩).1

theorem Inv.mapVec (h : Inv s) (o : Bool) (idx : BitVec 32) (b n : Usize) :
    Works s (SpmCall.mapVec o idx b n s) := by
  have hf := (LawfulSpm.mapVec_eq (s := s.spm) h.free h.wf o idx b n).1
  have hm : Works s ⟨SpmCall.mapVec o idx b n s.spm, s.log⟩ := by
    rcases GrantingSpm.mapVec_shrinks (s := s.spm) h.free h.wf o idx b n with he | ⟨ha, c, hc, he⟩
    · exact ⟨⟨hf, he.symm ▸ h.wf, h.validated, he.symm ▸ h.tracks⟩, he.symm ▸ .refl _, rfl⟩
    · exact h.filled ha hc hf he rfl
  exact hm.trans hm.inv.program

theorem Inv.unmapVec (h : Inv s) (o : Bool) (idx : BitVec 32) :
    Works s (SpmCall.unmapVec o idx s) := by
  have hf := (LawfulSpm.unmapVec_eq (s := s.spm) h.free h.wf o idx).1
  have hm : Works s ⟨SpmCall.unmapVec o idx s.spm, s.log⟩ := by
    rcases GrantingSpm.unmapVec_shrinks (s := s.spm) h.free h.wf o idx with he | ⟨ha, c, hc, he⟩
    · exact ⟨⟨hf, he.symm ▸ h.wf, h.validated, he.symm ▸ h.tracks⟩, he.symm ▸ .refl _, rfl⟩
    · exact h.filled ha hc hf he rfl
  exact hm.trans hm.inv.program

/-- An answer with a range is one the ledger allows. -/
theorem works_handleAccessVec (h : Inv s) (mh : ServiceHandle) (frame : SvcStackFrame) :
    Works s (handleAccessVec mh frame s).2 ∧ ((handleAccessVec mh frame s).1.r2 = 0 ∨
      (ledger s.log).Serves (.ok mh) ⟨frame.r2 != 0, frame.r1.toNat⟩
        ⟨(handleAccessVec mh frame s).1.r1, (handleAccessVec mh frame s).1.r2⟩) := by
  have hp : (if (frame.r2 != 0) = true then prepareOutvecRaw mh frame.r1 s
      else prepareInvecRaw mh frame.r1 s) = prepareRaw (frame.r2 != 0) mh frame.r1 s := by
    cases frame.r2 != 0 <;> rfl
  obtain ⟨hw, hr⟩ := works_prepareRaw h mh (frame.r2 != 0) frame.r1
  rw [handleAccessVec, hp]
  rcases hx : prepareRaw (frame.r2 != 0) mh frame.r1 s with ⟨e | raw, t⟩ <;> rw [hx] at hw hr
  · exact ⟨hw, .inl rfl⟩
  · exact ⟨hw.trans (hw.inv.mapVec _ _ _ _), .inr (hr raw rfl)⟩

theorem works_handleReleaseVec (h : Inv s) (mh : ServiceHandle) (frame : SvcStackFrame) :
    Works s (handleReleaseVec mh frame s).2 := by
  have hw : Works s (if (frame.r2 != 0) = true then finishOutvecRaw mh frame.r1 frame.r3 s
      else finishInvecRaw mh frame.r1 s).2 := by
    split_ifs
    · exact works_finishOutvecRaw h mh frame.r1 frame.r3
    · exact works_finishInvecRaw h mh frame.r1
  rw [handleReleaseVec]
  rcases hx : (if (frame.r2 != 0) = true then finishOutvecRaw mh frame.r1 frame.r3 s
    else finishInvecRaw mh frame.r1 s) with ⟨e | ⟨⟩, t⟩ <;> rw [hx] at hw
  · exact hw
  · exact hw.trans (hw.inv.unmapVec _ _)

theorem Works.serves_iff (h : Works s t) {handle : Except StatusCode ServiceHandle} {v : Vec}
    {slice : Slice} :
    (ledger t.log).Serves handle v slice ↔ (ledger s.log).Serves handle v slice := by
  rw [Ledger.Serves, Ledger.Serves, h.calls]

/-- The answer to an access, once it is in the log. -/
theorem works_answered {num : BitVec 8} {frame answer : SvcStackFrame} (h : Works s t)
    (ha : num = svcPsaAccessVec → (ledger s.log).Allows (.answered frame answer)) :
    Works s (noteAnswer num frame answer t) := by
  rw [noteAnswer]
  split_ifs with hn
  · have ha := ha hn
    refine h.trans (h.inv.note ?_ rfl)
    rw [Ledger.Allows, h.serves_iff]
    exact ha
  · exact h

/-- **An SVC keeps the invariant, and so does its answer.** -/
theorem works_svc (h : Inv s) (num : BitVec 8) (frame : SvcStackFrame)
    {f : SfnCall (Observed σ)} (hf : ∀ mh cp iv ov caller, Works s (f mh cp iv ov caller s).2) :
    Works s (noteAnswer num frame (svcHandlerDispatch num frame f s).1
      (svcHandlerDispatch num frame f s).2) := by
  rw [svcHandlerDispatch, handleSvcWithSpm]
  cases hm : serviceHandleFromRaw frame.r0 with
  | error e => exact works_answered (.refl h) fun _ => .inl rfl
  | ok mh =>
    dsimp only
    by_cases h1 : num = svcPsaAccessVec
    · obtain ⟨hw, hr⟩ := works_handleAccessVec h mh frame
      rw [if_pos h1]
      refine works_answered hw fun _ => ?_
      rw [Ledger.Allows, hm]
      exact hr
    rw [if_neg h1]
    by_cases h2 : num = svcPsaReleaseVec
    · rw [if_pos h2]
      exact works_answered (works_handleReleaseVec h mh frame) fun hn => absurd hn h1
    rw [if_neg h2]
    by_cases h3 : num = svcPsaCall
    · rw [if_pos h3]
      have hc := hf mh ⟨frame.r1⟩ frame.r2 frame.r3 .secureUnprivileged
      rcases hx : f mh ⟨frame.r1⟩ frame.r2 frame.r3 .secureUnprivileged s with ⟨e | ⟨⟩, t⟩ <;>
        rw [hx] at hc <;> exact works_answered hc fun hn => absurd hn h1
    rw [if_neg h3]
    by_cases h4 : num = svcPsaVersion
    · rw [if_pos h4]
      exact works_answered (.refl h) fun hn => absurd hn h1
    · rw [if_neg h4]
      exact works_answered (.refl h) fun hn => absurd hn h1

/-! ### The closure API -/

section

variable {ρ : Type} (h : Inv s) (h0 : (conns s).topConnection ≠ 0)

include h h0

theorem Inv.serves_ofRaw (v : Vec) :
    (ledger s.log).Serves (.ok (conns s).topSlot.msg.handle) v
      (.ofRaw ((conns s).topSlot.base v) (((conns s).topSlot.size v).getD 0)) := by
  obtain ⟨req, hr, hh, hg⟩ := h.serves h0 v
  exact ⟨req, hr, hh, hg.ofRaw⟩

theorem works_withMappedInvec (idx : BitVec 32) {f : Slice → Observed σ → ρ × Observed σ}
    (hf : ∀ slice, (ledger s.log).Serves (.ok (conns s).topSlot.msg.handle) ⟨false, idx.toNat⟩ slice →
      Works s (f slice s).2) :
    Works s (withMappedInvec (conns s).topSlot idx f s).2.2 ∧
      (conns s).topSlot.Shrinks (withMappedInvec (conns s).topSlot idx f s).2.1 := by
  have hs := h.serves_ofRaw h0 ⟨false, idx.toNat⟩
  have hc := (conns s).topSlot.shrinks_prepare false idx
  rcases hp : prepare (conns s).topSlot false idx with ⟨e | ⟨i, n, b⟩, c⟩ <;> rw [hp] at hc <;>
    simp only [withMappedInvec, show prepareInvec (conns s).topSlot idx = _ from hp]
  · exact ⟨.refl h, hc⟩
  · obtain ⟨rfl, rfl, rfl, rfl⟩ := prepare_eq_ok hp
    have hc := IsTrans.trans _ _ _ hc (Connection.shrinks_markInvecUnmapped _ idx.toNat)
    rcases hx : markInvecUnmapped ((conns s).topSlot.setMapped ⟨false, idx.toNat⟩ true) idx.toNat
      with ⟨e | ⟨⟩, c⟩ <;> rw [hx] at hc <;> exact ⟨hf _ hs, hc⟩

theorem works_withMappedOutvec (idx : BitVec 32)
    {f : Slice → Observed σ → (ρ × Usize) × Observed σ}
    (hf : ∀ slice, (ledger s.log).Serves (.ok (conns s).topSlot.msg.handle) ⟨true, idx.toNat⟩ slice →
      Works s (f slice s).2) :
    Works s (withMappedOutvec (conns s).topSlot idx f s).2.2 ∧
      (conns s).topSlot.Shrinks (withMappedOutvec (conns s).topSlot idx f s).2.1 := by
  have hs := h.serves_ofRaw h0 ⟨true, idx.toNat⟩
  have hc := (conns s).topSlot.shrinks_prepare true idx
  rcases hp : prepare (conns s).topSlot true idx with ⟨e | ⟨i, n, b⟩, c⟩ <;> rw [hp] at hc <;>
    simp only [withMappedOutvec, show prepareOutvec (conns s).topSlot idx = _ from hp]
  · exact ⟨.refl h, hc⟩
  · obtain ⟨rfl, rfl, rfl, rfl⟩ := prepare_eq_ok hp
    have hf := hf _ hs
    rcases hr : f _ s with ⟨⟨r, n⟩, t⟩
    rw [hr] at hf
    have hc := IsTrans.trans _ _ _ hc (Connection.shrinks_commitOutvecWrite
      ((conns s).topSlot.setMapped ⟨true, idx.toNat⟩ true) (i := idx.toNat) (n := n)
      (congrArg (Option.getD · 0) (Connection.size_setMapped _ _ _ _)).symm)
    dsimp only
    rcases hx : commitOutvecWrite ((conns s).topSlot.setMapped ⟨true, idx.toNat⟩ true) idx.toNat
      _ n with ⟨e | ⟨⟩, c⟩ <;> rw [hx] at hc <;> exact ⟨hf, hc⟩

theorem works_withMappedInvecOutvec (i j : BitVec 32)
    {f : Slice → Slice → Observed σ → (ρ × Usize) × Observed σ}
    (hf : ∀ a b, (ledger s.log).Serves (.ok (conns s).topSlot.msg.handle) ⟨false, i.toNat⟩ a →
      (ledger s.log).Serves (.ok (conns s).topSlot.msg.handle) ⟨true, j.toNat⟩ b →
        Works s (f a b s).2) :
    Works s (withMappedInvecOutvec (conns s).topSlot i j f s).2.2 ∧
      (conns s).topSlot.Shrinks (withMappedInvecOutvec (conns s).topSlot i j f s).2.1 := by
  have hsi := h.serves_ofRaw h0 ⟨false, i.toNat⟩
  have hso := h.serves_ofRaw h0 ⟨true, j.toNat⟩
  have hc := (conns s).topSlot.shrinks_prepare false i
  rcases hp : prepare (conns s).topSlot false i with ⟨e | ⟨i', n, b⟩, c₁⟩ <;> rw [hp] at hc <;>
    simp only [withMappedInvecOutvec, show prepareInvec (conns s).topSlot i = _ from hp]
  · exact ⟨.refl h, hc⟩
  obtain ⟨rfl, rfl, rfl, rfl⟩ := prepare_eq_ok hp
  have hc := IsTrans.trans _ _ _ hc (Connection.shrinks_prepare _ true j)
  rcases hp : prepare ((conns s).topSlot.setMapped ⟨false, i.toNat⟩ true) true j with
    ⟨e | ⟨j', m, b'⟩, c₂⟩ <;> rw [hp] at hc <;>
    simp only [show prepareOutvec ((conns s).topSlot.setMapped ⟨false, i.toNat⟩ true) j = _ from hp]
  · exact ⟨.refl h, hc⟩
  obtain ⟨rfl, rfl, rfl, rfl⟩ := prepare_eq_ok hp
  rw [Connection.base_setMapped, Connection.size_setMapped]
  have hf := hf _ _ hsi hso
  rcases hr : f _ _ s with ⟨⟨r, n⟩, t⟩
  rw [hr] at hf
  have hc := IsTrans.trans _ _ _ hc (Connection.shrinks_commitOutvecWrite
    (((conns s).topSlot.setMapped ⟨false, i.toNat⟩ true).setMapped ⟨true, j.toNat⟩ true)
    (i := j.toNat) (n := n) (l := ((conns s).topSlot.size ⟨true, j.toNat⟩).getD 0)
    (by rw [Connection.size_setMapped, Connection.size_setMapped]))
  dsimp only
  rcases hx : commitOutvecWrite (((conns s).topSlot.setMapped ⟨false, i.toNat⟩ true).setMapped
    ⟨true, j.toNat⟩ true) j.toNat _ n with ⟨e | ⟨⟩, c⟩ <;> rw [hx] at hc
  · exact ⟨hf, hc⟩
  have hc := IsTrans.trans _ _ _ hc (c.shrinks_markInvecUnmapped i.toNat)
  dsimp only
  rcases hx : markInvecUnmapped c i.toNat with ⟨e | ⟨⟩, c'⟩ <;> rw [hx] at hc <;> exact ⟨hf, hc⟩

end

/-! ### Calls -/

/-- The call of an accepted request was entered. -/
theorem Inv.entered {req : SfnApi.Request} {c : Connection} {outs : List FFOutVec} {b : Bool}
    {t : σ} (h : Inv s) (ha : req.accept = .ok (c, outs)) (he : SpmCall.enter c s.spm = (.ok b, t)) :
    Inv ⟨t, .entered c :: .called req :: s.log⟩ ∧
      (conns t).stack = LentStack.push c (conns s).stack := by
  obtain ⟨hf, hlt, hc⟩ := LawfulSpm.enter_ok (s := s.spm) h.free h.wf he
  have hst : (conns t).stack = LentStack.push c (conns s).stack := by
    rw [hc]
    exact ConnectionArray.stack_pushed hlt c
  refine ⟨⟨hf, hc.symm ▸ h.wf.pushed hlt c, ⟨⟨req, rfl, outs, ha⟩, trivial, h.validated⟩, ?_⟩, hst⟩
  refine hst.symm ▸ List.Forall₂.cons ⟨c, outs, ha, Std.Refl.refl c⟩ h.tracks

/-- Finished work inside a call, and then its end. -/
theorem Inv.leave {req : SfnApi.Request} {c : Connection} (h : Inv s)
    (hw : Works t u) (hst : (conns t).stack = LentStack.push c (conns s).stack)
    (hc : (ledger t.log).calls = req :: (ledger s.log).calls) : Works s (SpmCall.leave u) := by
  obtain ⟨hf, hl⟩ := LawfulSpm.leave_eq (s := u.spm) hw.inv.free hw.inv.wf
  have hk := hw.kept
  rw [hst] at hk
  have hstack : (conns (SpmCall.leave u.spm)).stack = (conns s).stack := by
    rw [hl, ConnectionArray.stack_popConnection]
    exact hk.pop_push
  have hcalls : (ledger (.left :: u.log)).calls = (ledger s.log).calls := by
    rw [ledger, Ledger.after, hw.calls, hc]
    rfl
  have hleft : Works s ⟨SpmCall.leave u.spm, .left :: u.log⟩ := by
    refine ⟨⟨hf, hl.symm ▸ hw.inv.wf.popConnection, ⟨trivial, hw.inv.validated⟩, ?_⟩, ?_, hcalls⟩
    · rw [hcalls]
      exact hstack.symm ▸ h.tracks
    · exact hstack.symm ▸ .refl _
  exact hleft.trans hleft.inv.program

theorem works_sfnCall (h : Inv s) (req : SfnApi.Request) (init : Observed σ → Observed σ)
    (proc : PsaMsg → Observed σ → Except StatusCode Unit × Observed σ)
    (hi : ∀ t, Inv t → Works t (init t)) (hp : ∀ msg t, Inv t → Works t (proc msg t).2) :
    Works s (SfnApi.call req init proc (s.note (.called req))).2.2 := by
  have hn : Works s (s.note (.called req)) := h.note trivial rfl
  rw [SfnApi.call]
  rcases ha : (acceptCall req.mem req.perm req.handle req.ctrlParam req.inVec req.outVec
    req.caller).1 with e | ⟨c, outs⟩
  · exact hn
  dsimp only
  rw [SpmCall.call]
  rcases he : SpmCall.enter c s.spm with ⟨e | b, t⟩
  · obtain rfl := LawfulSpm.enter_error (s := s.spm) h.free h.wf he
    simp only [SpmCall.enter, spm_note, he]
    exact hn
  simp only [SpmCall.enter, spm_note, he]
  obtain ⟨hin, hst⟩ := h.entered ha he
  have hprog := hin.program
  have hinit : ∀ u : Observed σ, Inv u → Works u (if b = true then init u else u) := fun u hu => by
    split_ifs
    · exact hi u hu
    · exact .refl hu
  have hwork := hprog.trans (hinit _ hprog.inv)
  exact h.leave (hwork.trans (hp c.msg _ hwork.inv)) hst rfl

end Observed

/-! ## Services -/

open Observed (Inv Works)

/-- **Every service keeps the invariant**, whatever it asks for and however its calls nest. -/
theorem works_observe (service : Service) (s : Observed σ) (h : Inv s) :
    Works s (observe service s).2 := by
  induction service generalizing s with
  | done outcome => exact .refl h
  | accessInvec mh idx f next ihf ihn =>
    have hw : Works s (SfnApi.accessInvec mh idx (fun slice s => observe (f slice)
        (s.note (.shown mh ⟨false, idx.toNat⟩ slice))) s).2 :=
      (Observed.works_withValidatedConnection mh h fun t ht h0 hh =>
        Observed.works_withMappedInvec ht h0 idx fun slice hs => by
          have hn := ht.note (e := .shown mh ⟨false, idx.toNat⟩ slice) (hh ▸ hs) rfl
          exact hn.trans (ihf slice _ hn.inv)).1
    exact hw.trans (ihn _ _ hw.inv)
  | accessOutvec mh idx f next ihf ihn =>
    have hw : Works s (SfnApi.accessOutvec mh idx (fun slice s =>
        (((observe (f slice) (s.note (.shown mh ⟨true, idx.toNat⟩ slice))).1,
          (observe (f slice) (s.note (.shown mh ⟨true, idx.toNat⟩ slice))).1.written),
          (observe (f slice) (s.note (.shown mh ⟨true, idx.toNat⟩ slice))).2)) s).2 :=
      (Observed.works_withValidatedConnection mh h fun t ht h0 hh =>
        Observed.works_withMappedOutvec ht h0 idx fun slice hs => by
          have hn := ht.note (e := .shown mh ⟨true, idx.toNat⟩ slice) (hh ▸ hs) rfl
          exact hn.trans (ihf slice _ hn.inv)).1
    exact hw.trans (ihn _ _ hw.inv)
  | accessInvecOutvec mh i j f next ihf ihn =>
    have hw : Works s (SfnApi.accessInvecOutvec mh i j (fun a b s =>
        (((observe (f a b) (s.note (.shownBoth mh i.toNat j.toNat a b))).1,
          (observe (f a b) (s.note (.shownBoth mh i.toNat j.toNat a b))).1.written),
          (observe (f a b) (s.note (.shownBoth mh i.toNat j.toNat a b))).2)) s).2 :=
      (Observed.works_withValidatedConnection mh h fun t ht h0 hh =>
        Observed.works_withMappedInvecOutvec ht h0 i j fun a b ha hb => by
          have hn := ht.note (e := .shownBoth mh i.toNat j.toNat a b) ⟨hh ▸ ha, hh ▸ hb⟩ rfl
          exact hn.trans (ihf a b _ hn.inv)).1
    exact hw.trans (ihn _ _ hw.inv)
  | psaCall req initEntry callEntry next ihi ihc ihn =>
    have hw := Observed.works_sfnCall h req (fun s => (observe initEntry s).2)
      (fun msg s => ((observe (callEntry msg) s).1.status, (observe (callEntry msg) s).2))
      (fun t ht => ihi t ht) fun msg t ht => ihc msg t ht
    exact hw.trans (ihn _ _ _ hw.inv)
  | svc svcNum frame mem perm initEntry callEntry next ihi ihc ihn =>
    have hw := Observed.works_svc h svcNum frame (f := fun handle cp iv ov caller s =>
      ((SfnApi.call ⟨mem, perm, handle, cp, iv, ov, caller⟩ (fun s => (observe initEntry s).2)
        (fun msg s => ((observe (callEntry msg) s).1.status, (observe (callEntry msg) s).2))
        (s.note (.called ⟨mem, perm, handle, cp, iv, ov, caller⟩))).1,
      (SfnApi.call ⟨mem, perm, handle, cp, iv, ov, caller⟩ (fun s => (observe initEntry s).2)
        (fun msg s => ((observe (callEntry msg) s).1.status, (observe (callEntry msg) s).2))
        (s.note (.called ⟨mem, perm, handle, cp, iv, ov, caller⟩))).2.2))
      fun mh cp iv ov caller => Observed.works_sfnCall h ⟨mem, perm, mh, cp, iv, ov, caller⟩
        (fun s => (observe initEntry s).2)
        (fun msg s => ((observe (callEntry msg) s).1.status, (observe (callEntry msg) s).2))
        (fun t ht => ihi t ht) fun msg t ht => ihc msg t ht
    exact hw.trans (ihn _ _ hw.inv)

/-! ## The points of a run -/

/-- The points of the runs from `s₀`. -/
inductive Point (s₀ : Observed σ) : Observed σ → Prop
  | start : Point s₀ s₀
  /-- Service code asks for anything, and all of it comes to an end. -/
  | work {s : Observed σ} (h : Point s₀ s) (service : Service) : Point s₀ (observe service s).2
  /-- A request is accepted; its service is about to run. -/
  | call {s t : Observed σ} {b : Bool} {c : Connection} {outs : List FFOutVec} (h : Point s₀ s)
      (req : SfnApi.Request) (ha : req.accept = .ok (c, outs))
      (he : SpmCall.enter c (s.note (.called req)) = (.ok b, t)) : Point s₀ t
  /-- The active connection is handed out; a closure is about to run. -/
  | closure {s t : Observed σ} {i : ℕ} {c : Connection} (h : Point s₀ s)
      (ht : takeActive s = (.ok (i, c), t)) : Point s₀ t

theorem Point.inv {s₀ s : Observed σ} (h₀ : Inv s₀) (h : Point s₀ s) : Inv s := by
  induction h with
  | start => exact h₀
  | work _ service ih => exact (works_observe service _ ih).inv
  | @call s t b c outs _ req ha he ih =>
    rcases hs : SpmCall.enter c s.spm with ⟨e | b', u⟩ <;>
      simp only [SpmCall.enter, Observed.spm_note, hs] at he
    · cases he
    · obtain ⟨-, rfl⟩ := Prod.mk.inj he
      exact (ih.entered ha hs).1.program.inv
  | @closure s t i c _ ht ih =>
    rw [takeActive_eq ih.free ih.wf] at ht
    split_ifs at ht with ha
    · obtain ⟨-, rfl⟩ := Prod.mk.inj ht
      exact ih.lent ha
    · cases ht
    · cases ht

/-- The connections on the stack of `s` are those of `t` some time later, and no size recorded for
an output vector has grown. -/
def NoneGrew (s t : Observed σ) : Prop :=
  List.Forall₂ (fun p q : LentStack.Place Connection =>
    ∀ i, (q.val.size ⟨true, i⟩).getD 0 ≤ (p.val.size ⟨true, i⟩).getD 0)
    (conns s).stack (conns t).stack

theorem Observed.Works.noneGrew {s t : Observed σ} (h : Works s t) : NoneGrew s t := by
  suffices hf : ∀ st st' : LentStack Connection, LentStack.Kept Connection.Shrinks st st' →
      List.Forall₂ (fun p q : LentStack.Place Connection =>
        ∀ i, (q.val.size ⟨true, i⟩).getD 0 ≤ (p.val.size ⟨true, i⟩).getD 0) st st' from
    hf _ _ h.kept
  intro st st' hk
  cases hk with
  | nil => exact .nil
  | cons p q st hl hv hr =>
    exact .cons (fun i => hr.size _) (List.forall₂_same.mpr fun x _ i => BitVec.le_refl _)

/-- **At every point of a run what was handed out was validated**, and finished work only shrinks
sizes. -/
theorem validated_of_point {s₀ s : Observed σ} (h₀ : Inv s₀) (h : Point s₀ s) :
    (∀ e l, e :: l <:+ s.log → (ledger l).Allows e) ∧
      ∀ service : Service, NoneGrew s (observe service s).2 :=
  have hs := h.inv h₀
  ⟨(validated_iff _).mp hs.validated, fun service => (works_observe service s hs).noneGrew⟩

end

/-! ## The two SPMs -/

instance : MpuUse SpmFn := ⟨fun _ => []⟩

instance : GrantingSpm SpmFn where
  mapVec_shrinks _ _ _ _ _ _ := .inl rfl
  unmapVec_shrinks _ _ _ _ := .inl rfl
  opened_eq _ _ _ h := absurd h List.not_mem_nil

namespace SpmIpc

/-- What `apply_mpu_config` passes to `allocate_vec` for a vector. -/
def vecRequest (conn : Connection) (v : Vec) : Option (Vec × Slice) :=
  if conn.mapped v = true ∧ conn.unmapped v = false then
    (conn.size v).map fun size => (v, ⟨conn.base v, size⟩)
  else none

/-- The call of `allocate_vec` for it. -/
def allocateRequest (config : MpuConfig 8) (x : Vec × Slice) : MpuConfig 8 :=
  allocateVec x.2.base x.2.len (if x.1.isOutvec then .readWriteXN else .readXN) config

theorem allocateMapped_eq (conn : Connection) (config : MpuConfig 8) (o : Bool) (i : ℕ) :
    allocateMapped conn (if o then .readWriteXN else .readXN) config ⟨o, i⟩ =
      match vecRequest conn ⟨o, i⟩ with
      | some x => allocateRequest config x
      | none => config := by
  rw [allocateMapped, vecRequest]
  by_cases h : conn.mapped ⟨o, i⟩ = true ∧ conn.unmapped ⟨o, i⟩ = false
  · rw [if_pos h, if_pos h]
    cases conn.size ⟨o, i⟩ <;> rfl
  · rw [if_neg h, if_neg h]

/-- The vectors of a configuration are allocated one after another. -/
theorem vecConfig_eq (conn : Connection) (config : MpuConfig 8) :
    vecConfig conn config =
      (allVecs.filterMap (vecRequest conn)).foldl allocateRequest config := by
  rw [List.foldl_filterMap, allVecs, List.foldl_append, List.foldl_map, List.foldl_map, vecConfig]
  refine (List.foldl_ext _ _ _ fun config i _ => ?_).trans
    (congrArg (fun config => List.foldl _ config _) (List.foldl_ext _ _ _ fun config i _ => ?_))
  · rw [show allocateMapped conn .readWriteXN config ⟨true, i⟩ = _ from
      allocateMapped_eq conn config true i]
    cases vecRequest conn ⟨true, i⟩ <;> rfl
  · rw [show allocateMapped conn .readXN config ⟨false, i⟩ = _ from
      allocateMapped_eq conn config false i]
    cases vecRequest conn ⟨false, i⟩ <;> rfl

variable {n : ℕ}

/-- The vectors that programming the MPU uses: those of the active connection, if its process
exists. -/
def opened (s : SpmIpc n) : List (Vec × Slice) :=
  match s.state.value.connections.peekActiveConnection with
  | .ok conn =>
    if (s.findProcessIndex conn.msg.handle).isSome then allVecs.filterMap (vecRequest conn) else []
  | .error _ => []

/-- **No other vectors are programmed**, and these only for the process of the connection. -/
theorem configFor_eq (s : SpmIpc n) (p : ℕ) (proc : ServiceProcess) :
    s.configFor p proc = processConfig s.platform proc ∨
      s.configFor p proc = s.opened.foldl allocateRequest (processConfig s.platform proc) := by
  rw [configFor, opened]
  cases s.state.value.connections.peekActiveConnection with
  | error e => exact .inl rfl
  | ok conn =>
    dsimp only
    by_cases hp : s.findProcessIndex conn.msg.handle = some p
    · rw [if_pos hp, hp, vecConfig_eq]
      exact .inr rfl
    · rw [if_neg hp]
      exact .inl rfl

instance : MpuUse (SpmIpc n) := ⟨opened⟩

theorem shrinks_markVec (s : SpmIpc n) (o : Bool) (idx : BitVec 32) (b : Bool) (c : Connection) :
    c.Shrinks (s.markVec o idx b c).2 := by
  rw [markVec]
  cases s.findProcessIndex c.msg.handle with
  | none => exact Std.Refl.refl c
  | some p =>
    exact IsTrans.trans _ _ _ (c.shrinks_setMapped _ b)
      (Connection.shrinks_setUnmapped (c.setMapped ⟨o, idx.toNat⟩ b) _ _)

theorem shrinks_updateVecMapping {s : SpmIpc n} (h : s.state.lock = false)
    (hw : s.state.value.connections.Wf) (o : Bool) (idx : BitVec 32) (b : Bool) :
    (updateVecMapping o idx b s).state.value.connections = s.state.value.connections ∨
      s.state.value.connections.Active ∧ ∃ c, s.state.value.connections.topSlot.Shrinks c ∧
        (updateVecMapping o idx b s).state.value.connections =
          s.state.value.connections.filled c := by
  rw [updateVecMapping_state h hw]
  split_ifs with ha
  · exact .inr ⟨ha, _, shrinks_markVec s o idx b _, rfl⟩
  · exact .inl rfl

instance : GrantingSpm (SpmIpc n) where
  mapVec_shrinks h hw o idx _ _ := shrinks_updateVecMapping h hw o idx true
  unmapVec_shrinks h hw o idx := shrinks_updateVecMapping h hw o idx false
  opened_eq {s} hw {v slice} h := by
    have h : (v, slice) ∈ opened s := h
    rw [opened, ConnectionArray.peekActiveConnection_eq (a := s.state.value.connections) hw] at h
    by_cases ha : s.state.value.connections.Active
    · rw [if_pos ha] at h
      dsimp only at h
      split_ifs at h
      · obtain ⟨w, -, hr⟩ := List.mem_filterMap.mp h
        rw [vecRequest] at hr
        split_ifs at hr
        obtain ⟨n, hn, hx⟩ := Option.map_eq_some_iff.mp hr
        obtain ⟨rfl, rfl⟩ := Prod.mk.inj hx
        refine ⟨ha, ?_⟩
        rw [conns_eq, hn]
        rfl
      · cases h
    · rw [if_neg ha] at h
      by_cases h0 : s.state.value.connections.topConnection = 0
      · rw [if_pos h0] at h
        cases h
      · rw [if_neg h0] at h
        cases h

end SpmIpc

/-- A new SPM has no connections. -/
theorem Observed.inv_new {σ : Type} [SpmCall σ] [MpuUse σ] [GrantingSpm σ] {s : σ}
    (h : LawfulConnStore.Free s) (hn : LawfulConnStore.conns s = .new) :
    Inv (⟨s, []⟩ : Observed σ) := by
  have hc : LawfulConnStore.conns (⟨s, []⟩ : Observed σ) = .new := hn
  refine ⟨h, hc.symm ▸ ConnectionArray.wf_new, trivial, ?_⟩
  rw [hc, ConnectionArray.stack_new]
  exact .nil

/-- **What a run hands out is empty or a prefix of a vector that was validated** for the caller of
the request it is handed out for, in the SFN model and in the IPC model, and the size recorded for
an output vector never grows. -/
theorem grants_validated :
    (∀ (version : ServiceHandle → Option (BitVec 32)) (s : Observed SpmFn),
      Point ⟨SpmFn.new version, []⟩ s →
        (∀ e l, e :: l <:+ s.log → (ledger l).Allows e) ∧
          ∀ service : Service, NoneGrew s (observe service s).2) ∧
    ∀ (n : ℕ) (platform : IpcPlatform) (processes : Vector ServiceProcess n)
      (mpu : Vector Armv8Mpu.Region 8) (s : Observed (SpmIpc n)),
      Point ⟨SpmIpc.new platform processes mpu, []⟩ s →
        (∀ e l, e :: l <:+ s.log → (ledger l).Allows e) ∧
          ∀ service : Service, NoneGrew s (observe service s).2 :=
  ⟨fun version _ h =>
      validated_of_point (Observed.inv_new (s := SpmFn.new version) rfl rfl) h,
    fun _ platform processes mpu _ h =>
      validated_of_point (Observed.inv_new (s := SpmIpc.new platform processes mpu) rfl rfl) h⟩

end RuSpe
