import RuSpe.Spm.Service

set_option autoImplicit false

/-!
# What both SPMs have in common

The laws that tie the operations of an SPM to its connection stack, and what follows from them for
any service: finished work leaves the stack as it was, but for the top connection, which may have
used some of its vectors.

* `LawfulSpm`: the laws;
* `Good`, `Settled`: the invariant, and finished work;
* **`settled_withActiveConnection`**, `settled_call`, …: one lemma for each operation;
* **`settled_run`**: every service settles;
* **`stack_call`**: a call leaves the stack exactly as it was.
-/

namespace RuSpe

open LentStack (Kept)

/-- The laws of an SPM: what its operations do to the connection stack. -/
class LawfulSpm (σ : Type) [SpmCall σ] extends LawfulConnStore σ where
  enter_error {s s' : σ} {c : Connection} {e : StatusCode} (h : Free s) (hw : (conns s).Wf)
    (he : SpmCall.enter c s = (.error e, s')) : s' = s
  enter_ok {s s' : σ} {c : Connection} {b : Bool} (h : Free s) (hw : (conns s).Wf)
    (he : SpmCall.enter c s = (.ok b, s')) :
    Free s' ∧ (conns s).topConnection < maxConnections ∧ conns s' = (conns s).pushed c
  leave_eq {s : σ} (h : Free s) (hw : (conns s).Wf) :
    Free (SpmCall.leave s) ∧ conns (SpmCall.leave s) = (conns s).popConnection
  mapVec_eq {s : σ} (h : Free s) (hw : (conns s).Wf) (o : Bool) (idx : BitVec 32) (b n : Usize) :
    Free (SpmCall.mapVec o idx b n s) ∧ (conns (SpmCall.mapVec o idx b n s) = conns s ∨
      (conns s).Active ∧ ∃ c, (conns s).topSlot.SameCall c ∧
        conns (SpmCall.mapVec o idx b n s) = (conns s).filled c)
  unmapVec_eq {s : σ} (h : Free s) (hw : (conns s).Wf) (o : Bool) (idx : BitVec 32) :
    Free (SpmCall.unmapVec o idx s) ∧ (conns (SpmCall.unmapVec o idx s) = conns s ∨
      (conns s).Active ∧ ∃ c, (conns s).topSlot.SameCall c ∧
        conns (SpmCall.unmapVec o idx s) = (conns s).filled c)

section

variable {σ : Type} [SpmCall σ] [LawfulSpm σ]

open LawfulConnStore (conns put Free)

/-- The lock is free and the stack is in order. -/
structure Good (s : σ) : Prop where
  free : Free s
  wf : (conns s).Wf

/-- The work between `s` and `t` is finished. -/
structure Settled (s t : σ) : Prop where
  good : Good t
  kept : Kept Connection.SameCall (conns s).stack (conns t).stack

theorem Settled.refl {s : σ} (h : Good s) : Settled s s := ⟨h, .refl _⟩

theorem Settled.trans {s t u : σ} (h : Settled s t) (h' : Settled t u) : Settled s u :=
  ⟨h'.good, h.kept.trans h'.kept⟩

/-- Replacing an active top connection by a later state of the same call. -/
theorem settled_filled {s t : σ} {c : Connection} (h : Good s) (hf : Free t)
    (ha : (conns s).Active) (hc : (conns s).topSlot.SameCall c)
    (ht : conns t = (conns s).filled c) : Settled s t := by
  refine ⟨⟨hf, ht ▸ h.wf.filled ha.1 c⟩, ?_⟩
  rw [ht]
  exact ConnectionArray.kept_filled h.wf ha hc

/-! ## The active connection -/

theorem good_lent {s : σ} (h : Good s) : Good (put (conns s).lent s) :=
  ⟨LawfulConnStore.free_put _ h.free, (LawfulConnStore.conns_put (conns s).lent s).symm ▸ h.wf.lent⟩

/-- Closures settle if they do so from any state they are started in. -/
def Settles {ρ : Type} (f : Connection → σ → ρ × Connection × σ) : Prop :=
  ∀ c t, Good t → Settled t (f c t).2.2 ∧ c.SameCall (f c t).2.1

/-- **A closure that settles is given the active connection, and puts it back.** -/
theorem withActiveConnection_eq {ρ : Type} {f : Connection → σ → ρ × Connection × σ} {s : σ}
    (h : Good s) (hf : Settles f) :
    ∃ t, Settled s t ∧ withActiveConnection f s =
      (if (conns s).Active then .ok (f (conns s).topSlot (put (conns s).lent s)).1
        else if (conns s).topConnection = 0 then .error .noActiveConnection
        else .error .corruptedConnectionStack, t) := by
  rw [withActiveConnection, takeActive_eq h.free h.wf]
  by_cases ha : (conns s).Active
  · obtain ⟨hs, hc⟩ := hf (conns s).topSlot _ (good_lent h)
    rcases hr : f (conns s).topSlot (put (conns s).lent s) with ⟨r, c, t⟩
    rw [hr] at hs hc
    have hk := hs.kept
    rw [LawfulConnStore.conns_put] at hk
    obtain ⟨hre, h0, hk⟩ := ConnectionArray.restore_of_kept ha hs.good.wf hk hc
    refine ⟨put ((conns t).filled c) t, ⟨⟨LawfulConnStore.free_put _ hs.good.free, ?_⟩, ?_⟩, ?_⟩
    · rw [LawfulConnStore.conns_put]
      exact hs.good.wf.filled h0 c
    · rw [LawfulConnStore.conns_put]
      exact hk
    · simp only [if_pos ha, hr, restoreActive_eq hs.good.free, hre]
  · refine ⟨s, .refl h, ?_⟩
    by_cases h0 : (conns s).topConnection = 0
    · simp only [if_neg ha, if_pos h0]
    · simp only [if_neg ha, if_neg h0]

theorem settled_withValidatedConnection {ρ : Type} {f : Connection → σ → Except StatusCode ρ ×
    Connection × σ} {s : σ} (mh : ServiceHandle) (h : Good s) (hf : Settles f) :
    Settled s (withValidatedConnection mh f s).2 := by
  let body (connection : Connection) (s : σ) : Except StatusCode ρ × Connection × σ :=
    if connection.msg.handle ≠ mh then (.error .invalidHandle, connection, s)
    else if connection.msg.msgType < 0 then (.error .programmerError, connection, s)
    else f connection s
  have hbody : Settles body := fun c t ht => by
    simp only [body]
    split_ifs
    · exact ⟨.refl ht, Std.Refl.refl c⟩
    · exact ⟨.refl ht, Std.Refl.refl c⟩
    · exact hf c t ht
  obtain ⟨t, ht, he⟩ := withActiveConnection_eq h hbody
  rw [withValidatedConnection, he]
  split_ifs <;> exact ht

/-- The checks of `with_validated_connection` before an operation on the connection alone. -/
def validated {ρ : Type} (mh : ServiceHandle)
    (g : Connection → Except StatusCode ρ × Connection) (c : Connection) :
    Except StatusCode ρ × Connection :=
  if c.msg.handle ≠ mh then (.error .invalidHandle, c)
  else if c.msg.msgType < 0 then (.error .programmerError, c)
  else g c

/-- **An operation on the connection alone** changes the active connection and nothing else. -/
theorem withValidatedConnection_pure {ρ : Type} {g : Connection → Except StatusCode ρ × Connection}
    {s : σ} (h : Good s) (ha : (conns s).Active) (mh : ServiceHandle) :
    withValidatedConnection mh (fun c t => ((g c).1, (g c).2, t)) s =
      ((validated mh g (conns s).topSlot).1,
        put ((conns s).filled (validated mh g (conns s).topSlot).2) s) := by
  have hbody : ∀ (c : Connection) (t : σ),
      (if c.msg.handle ≠ mh then (Except.error StatusCode.invalidHandle, c, t)
        else if c.msg.msgType < 0 then (.error .programmerError, c, t)
        else ((g c).1, (g c).2, t)) = ((validated mh g c).1, (validated mh g c).2, t) := fun c t => by
    rw [validated]
    split_ifs <;> rfl
  have hr := ConnectionArray.restoreActiveConnection_eq h.wf.lent ha.1
    (validated mh g (conns s).topSlot).2
  rw [if_neg (ConnectionArray.not_active_lent _), ConnectionArray.filled_lent] at hr
  have hre : restoreActive ((conns s).topConnection - 1) (validated mh g (conns s).topSlot).2
      (put (conns s).lent s) =
        (.ok (), put ((conns s).filled (validated mh g (conns s).topSlot).2) s) := by
    rw [restoreActive_eq (LawfulConnStore.free_put _ h.free), LawfulConnStore.conns_put,
      LawfulConnStore.put_put]
    exact congrArg (fun r : _ × ConnectionArray => (r.1, put r.2 s)) hr
  simp only [withValidatedConnection, withActiveConnection, takeActive_eq h.free h.wf, if_pos ha,
    hbody, hre]

/-! ## The raw operations and the SVCs -/

section

variable {s : σ} (h : Good s) (mh : ServiceHandle) (o : Bool) (idx : BitVec 32)

include h

theorem settled_prepareRaw : Settled s (prepareRaw o mh idx s).2 := by
  refine settled_withValidatedConnection mh h fun c t ht => ?_
  have hc := c.sameCall_prepare o idx
  rcases hp : prepare c o idx with ⟨r, c'⟩
  rw [hp] at hc
  cases r <;> exact ⟨.refl ht, hc⟩

theorem settled_finishInvecRaw : Settled s (finishInvecRaw mh idx s).2 :=
  settled_withValidatedConnection mh h fun c _ ht =>
    ⟨.refl ht, c.sameCall_markInvecUnmapped idx.toNat⟩

theorem settled_finishOutvecRaw (n : Usize) : Settled s (finishOutvecRaw mh idx n s).2 :=
  settled_withValidatedConnection mh h fun c _ ht =>
    ⟨.refl ht, c.sameCall_commitOutvecWrite idx.toNat _ n⟩

theorem settled_mapVec (b n : Usize) : Settled s (SpmCall.mapVec o idx b n s) := by
  obtain ⟨hf, he | ⟨ha, c, hc, he⟩⟩ := LawfulSpm.mapVec_eq h.free h.wf o idx b n
  · exact ⟨⟨hf, he ▸ h.wf⟩, he ▸ .refl _⟩
  · exact settled_filled h hf ha hc he

theorem settled_unmapVec : Settled s (SpmCall.unmapVec o idx s) := by
  obtain ⟨hf, he | ⟨ha, c, hc, he⟩⟩ := LawfulSpm.unmapVec_eq h.free h.wf o idx
  · exact ⟨⟨hf, he ▸ h.wf⟩, he ▸ .refl _⟩
  · exact settled_filled h hf ha hc he

theorem settled_handleAccessVec (frame : SvcStackFrame) :
    Settled s (handleAccessVec mh frame s).2 := by
  have ht : Settled s (if (frame.r2 != 0) = true then prepareRaw true mh frame.r1 s
      else prepareRaw false mh frame.r1 s).2 := by
    split_ifs
    · exact settled_prepareRaw h mh true frame.r1
    · exact settled_prepareRaw h mh false frame.r1
  rw [handleAccessVec, prepareOutvecRaw, prepareInvecRaw]
  rcases hr : (if (frame.r2 != 0) = true then prepareRaw true mh frame.r1 s
    else prepareRaw false mh frame.r1 s) with ⟨r, t⟩
  rw [hr] at ht
  cases r with
  | error e => exact ht
  | ok raw => exact ht.trans (settled_mapVec ht.good _ _ _ _)

theorem settled_handleReleaseVec (frame : SvcStackFrame) :
    Settled s (handleReleaseVec mh frame s).2 := by
  have ht : Settled s (if (frame.r2 != 0) = true then finishOutvecRaw mh frame.r1 frame.r3 s
      else finishInvecRaw mh frame.r1 s).2 := by
    split_ifs
    · exact settled_finishOutvecRaw h mh frame.r1 frame.r3
    · exact settled_finishInvecRaw h mh frame.r1
  rw [handleReleaseVec]
  rcases hr : (if (frame.r2 != 0) = true then finishOutvecRaw mh frame.r1 frame.r3 s
    else finishInvecRaw mh frame.r1 s) with ⟨r, t⟩
  rw [hr] at ht
  cases r with
  | error e => exact ht
  | ok _ => exact ht.trans (settled_unmapVec ht.good _ _)

/-- Any SVC settles if the call behind it does. -/
theorem settled_svcHandlerDispatch (svcNum : BitVec 8) (frame : SvcStackFrame) {f : SfnCall σ}
    (hf : ∀ mh cp iv ov caller, Settled s (f mh cp iv ov caller s).2) :
    Settled s (svcHandlerDispatch svcNum frame f s).2 := by
  have hh : Settled s (handleSvcWithSpm svcNum frame f s).2.2 := by
    rw [handleSvcWithSpm]
    cases serviceHandleFromRaw frame.r0 with
    | error e => exact .refl h
    | ok mh =>
      dsimp only
      split_ifs
      · exact settled_handleAccessVec h mh frame
      · exact settled_handleReleaseVec h mh frame
      · have hc := hf mh ⟨frame.r1⟩ frame.r2 frame.r3 .secureUnprivileged
        rcases hr : f mh ⟨frame.r1⟩ frame.r2 frame.r3 .secureUnprivileged s with ⟨r, t⟩
        rw [hr] at hc
        cases r <;> exact hc
      · exact .refl h
      · exact .refl h
  rw [svcHandlerDispatch]
  rcases hr : handleSvcWithSpm svcNum frame f s with ⟨b, frame', t⟩
  rw [hr] at hh
  cases b <;> exact hh

end

/-! ## The closure API -/

section

variable {ρ : Type}

theorem settles_withMappedInvec (idx : BitVec 32) {f : Slice → σ → ρ × σ}
    (hf : ∀ slice t, Good t → Settled t (f slice t).2) :
    Settles fun c => withMappedInvec c idx f := by
  intro c t ht
  have hp := c.sameCall_prepare false idx
  rcases hr : prepare c false idx with ⟨e | ⟨i, n, b⟩, c'⟩ <;> rw [hr] at hp <;>
    simp only [withMappedInvec, show prepareInvec c idx = prepare c false idx from rfl, hr]
  · exact ⟨.refl ht, hp⟩
  · have hm := c'.sameCall_markInvecUnmapped i
    rcases hr : markInvecUnmapped c' i with ⟨e | ⟨⟩, c''⟩ <;> rw [hr] at hm <;>
      exact ⟨hf (.ofRaw b n) t ht, IsTrans.trans _ _ _ hp hm⟩

theorem settles_withMappedOutvec (idx : BitVec 32) {f : Slice → σ → (ρ × Usize) × σ}
    (hf : ∀ slice t, Good t → Settled t (f slice t).2) :
    Settles fun c => withMappedOutvec c idx f := by
  intro c t ht
  have hp := c.sameCall_prepare true idx
  rcases hr : prepare c true idx with ⟨e | ⟨i, n, b⟩, c'⟩ <;> rw [hr] at hp <;>
    simp only [withMappedOutvec, show prepareOutvec c idx = prepare c true idx from rfl, hr]
  · exact ⟨.refl ht, hp⟩
  · have hm := c'.sameCall_commitOutvecWrite i n (f (.ofRaw b n) t).1.2
    rcases hr : commitOutvecWrite c' i n (f (.ofRaw b n) t).1.2 with ⟨e | ⟨⟩, c''⟩ <;>
      rw [hr] at hm <;> exact ⟨hf (.ofRaw b n) t ht, IsTrans.trans _ _ _ hp hm⟩

theorem settles_withMappedInvecOutvec (inIdx outIdx : BitVec 32)
    {f : Slice → Slice → σ → (ρ × Usize) × σ}
    (hf : ∀ invec outvec t, Good t → Settled t (f invec outvec t).2) :
    Settles fun c => withMappedInvecOutvec c inIdx outIdx f := by
  intro c t ht
  have hp := c.sameCall_prepare false inIdx
  rcases hr : prepare c false inIdx with ⟨e | ⟨i, n, b⟩, c₁⟩ <;> rw [hr] at hp <;>
    simp only [withMappedInvecOutvec, show prepareInvec c inIdx = prepare c false inIdx from rfl, hr]
  · exact ⟨.refl ht, hp⟩
  have hp' := IsTrans.trans _ _ _ hp (c₁.sameCall_prepare true outIdx)
  rcases hr : prepare c₁ true outIdx with ⟨e | ⟨j, m, b'⟩, c₂⟩ <;> rw [hr] at hp' <;>
    simp only [show prepareOutvec c₁ outIdx = prepare c₁ true outIdx from rfl, hr]
  · exact ⟨.refl ht, hp'⟩
  have hs := hf (.ofRaw b n) (.ofRaw b' m) t ht
  have hw := IsTrans.trans _ _ _ hp'
    (c₂.sameCall_commitOutvecWrite j m (f (.ofRaw b n) (.ofRaw b' m) t).1.2)
  rcases hr : commitOutvecWrite c₂ j m (f (.ofRaw b n) (.ofRaw b' m) t).1.2 with ⟨e | ⟨⟩, c₃⟩ <;>
    rw [hr] at hw <;> dsimp only
  · exact ⟨hs, hw⟩
  have hm := IsTrans.trans _ _ _ hw (c₃.sameCall_markInvecUnmapped i)
  rcases hr : markInvecUnmapped c₃ i with ⟨e | ⟨⟩, c₄⟩ <;> rw [hr] at hm <;> exact ⟨hs, hm⟩

end

/-! ## Calls -/

/-- The behaviour of a service settles. -/
def SettlesTo {α : Type} (f : σ → α × σ) : Prop := ∀ t, Good t → Settled t (f t).2

/-- **A call leaves the stack exactly as it was.** -/
theorem stack_call {s : σ} (h : Good s) (c : Connection) (init : σ → σ)
    (proc : PsaMsg → σ → Except StatusCode Unit × σ) (hi : ∀ t, Good t → Settled t (init t))
    (hp : ∀ msg, SettlesTo (proc msg)) :
    Good (SpmCall.call c init proc s).2 ∧
      (conns (SpmCall.call c init proc s).2).stack = (conns s).stack := by
  rw [SpmCall.call]
  rcases he : SpmCall.enter c s with ⟨e | b, t⟩
  · obtain rfl := LawfulSpm.enter_error h.free h.wf he
    exact ⟨h, rfl⟩
  obtain ⟨hf, hlt, hc⟩ := LawfulSpm.enter_ok h.free h.wf he
  have ht : Good t := ⟨hf, hc ▸ h.wf.pushed hlt c⟩
  have hit : Settled t (if b = true then init t else t) := by
    split_ifs
    · exact hi t ht
    · exact .refl ht
  have hpt := hit.trans (hp c.msg _ hit.good)
  dsimp only
  obtain ⟨hlf, hlc⟩ := LawfulSpm.leave_eq hpt.good.free hpt.good.wf
  refine ⟨⟨hlf, hlc ▸ hpt.good.wf.popConnection⟩, ?_⟩
  have hk := hpt.kept
  rw [hc, ConnectionArray.stack_pushed hlt] at hk
  rw [hlc, ConnectionArray.stack_popConnection]
  exact hk.pop_push

theorem settled_sfnCall {s : σ} (h : Good s) (req : SfnApi.Request) (init : σ → σ)
    (proc : PsaMsg → σ → Except StatusCode Unit × σ) (hi : ∀ t, Good t → Settled t (init t))
    (hp : ∀ msg, SettlesTo (proc msg)) : Settled s (SfnApi.call req init proc s).2.2 := by
  rw [SfnApi.call]
  rcases (acceptCall req.mem req.perm req.handle req.ctrlParam req.inVec req.outVec req.caller).1
    with e | ⟨c, outs⟩
  · exact .refl h
  · obtain ⟨hg, hk⟩ := stack_call h c init proc hi hp
    exact ⟨hg, hk ▸ .refl _⟩

/-! ## Services -/

/-- **Every service settles**, whatever it asks for and however its calls nest. -/
theorem settled_run (service : Service) : SettlesTo (σ := σ) service.run := by
  induction service with
  | done outcome => exact fun t ht => .refl ht
  | accessInvec mh idx f next ihf ihn =>
    intro t ht
    have h := settled_withValidatedConnection mh ht
      (settles_withMappedInvec idx fun slice t ht => ihf slice t ht)
    exact h.trans (ihn _ _ h.good)
  | accessOutvec mh idx f next ihf ihn =>
    intro t ht
    have h := settled_withValidatedConnection mh ht (settles_withMappedOutvec idx
      (f := fun slice s => ((((f slice).run s).1, ((f slice).run s).1.written), ((f slice).run s).2))
      fun slice t ht => ihf slice t ht)
    exact h.trans (ihn _ _ h.good)
  | accessInvecOutvec mh i j f next ihf ihn =>
    intro t ht
    have h := settled_withValidatedConnection mh ht (settles_withMappedInvecOutvec i j
      (f := fun a b s => ((((f a b).run s).1, ((f a b).run s).1.written), ((f a b).run s).2))
      fun a b t ht => ihf a b t ht)
    exact h.trans (ihn _ _ h.good)
  | psaCall req initEntry callEntry next ihi ihc ihn =>
    intro t ht
    have h := settled_sfnCall ht req (fun s => (initEntry.run s).2)
      (fun msg s => (((callEntry msg).run s).1.status, ((callEntry msg).run s).2))
      (fun t ht => ihi t ht) fun msg t ht => ihc msg t ht
    exact h.trans (ihn _ _ _ h.good)
  | svc svcNum frame mem perm initEntry callEntry next ihi ihc ihn =>
    intro t ht
    have h := settled_svcHandlerDispatch ht svcNum frame
      (f := fun handle cp iv ov caller s =>
        ((SfnApi.call ⟨mem, perm, handle, cp, iv, ov, caller⟩ (fun s => (initEntry.run s).2)
          (fun msg s => (((callEntry msg).run s).1.status, ((callEntry msg).run s).2)) s).1,
        (SfnApi.call ⟨mem, perm, handle, cp, iv, ov, caller⟩ (fun s => (initEntry.run s).2)
          (fun msg s => (((callEntry msg).run s).1.status, ((callEntry msg).run s).2)) s).2.2))
      fun handle cp iv ov caller => settled_sfnCall ht _ _ _ (fun t ht => ihi t ht)
        fun msg t ht => ihc msg t ht
    exact h.trans (ihn _ _ h.good)

end

end RuSpe
