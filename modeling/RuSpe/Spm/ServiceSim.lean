import RuSpe.Spm.Service

set_option autoImplicit false

/-!
# Two SPMs that answer alike

The code above the trait `SpmCall` cannot tell two SPMs apart whose operations give the same answers
in related states. One lemma for each function of that code.

* `Related`, `RelatedConn`: the same answer, in related states;
* `LockSim`, `SpmSim`: the operations of two SPMs, related;
* **`SpmSim.run`**: every service answers alike on both.
-/

namespace RuSpe

variable {σ σ' α ρ : Type}

/-- The same answer, in related states. -/
structure Related (Rel : σ → σ' → Prop) (x : α × σ) (y : α × σ') : Prop where
  answer : x.1 = y.1
  state : Rel x.2 y.2

/-- The same answer and the same connection, in related states. -/
structure RelatedConn (Rel : σ → σ' → Prop) (x : α × Connection × σ) (y : α × Connection × σ') :
    Prop where
  answer : x.1 = y.1
  conn : x.2.1 = y.2.1
  state : Rel x.2.2 y.2.2

theorem Related.split {Rel : σ → σ' → Prop} {x : α × σ} {y : α × σ'} (h : Related Rel x y) :
    ∃ a t t', x = (a, t) ∧ y = (a, t') ∧ Rel t t' :=
  ⟨x.1, x.2, y.2, rfl, Prod.ext h.answer.symm rfl, h.state⟩

theorem RelatedConn.split {Rel : σ → σ' → Prop} {x : α × Connection × σ} {y : α × Connection × σ'}
    (h : RelatedConn Rel x y) : ∃ a c t t', x = (a, c, t) ∧ y = (a, c, t') ∧ Rel t t' :=
  ⟨x.1, x.2.1, x.2.2, y.2.2, rfl, Prod.ext h.answer.symm (Prod.ext h.conn.symm rfl), h.state⟩

theorem Related.andThen {β : Type} {Rel : σ → σ' → Prop} (k : α → σ → β × σ)
    {k' : α → σ' → β × σ'} {x : α × σ} {y : α × σ'} (h : Related Rel x y)
    (hk : ∀ a t t', Rel t t' → Related Rel (k a t) (k' a t')) :
    Related Rel (k x.1 x.2) (k' y.1 y.2) := by
  rw [← h.answer]
  exact hk x.1 x.2 y.2 h.state

/-- The locks of both SPMs keep related states related. -/
structure LockSim [ConnStore σ] [ConnStore σ'] (Rel : σ → σ' → Prop) : Prop where
  tryLock {ρ : Type} (f : ConnectionArray → ρ × ConnectionArray) {s : σ} {s' : σ'} (h : Rel s s') :
    Related Rel (ConnStore.tryLock f s) (ConnStore.tryLock f s')

/-- So do all operations. -/
structure SpmSim [SpmCall σ] [SpmCall σ'] (Rel : σ → σ' → Prop) : Prop extends LockSim Rel where
  enter (c : Connection) {s : σ} {s' : σ'} (h : Rel s s') :
    Related Rel (SpmCall.enter c s) (SpmCall.enter c s')
  leave {s : σ} {s' : σ'} (h : Rel s s') : Rel (SpmCall.leave s) (SpmCall.leave s')
  mapVec (o : Bool) (idx : BitVec 32) (base size : Usize) {s : σ} {s' : σ'} (h : Rel s s') :
    Rel (SpmCall.mapVec o idx base size s) (SpmCall.mapVec o idx base size s')
  unmapVec (o : Bool) (idx : BitVec 32) {s : σ} {s' : σ'} (h : Rel s s') :
    Rel (SpmCall.unmapVec o idx s) (SpmCall.unmapVec o idx s')
  version (handle : ServiceHandle) {s : σ} {s' : σ'} (h : Rel s s') :
    SpmCall.version handle s = SpmCall.version handle s'

variable {Rel : σ → σ' → Prop}

/-! ## The active connection -/

section

variable [ConnStore σ] [ConnStore σ'] {s : σ} {s' : σ'} (sim : LockSim Rel) (h : Rel s s')

include sim h

theorem related_takeActive : Related Rel (takeActive s) (takeActive s') := by
  have hl := sim.tryLock ConnectionArray.takeActiveConnection h
  rw [takeActive, takeActive]
  obtain ⟨r, t, t', hx, hy, ht⟩ := hl.split
  rw [hx, hy]
  cases r <;> exact ⟨rfl, ht⟩

theorem related_restoreActive (i : ℕ) (c : Connection) :
    Related Rel (restoreActive i c s) (restoreActive i c s') := by
  have hl := sim.tryLock (·.restoreActiveConnection i c) h
  rw [restoreActive, restoreActive]
  obtain ⟨r, t, t', hx, hy, ht⟩ := hl.split
  rw [hx, hy]
  cases r <;> exact ⟨rfl, ht⟩

theorem related_withActiveConnection {F : Connection → σ → ρ × Connection × σ}
    {G : Connection → σ' → ρ × Connection × σ'}
    (hF : ∀ c t t', Rel t t' → RelatedConn Rel (F c t) (G c t')) :
    Related Rel (withActiveConnection F s) (withActiveConnection G s') := by
  have ht := related_takeActive sim h
  rw [withActiveConnection, withActiveConnection]
  obtain ⟨r, t, t', hx, hy, ht⟩ := ht.split
  rw [hx, hy]
  rcases r with e | ⟨i, c⟩
  · exact ⟨rfl, ht⟩
  have hf := hF c t t' ht
  dsimp only
  obtain ⟨a, c₁, u, u', hx, hy, hu⟩ := hf.split
  rw [hx, hy]
  have hr := related_restoreActive sim hu i c₁
  dsimp only
  obtain ⟨r, w, w', hx, hy, hw⟩ := hr.split
  rw [hx, hy]
  rcases r with e | ⟨⟩ <;> exact ⟨rfl, hw⟩

end

section

variable [SpmCall σ] [SpmCall σ'] {s : σ} {s' : σ'} (sim : LockSim Rel) (h : Rel s s')
  (mh : ServiceHandle)

include sim h

theorem related_withValidatedConnection
    {F : Connection → σ → Except StatusCode ρ × Connection × σ}
    {G : Connection → σ' → Except StatusCode ρ × Connection × σ'}
    (hF : ∀ c t t', Rel t t' → RelatedConn Rel (F c t) (G c t')) :
    Related Rel (withValidatedConnection mh F s) (withValidatedConnection mh G s') := by
  have hw := related_withActiveConnection sim h
    (F := fun c t => if c.msg.handle ≠ mh then (.error .invalidHandle, c, t)
      else if c.msg.msgType < 0 then (.error .programmerError, c, t) else F c t)
    (G := fun c t => if c.msg.handle ≠ mh then (.error .invalidHandle, c, t)
      else if c.msg.msgType < 0 then (.error .programmerError, c, t) else G c t)
    (fun c t t' ht => by
      split_ifs
      · exact ⟨rfl, rfl, ht⟩
      · exact ⟨rfl, rfl, ht⟩
      · exact hF c t t' ht)
  rw [withValidatedConnection, withValidatedConnection]
  obtain ⟨r, t, t', hx, hy, ht⟩ := hw.split
  rw [hx, hy]
  cases r <;> exact ⟨rfl, ht⟩

/-- An operation on the connection alone. -/
theorem related_onConnection (g : Connection → Except StatusCode ρ × Connection) :
    Related Rel (withValidatedConnection mh (fun c t => ((g c).1, (g c).2, t)) s)
      (withValidatedConnection mh (fun c t => ((g c).1, (g c).2, t)) s') :=
  related_withValidatedConnection sim h mh fun _ _ _ ht => ⟨rfl, rfl, ht⟩

theorem related_prepareRaw (o : Bool) (idx : BitVec 32) :
    Related Rel (prepareRaw o mh idx s) (prepareRaw o mh idx s') := by
  refine related_withValidatedConnection sim h mh fun c t t' ht => ?_
  rcases prepare c o idx with ⟨e | ⟨i, n, b⟩, c'⟩ <;> exact ⟨rfl, rfl, ht⟩

theorem related_finishInvecRaw (idx : BitVec 32) :
    Related Rel (finishInvecRaw mh idx s) (finishInvecRaw mh idx s') :=
  related_onConnection sim h mh fun c => markInvecUnmapped c idx.toNat

theorem related_finishOutvecRaw (idx : BitVec 32) (n : Usize) :
    Related Rel (finishOutvecRaw mh idx n s) (finishOutvecRaw mh idx n s') :=
  related_onConnection sim h mh fun c =>
    commitOutvecWrite c idx.toNat ((c.msg.outSize[idx.toNat]?).elim 0 (·.unwrapOr 0)) n

end

/-! ## The closure API -/

section

variable {s : σ} {s' : σ'} (h : Rel s s') (c : Connection) (i j : BitVec 32)

include h

theorem related_withMappedInvec {F : Slice → σ → ρ × σ} {G : Slice → σ' → ρ × σ'}
    (hF : ∀ slice, Related Rel (F slice s) (G slice s')) :
    RelatedConn Rel (withMappedInvec c i F s) (withMappedInvec c i G s') := by
  rw [withMappedInvec, withMappedInvec]
  rcases prepareInvec c i with ⟨e | ⟨k, n, b⟩, c₁⟩
  · exact ⟨rfl, rfl, h⟩
  have hf := hF (.ofRaw b n)
  dsimp only
  obtain ⟨r, t, t', hx, hy, ht⟩ := hf.split
  rw [hx, hy]
  dsimp only
  rcases markInvecUnmapped c₁ k with ⟨e | ⟨⟩, c₂⟩ <;> exact ⟨rfl, rfl, ht⟩

theorem related_withMappedOutvec {F : Slice → σ → (ρ × Usize) × σ}
    {G : Slice → σ' → (ρ × Usize) × σ'} (hF : ∀ slice, Related Rel (F slice s) (G slice s')) :
    RelatedConn Rel (withMappedOutvec c j F s) (withMappedOutvec c j G s') := by
  rw [withMappedOutvec, withMappedOutvec]
  rcases prepareOutvec c j with ⟨e | ⟨k, n, b⟩, c₁⟩
  · exact ⟨rfl, rfl, h⟩
  have hf := hF (.ofRaw b n)
  dsimp only
  obtain ⟨r, t, t', hx, hy, ht⟩ := hf.split
  rw [hx, hy]
  dsimp only
  rcases commitOutvecWrite c₁ k n r.2 with ⟨e | ⟨⟩, c₂⟩ <;> exact ⟨rfl, rfl, ht⟩

theorem related_withMappedInvecOutvec {F : Slice → Slice → σ → (ρ × Usize) × σ}
    {G : Slice → Slice → σ' → (ρ × Usize) × σ'}
    (hF : ∀ a b, Related Rel (F a b s) (G a b s')) :
    RelatedConn Rel (withMappedInvecOutvec c i j F s) (withMappedInvecOutvec c i j G s') := by
  rw [withMappedInvecOutvec, withMappedInvecOutvec]
  rcases prepareInvec c i with ⟨e | ⟨k, n, b⟩, c₁⟩
  · exact ⟨rfl, rfl, h⟩
  dsimp only
  rcases prepareOutvec c₁ j with ⟨e | ⟨l, m, b'⟩, c₂⟩
  · exact ⟨rfl, rfl, h⟩
  have hf := hF (.ofRaw b n) (.ofRaw b' m)
  dsimp only
  obtain ⟨r, t, t', hx, hy, ht⟩ := hf.split
  rw [hx, hy]
  dsimp only
  rcases commitOutvecWrite c₂ l m r.2 with ⟨e | ⟨⟩, c₃⟩
  · exact ⟨rfl, rfl, ht⟩
  dsimp only
  rcases markInvecUnmapped c₃ k with ⟨e | ⟨⟩, c₄⟩ <;> exact ⟨rfl, rfl, ht⟩

end

/-! ## Calls and SVCs -/

section

variable [SpmCall σ] [SpmCall σ'] {s : σ} {s' : σ'} (sim : SpmSim Rel) (h : Rel s s')

include sim h

section

variable {I : σ → σ} {J : σ' → σ'} {P : PsaMsg → σ → Except StatusCode Unit × σ}
  {Q : PsaMsg → σ' → Except StatusCode Unit × σ'} (hI : ∀ t t', Rel t t' → Rel (I t) (J t'))
  (hP : ∀ msg t t', Rel t t' → Related Rel (P msg t) (Q msg t'))

include hI hP

theorem related_call (c : Connection) :
    Related Rel (SpmCall.call c I P s) (SpmCall.call c J Q s') := by
  have he := sim.enter c h
  rw [SpmCall.call, SpmCall.call]
  obtain ⟨r, t, t', hx, hy, ht⟩ := he.split
  rw [hx, hy]
  rcases r with e | b
  · exact ⟨rfl, ht⟩
  have hinit : Rel (if b = true then I t else t) (if b = true then J t' else t') := by
    split_ifs
    · exact hI t t' ht
    · exact ht
  have hp := hP c.msg _ _ hinit
  exact ⟨hp.answer, sim.leave hp.state⟩

theorem related_sfnCall (req : SfnApi.Request) :
    (SfnApi.call req I P s).1 = (SfnApi.call req J Q s').1 ∧
      Related Rel (SfnApi.call req I P s).2 (SfnApi.call req J Q s').2 := by
  rw [SfnApi.call, SfnApi.call]
  rcases (acceptCall req.mem req.perm req.handle req.ctrlParam req.inVec req.outVec req.caller).1
    with e | ⟨c, outs⟩
  · exact ⟨rfl, rfl, h⟩
  · have hc := related_call sim h hI hP c
    exact ⟨hc.answer, rfl, hc.state⟩

end

theorem related_handleAccessVec (mh : ServiceHandle) (frame : SvcStackFrame) :
    Related Rel (handleAccessVec mh frame s) (handleAccessVec mh frame s') := by
  have hp : Related Rel (if (frame.r2 != 0) = true then prepareOutvecRaw mh frame.r1 s
      else prepareInvecRaw mh frame.r1 s) (if (frame.r2 != 0) = true then
        prepareOutvecRaw mh frame.r1 s' else prepareInvecRaw mh frame.r1 s') := by
    split_ifs
    · exact related_prepareRaw sim.toLockSim h mh true frame.r1
    · exact related_prepareRaw sim.toLockSim h mh false frame.r1
  rw [handleAccessVec, handleAccessVec]
  dsimp only
  obtain ⟨r, t, t', hx, hy, ht⟩ := hp.split
  rw [hx, hy]
  rcases r with e | raw
  · exact ⟨rfl, ht⟩
  · exact ⟨rfl, sim.mapVec _ _ _ _ ht⟩

theorem related_handleReleaseVec (mh : ServiceHandle) (frame : SvcStackFrame) :
    Related Rel (handleReleaseVec mh frame s) (handleReleaseVec mh frame s') := by
  have hp : Related Rel (if (frame.r2 != 0) = true then finishOutvecRaw mh frame.r1 frame.r3 s
      else finishInvecRaw mh frame.r1 s) (if (frame.r2 != 0) = true then
        finishOutvecRaw mh frame.r1 frame.r3 s' else finishInvecRaw mh frame.r1 s') := by
    split_ifs
    · exact related_finishOutvecRaw sim.toLockSim h mh frame.r1 frame.r3
    · exact related_finishInvecRaw sim.toLockSim h mh frame.r1
  rw [handleReleaseVec, handleReleaseVec]
  dsimp only
  obtain ⟨r, t, t', hx, hy, ht⟩ := hp.split
  rw [hx, hy]
  rcases r with e | ⟨⟩
  · exact ⟨rfl, ht⟩
  · exact ⟨rfl, sim.unmapVec _ _ ht⟩

theorem related_svcHandlerDispatch (svcNum : BitVec 8) (frame : SvcStackFrame) {F : SfnCall σ}
    {G : SfnCall σ'}
    (hF : ∀ mh cp iv ov caller, Related Rel (F mh cp iv ov caller s) (G mh cp iv ov caller s')) :
    Related Rel (svcHandlerDispatch svcNum frame F s) (svcHandlerDispatch svcNum frame G s') := by
  have hh : ∃ b fr t t', handleSvcWithSpm svcNum frame F s = (b, fr, t) ∧
      handleSvcWithSpm svcNum frame G s' = (b, fr, t') ∧ Rel t t' := by
    rw [handleSvcWithSpm, handleSvcWithSpm]
    cases serviceHandleFromRaw frame.r0 with
    | error e => exact ⟨_, _, _, _, rfl, rfl, h⟩
    | ok mh =>
      dsimp only
      split_ifs
      · obtain ⟨fr, t, t', hx, hy, ht⟩ := (related_handleAccessVec sim h mh frame).split
        rw [hx, hy]
        exact ⟨_, _, _, _, rfl, rfl, ht⟩
      · obtain ⟨fr, t, t', hx, hy, ht⟩ := (related_handleReleaseVec sim h mh frame).split
        rw [hx, hy]
        exact ⟨_, _, _, _, rfl, rfl, ht⟩
      · obtain ⟨r, t, t', hx, hy, ht⟩ :=
          (hF mh ⟨frame.r1⟩ frame.r2 frame.r3 .secureUnprivileged).split
        rw [hx, hy]
        rcases r with e | ⟨⟩ <;> exact ⟨_, _, _, _, rfl, rfl, ht⟩
      · rw [sim.version mh h]
        exact ⟨_, _, _, _, rfl, rfl, h⟩
      · exact ⟨_, _, _, _, rfl, rfl, h⟩
  rw [svcHandlerDispatch, svcHandlerDispatch]
  obtain ⟨b, fr, t, t', hx, hy, ht⟩ := hh
  rw [hx, hy]
  cases b <;> exact ⟨rfl, ht⟩

end

/-! ## Services -/

section

variable [SpmCall σ] [SpmCall σ'] {s : σ} {s' : σ'} {initEntry : Service}
  {callEntry : PsaMsg → Service}

/-- A call of a service whose entry points answer alike. -/
theorem related_serviceCall (sim : SpmSim Rel) (h : Rel s s')
    (hi : ∀ t t', Rel t t' → Related Rel (initEntry.run t) (initEntry.run t'))
    (hc : ∀ msg t t', Rel t t' → Related Rel ((callEntry msg).run t) ((callEntry msg).run t'))
    (req : SfnApi.Request) :
    (SfnApi.call req (fun s => (initEntry.run s).2)
        (fun msg s => (((callEntry msg).run s).1.status, ((callEntry msg).run s).2)) s).1 =
      (SfnApi.call req (fun s => (initEntry.run s).2)
        (fun msg s => (((callEntry msg).run s).1.status, ((callEntry msg).run s).2)) s').1 ∧
    Related Rel
      (SfnApi.call req (fun s => (initEntry.run s).2)
        (fun msg s => (((callEntry msg).run s).1.status, ((callEntry msg).run s).2)) s).2
      (SfnApi.call req (fun s => (initEntry.run s).2)
        (fun msg s => (((callEntry msg).run s).1.status, ((callEntry msg).run s).2)) s').2 := by
  refine related_sfnCall sim h (fun t t' ht => (hi t t' ht).state) (fun msg t t' ht => ?_) req
  have hr := hc msg t t' ht
  exact ⟨by rw [hr.answer], hr.state⟩

end

/-- **Every service answers alike on both SPMs.** -/
theorem SpmSim.run [SpmCall σ] [SpmCall σ'] (sim : SpmSim Rel) (service : Service) {s : σ} {s' : σ'}
    (h : Rel s s') : Related Rel (service.run s) (service.run s') := by
  induction service generalizing s s' with
  | done outcome => exact ⟨rfl, h⟩
  | accessInvec mh idx f next ihf ihn =>
    rw [Service.run, Service.run, SfnApi.accessInvec, SfnApi.accessInvec]
    refine Related.andThen (fun r s => (next r).run s) ?_ fun r t t' ht => ihn r ht
    refine related_withValidatedConnection sim.toLockSim h mh fun c t t' ht => ?_
    exact related_withMappedInvec ht c idx fun slice => ihf slice ht
  | accessOutvec mh idx f next ihf ihn =>
    rw [Service.run, Service.run, SfnApi.accessOutvec, SfnApi.accessOutvec]
    refine Related.andThen (fun r s => (next r).run s) ?_ fun r t t' ht => ihn r ht
    refine related_withValidatedConnection sim.toLockSim h mh fun c t t' ht => ?_
    refine related_withMappedOutvec ht c idx fun slice => ?_
    obtain ⟨r, u, u', hx, hy, hu⟩ := (ihf slice ht).split
    rw [hx, hy]
    exact ⟨rfl, hu⟩
  | accessInvecOutvec mh i j f next ihf ihn =>
    rw [Service.run, Service.run, SfnApi.accessInvecOutvec, SfnApi.accessInvecOutvec]
    refine Related.andThen (fun r s => (next r).run s) ?_ fun r t t' ht => ihn r ht
    refine related_withValidatedConnection sim.toLockSim h mh fun c t t' ht => ?_
    refine related_withMappedInvecOutvec ht c i j fun a b => ?_
    obtain ⟨r, u, u', hx, hy, hu⟩ := (ihf a b ht).split
    rw [hx, hy]
    exact ⟨rfl, hu⟩
  | psaCall req initEntry callEntry next ihi ihc ihn =>
    obtain ⟨hr, ho, ht⟩ := related_serviceCall sim h (fun _ _ => ihi) (fun msg _ _ => ihc msg) req
    rw [Service.run, Service.run]
    dsimp only
    rw [hr, ho]
    exact ihn _ _ ht
  | svc svcNum frame mem perm initEntry callEntry next ihi ihc ihn =>
    rw [Service.run, Service.run]
    refine Related.andThen (fun fr s => (next fr).run s) ?_ fun fr t t' ht => ihn fr ht
    refine related_svcHandlerDispatch sim h svcNum frame fun handle cp iv ov caller => ?_
    obtain ⟨hr, -, ht⟩ := related_serviceCall sim h (fun _ _ => ihi) (fun msg _ _ => ihc msg)
      ⟨mem, perm, handle, cp, iv, ov, caller⟩
    exact ⟨hr, ht⟩

end RuSpe
