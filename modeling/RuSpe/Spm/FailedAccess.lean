import RuSpe.Spm.Interchange

set_option autoImplicit false

/-!
# An access that fails

`access_invec_outvec` starts two vectors, one after the other. If the second one is refused, the
first one stays started: neither API takes it back.

* `LeavesNoTrace`: a failed access whose closure did not run changes nothing;
* `HalfStarts`: the first vector can be started, the second one cannot;
* **`leavesNoTrace_iff`**: the first holds exactly when the second does not.
-/

namespace RuSpe

variable {σ τ ρ α : Type}

/-- If the operation fails without its closure being shown anything, then whatever `view` sees of
the SPM is as it was. -/
def LeavesNoTrace (api : WatchedApi σ τ ρ) (view : σ → α) (op : Access τ ρ) (s : Hosted σ τ) : Prop :=
  ∀ e, (watch api op s).1 = (.error e, []) → view (watch api op s).2.spm = view s.spm

/-- The active connection: all flags, counters and sizes. -/
def connView [ConnStore σ] [LawfulConnStore σ] (s : σ) : Connection :=
  (LawfulConnStore.conns s).topSlot

/-- The active connection and the programmed regions. -/
def ipcView {n : ℕ} (s : SpmIpc n) : Connection × Vector Armv8Mpu.Region 8 := (s.top, s.mpu)

/-- An operation for this connection starts the input vector and is refused the output vector. -/
def HalfStarts (c : Connection) (mh : ServiceHandle) (i o : BitVec 32) : Prop :=
  c.msg.handle = mh ∧ 0 ≤ c.msg.msgType ∧ c.Startable ⟨false, i.toNat⟩ ∧
    ¬ c.Startable ⟨true, o.toNat⟩

instance (c : Connection) (mh : ServiceHandle) (i o : BitVec 32) :
    Decidable (HalfStarts c mh i o) := inferInstanceAs (Decidable (_ ∧ _ ∧ _ ∧ _))

/-! ## The operation on the connection -/

/-- What the start of a use does to the flags. -/
structure Bookkeeping.Marks (k : Bookkeeping) : Prop where
  mapped : ∀ (v : Vec) (c : Connection), v.idx < psaMaxIovec → (k.start v c).mapped v = true
  startable : ∀ (v u : Vec) (c : Connection), u ≠ v → ((k.start v c).Startable u ↔ c.Startable u)

theorem marks_sfnBookkeeping : sfnBookkeeping.Marks where
  mapped v c hv := by
    rw [sfnBookkeeping, Connection.mapped_setMapped, if_pos ⟨rfl, hv⟩]
  startable v u c hu := by
    rw [Connection.Startable, Connection.Startable, sfnBookkeeping, Connection.mapped_setMapped,
      if_neg fun h => hu h.1, Connection.used_setMapped]

theorem marks_svcBookkeeping : svcBookkeeping.Marks where
  mapped v c hv := by
    rw [svcBookkeeping, Connection.mapped_setUnmapped, Connection.mapped_setMapped,
      if_pos ⟨rfl, hv⟩]
  startable v u c hu := by
    rw [Connection.Startable, Connection.Startable, svcBookkeeping, Connection.mapped_setUnmapped,
      Connection.mapped_setMapped, if_neg fun h => hu h.1, Connection.mapped_setMapped,
      if_neg fun h => hu h.1, Connection.used_setUnmapped, Connection.used_setMapped,
      Connection.used_setMapped]

section

variable {k : Bookkeeping} {c : Connection} {mh : ServiceHandle} {i o : BitVec 32}
  {g : Slice → Slice → τ → (ρ × Usize) × τ} {w : τ}

/-- An operation that does not start the first vector. -/
theorem run_of_refused (h : ¬ (c.msg.handle = mh ∧ 0 ≤ c.msg.msgType ∧
    c.Startable ⟨false, i.toNat⟩)) :
    ∃ e, (Access.invecOutvec mh i o g).run k c w = (.error e, c, w) := by
  rw [Access.run, validatedIn, Access.msgHandle]
  by_cases hh : c.msg.handle = mh
  swap
  · exact ⟨_, if_pos hh⟩
  rw [if_neg (not_not.mpr hh)]
  by_cases hty : c.msg.msgType < 0
  · exact ⟨_, if_pos hty⟩
  rw [if_neg hty, Access.body]
  exact ⟨_, if_neg fun hs => h ⟨hh, not_lt.mp hty, hs⟩⟩

/-- The first vector stays started. -/
theorem run_of_halfStarts (hk : k.Marks) (h : HalfStarts c mh i o) :
    (Access.invecOutvec mh i o g).run k c w =
      (.error .programmerError, k.start ⟨false, i.toNat⟩ c, w) := by
  obtain ⟨hh, hty, hs, hs'⟩ := h
  have hu : (⟨true, o.toNat⟩ : Vec) ≠ ⟨false, i.toNat⟩ := nofun
  rw [Access.run, validatedIn, Access.msgHandle, if_neg (not_not.mpr hh),
    if_neg (not_lt.mpr hty), Access.body]
  dsimp only
  rw [if_pos hs, if_neg fun h => hs' ((hk.startable _ _ c hu).mp h)]

/-- An operation that starts both vectors shows them to its closure. -/
theorem shown_of_starts (hk : k.Marks) (hh : c.msg.handle = mh) (hty : 0 ≤ c.msg.msgType)
    (hs : c.Startable ⟨false, i.toNat⟩) (hs' : c.Startable ⟨true, o.toNat⟩) :
    ((Access.invecOutvec mh i o g).watched.run k c (w, [])).2.2.2 ≠ [] := by
  have hu : (⟨true, o.toNat⟩ : Vec) ≠ ⟨false, i.toNat⟩ := nofun
  rw [Access.watched, Access.run, validatedIn, Access.msgHandle, if_neg (not_not.mpr hh),
    if_neg (not_lt.mpr hty), Access.body]
  dsimp only
  rw [if_pos hs, if_pos ((hk.startable _ _ c hu).mpr hs')]
  split_ifs <;> exact List.cons_ne_nil _ _

/-- The trace of an operation that starts one vector only. -/
theorem ne_of_halfStarts (hk : k.Marks) (h : HalfStarts c mh i o) :
    k.start ⟨false, i.toNat⟩ c ≠ c := by
  intro he
  have hm := hk.mapped ⟨false, i.toNat⟩ c h.2.2.1.1
  rw [he, h.2.2.1.2.1] at hm
  cases hm

end

/-! ## Both APIs -/

section

variable {mh : ServiceHandle} {i o : BitVec 32} {g : Slice → Slice → τ → (ρ × Usize) × τ} {w : τ}

theorem sfn_leavesNoTrace_iff [SpmCall σ] [LawfulSpm σ] {s : σ} (h : Good s)
    (ha : (LawfulConnStore.conns s).Active) :
    LeavesNoTrace SfnApi.access connView (.invecOutvec mh i o g) ⟨s, w⟩ ↔
      ¬ HalfStarts (connView s) mh i o := by
  have hwatch : watch SfnApi.access (.invecOutvec mh i o g) ⟨s, w⟩ =
      let x := (Access.invecOutvec mh i o g).watched.run sfnBookkeeping (connView s) (w, [])
      ((x.1, x.2.2.2), ⟨LawfulConnStore.put ((LawfulConnStore.conns s).filled x.2.1) s, x.2.2.1⟩) := by
    rw [watch, sfnAccess_eq h ha]
    rfl
  have hview : ∀ c : Connection,
      connView (LawfulConnStore.put ((LawfulConnStore.conns s).filled c) s) = c := by
    intro c
    rw [connView, LawfulConnStore.conns_put]
    exact ConnectionArray.topSlot_filled h.wf ha.1 c
  rw [LeavesNoTrace, hwatch]
  dsimp only
  rw [hview]
  constructor
  · intro htrace hhalf
    rw [Access.watched, run_of_halfStarts marks_sfnBookkeeping hhalf] at htrace
    exact ne_of_halfStarts marks_sfnBookkeeping hhalf (htrace _ rfl)
  · intro hhalf e he
    by_cases hmeant : (connView s).msg.handle = mh ∧ 0 ≤ (connView s).msg.msgType ∧
        (connView s).Startable ⟨false, i.toNat⟩
    · obtain ⟨hh, hty, hs⟩ := hmeant
      have hs' : (connView s).Startable ⟨true, o.toNat⟩ := by
        by_contra hs'
        exact hhalf ⟨hh, hty, hs, hs'⟩
      exact absurd (Prod.mk.inj he).2 (shown_of_starts marks_sfnBookkeeping hh hty hs hs')
    · rw [Access.watched]
      obtain ⟨e, hrun⟩ := run_of_refused hmeant
      rw [hrun]

variable {n p : ℕ} {t : SpmIpc n}

/-- An operation whose first SVC is refused changes nothing at all. -/
theorem svcAccess_of_refused (others : τ → SvcStackFrame) (f : SfnCall (SpmIpc n)) (h : OnTop p t)
    (hr : ¬ (t.top.msg.handle = mh ∧ 0 ≤ t.top.msg.msgType ∧ t.top.Startable ⟨false, i.toNat⟩)) :
    ∃ e, SvcApi.access (Hosted.svcCall others f) (.invecOutvec mh i o g) ⟨t, w⟩ =
      (.error e, ⟨t, w⟩) := by
  have hsvc : ∃ e, svcAccessInvec (Hosted.svcCall others f) mh.val i ⟨t, w⟩ = (.error e, ⟨t, w⟩) := by
    rw [svcAccessInvec, show (0 : Usize) = dirFlag false from rfl, svcAccessVec_hosted others f h]
    by_cases hh : t.top.msg.handle = mh
    swap
    · exact ⟨_, if_pos hh⟩
    rw [if_neg (not_not.mpr hh)]
    refine ⟨_, if_pos ?_⟩
    by_contra hb
    rw [not_or, not_lt, not_not] at hb
    exact hr ⟨hh, hb⟩
  obtain ⟨e, he⟩ := hsvc
  exact ⟨e, by rw [SvcApi.access, SvcApi.accessInvecOutvec, he]⟩

theorem svc_leavesNoTrace_iff (others : τ × List Slice → SvcStackFrame) (f : SfnCall (SpmIpc n))
    (h : OnTop p t) :
    LeavesNoTrace (SvcApi.access (Hosted.svcCall others f)) ipcView (.invecOutvec mh i o g) ⟨t, w⟩ ↔
      ¬ HalfStarts t.top mh i o := by
  have hends := svcAccess_eq others f h (Access.invecOutvec mh i o g).watched (w, [])
  rw [LeavesNoTrace, watch]
  dsimp only
  constructor
  · intro htrace hhalf
    rw [Access.watched, run_of_halfStarts marks_svcBookkeeping hhalf] at hends
    have hshown := congrArg Prod.snd hends.rest
    have htop := htrace .programmerError (Prod.ext hends.result hshown)
    exact ne_of_halfStarts marks_svcBookkeeping hhalf
      (hends.top.symm.trans (congrArg Prod.fst htop))
  · intro hhalf e he
    by_cases hmeant : t.top.msg.handle = mh ∧ 0 ≤ t.top.msg.msgType ∧
        t.top.Startable ⟨false, i.toNat⟩
    · obtain ⟨hh, hty, hs⟩ := hmeant
      have hs' : t.top.Startable ⟨true, o.toNat⟩ := by
        by_contra hs'
        exact hhalf ⟨hh, hty, hs, hs'⟩
      have hshown := (congrArg Prod.snd hends.rest).symm.trans (Prod.mk.inj he).2
      exact absurd hshown (shown_of_starts marks_svcBookkeeping hh hty hs hs')
    · rw [Access.watched]
      obtain ⟨e, hrun⟩ := svcAccess_of_refused others f h hmeant
      rw [hrun]

/-- **Through either API, an access of two vectors that fails before its closure runs leaves
everything as it was, unless the first vector can be started and the second one cannot.** -/
theorem leavesNoTrace_iff [SpmCall σ] [LawfulSpm σ] {s : σ} (hs : Good s)
    (ha : (LawfulConnStore.conns s).Active) (ht : OnTop p t)
    (others : τ × List Slice → SvcStackFrame) (f : SfnCall (SpmIpc n)) :
    (LeavesNoTrace SfnApi.access connView (.invecOutvec mh i o g) ⟨s, w⟩ ↔
      ¬ HalfStarts (connView s) mh i o) ∧
    (LeavesNoTrace (SvcApi.access (Hosted.svcCall others f)) ipcView (.invecOutvec mh i o g)
        ⟨t, w⟩ ↔ ¬ HalfStarts t.top mh i o) :=
  ⟨sfn_leavesNoTrace_iff hs ha, svc_leavesNoTrace_iff others f ht⟩

end

/-! ## An output vector that does not exist -/

namespace OneProcess

def copyOut : Slice → Slice → Unit → (ℕ × Usize) × Unit := fun _ _ w => ((0, 0), w)

theorem paired_inOut : Paired 0 fnEntered ipcEntered := by
  obtain ⟨_, -, -, hA⟩ := callFromSlices_ok accept_inOut
  have hs : Good (SpmFn.new fun _ => none) := ⟨rfl, ConnectionArray.wf_new⟩
  have ht : Good spm := ⟨rfl, ConnectionArray.wf_new⟩
  obtain ⟨p, hp⟩ := paired_of_enter hA.fresh hs ht enter_fn enter_ipc
  have hfind : ipcEntered.findProcessIndex ipcEntered.top.msg.handle = some 0 := by decide
  obtain rfl := Option.some.inj (hp.onTop.find.symm.trans hfind)
  exact hp

end OneProcess

open OneProcess in
/-- A wrong input index leaves no trace. -/
theorem leavesNoTrace_no_invec :
    LeavesNoTrace SfnApi.access connView (.invecOutvec .crypto 4 0 copyOut) ⟨fnEntered, ()⟩ ∧
      LeavesNoTrace (SvcApi.access (Hosted.svcCall noOthers refuseCalls)) ipcView
        (.invecOutvec .crypto 4 0 copyOut) ⟨ipcEntered, ()⟩ := by
  have hp := paired_inOut
  refine (leavesNoTrace_iff hp.good hp.active hp.onTop noOthers refuseCalls).imp (fun h => h.mpr ?_) fun h => h.mpr ?_
  · decide
  · decide

open OneProcess in
/-- With a wrong output index, the input vector stays started, and cannot be read any more. -/
theorem not_leavesNoTrace_no_outvec :
    ¬ LeavesNoTrace SfnApi.access connView (.invecOutvec .crypto 0 4 copyOut) ⟨fnEntered, ()⟩ ∧
      ¬ LeavesNoTrace (SvcApi.access (Hosted.svcCall noOthers refuseCalls)) ipcView
        (.invecOutvec .crypto 0 4 copyOut) ⟨ipcEntered, ()⟩ := by
  have hp := paired_inOut
  constructor
  · rw [sfn_leavesNoTrace_iff hp.good hp.active, not_not]
    decide
  · rw [svc_leavesNoTrace_iff noOthers refuseCalls hp.onTop, not_not]
    decide

end RuSpe
