import RuSpe.Spm.IpcSvc

set_option autoImplicit false

/-!
# The order in which a service uses a vector

A service should access a vector, then release it, and then leave it alone. The SVCs of a call are
run one after another on the process SPM, and the ones that succeed are recorded.

* `runVecSvcs`, `OrderedUse`: a run and what it should look like;
* `VecSvc.Meets`: an access of a vector that is not released yet, a release of one that is mapped;
* `Tracks`, `tracks_after`: the flags of the connection record what has succeeded;
* **`orderedUse_iff`**: a run is ordered exactly when each of its SVCs meets the condition.
-/

namespace RuSpe

/-- A successful operation on a vector. -/
structure VecOp where
  isRelease : Bool
  vec : Vec
  deriving DecidableEq, Repr

/-- The operations on `v`, in order: `false` for an access and `true` for a release. -/
def opsOn (ops : List VecOp) (v : Vec) : List Bool :=
  (ops.filter fun op => op.vec = v).map VecOp.isRelease

/-- The operations on each vector are an initial part of an access and a release. -/
def OrderedUse (ops : List VecOp) : Prop := ∀ v, opsOn ops v <+: [false, true]

namespace VecSvc

variable (svc : VecSvc) (c : Connection)

def op : VecOp := ⟨svc.isRelease, svc.vec⟩

/-- If the SVC passes its checks, then it releases a vector that is mapped, or it accesses one that
is not released. -/
def Meets : Prop :=
  svc.Passes c →
    if svc.isRelease then c.mapped svc.vec = true else c.unmapped svc.vec = false

instance : Decidable (svc.Meets c) := inferInstanceAs (Decidable (_ → ite _ _ _))

end VecSvc

section

variable {n : ℕ} (f : SfnCall (SpmIpc n))

/-- The SVCs handled one after another, with those whose status is success. -/
def runVecSvcs : List VecSvc → SpmIpc n → List VecOp × SpmIpc n
  | [], s => ([], s)
  | svc :: rest, s =>
    let (_, frame, s) := handleSvcWithSpm svc.svcNum svc.frame f s
    let (ops, s) := runVecSvcs rest s
    (if frame.r0 = StatusCode.success.toRaw then svc.op :: ops else ops, s)

/-- Every SVC of the run meets the condition when its turn comes. -/
def AllMeet : List VecSvc → SpmIpc n → Prop
  | [], _ => True
  | svc :: rest, s =>
    svc.Meets s.top ∧ AllMeet rest (handleSvcWithSpm svc.svcNum svc.frame f s).2.2

instance decidableAllMeet : (svcs : List VecSvc) → (s : SpmIpc n) → Decidable (AllMeet f svcs s)
  | [], _ => inferInstanceAs (Decidable True)
  | svc :: rest, s =>
    have := decidableAllMeet rest (handleSvcWithSpm svc.svcNum svc.frame f s).2.2
    inferInstanceAs (Decidable (svc.Meets s.top ∧ AllMeet f rest _))

/-! ## One SVC -/

variable {p : ℕ} {s : SpmIpc n} (svc : VecSvc)

theorem StatusCode.toRaw_ne {e : StatusCode} (he : e ≠ .success) :
    e.toRaw ≠ StatusCode.success.toRaw := by
  cases e with
  | success => exact absurd rfl he
  | _ => decide

theorem VecSvc.answer_r0 (c : Connection) : (svc.answer c).r0 = StatusCode.success.toRaw := by
  rw [VecSvc.answer]
  split_ifs <;> rfl

/-! ## What the flags record -/

/-- The flags of `c` say what has succeeded on each vector. -/
def Tracks (c : Connection) (ops : List VecOp) : Prop :=
  ∀ v, opsOn ops v = [] ∧ c.mapped v = false ∧ c.unmapped v = false ∨
    opsOn ops v = [false] ∧ c.mapped v = true ∧ c.unmapped v = false ∨
    opsOn ops v = [false, true] ∧ c.mapped v = false ∧ c.unmapped v = true

theorem opsOn_append (l l' : List VecOp) (v : Vec) : opsOn (l ++ l') v = opsOn l v ++ opsOn l' v := by
  simp [opsOn]

theorem opsOn_cons (op : VecOp) (l : List VecOp) (v : Vec) :
    opsOn (op :: l) v = if op.vec = v then op.isRelease :: opsOn l v else opsOn l v := by
  by_cases h : op.vec = v <;> simp [opsOn, h]

/-- A vector that was never accessed cannot be released first. -/
theorem Tracks.orderedUse {c : Connection} {ops : List VecOp} (h : Tracks c ops) :
    OrderedUse ops := fun v => by
  rcases h v with ⟨h, -⟩ | ⟨h, -⟩ | ⟨h, -⟩ <;> rw [h]
  · exact List.nil_prefix
  · exact ⟨[true], rfl⟩

theorem VecSvc.mapped_after {c : Connection} (hi : svc.vec.idx < psaMaxIovec) (v : Vec) :
    (svc.after c).mapped v = if v = svc.vec then !svc.isRelease else c.mapped v := by
  rw [VecSvc.after]
  by_cases hv : v = svc.vec <;> cases svc.isRelease <;> cases svc.vec.isOutvec <;> simp [hv, hi]

theorem VecSvc.unmapped_after {c : Connection} (hi : svc.vec.idx < psaMaxIovec) (v : Vec) :
    (svc.after c).unmapped v = if v = svc.vec then svc.isRelease else c.unmapped v := by
  rw [VecSvc.after]
  by_cases hv : v = svc.vec <;> cases svc.isRelease <;> cases svc.vec.isOutvec <;> simp [hv, hi]

/-- **A step that meets the condition keeps the record.** -/
theorem tracks_after {c : Connection} {ops : List VecOp} (h : Tracks c ops) (hp : svc.Passes c)
    (hm : svc.Meets c) : Tracks (svc.after c) (ops ++ [svc.op]) := by
  have hm := hm hp
  obtain ⟨-, -, hi, hb⟩ := hp
  intro v
  rw [opsOn_append, opsOn_cons, svc.mapped_after hi, svc.unmapped_after hi]
  by_cases hv : svc.vec = v
  · subst hv
    rw [VecSvc.op, if_pos rfl, if_pos rfl, if_pos rfl]
    cases hr : svc.isRelease <;> simp only [hr, if_true, if_false, Bool.false_eq_true] at hm hb
    · rcases h svc.vec with ⟨ho, -⟩ | ⟨-, hmap, -⟩ | ⟨-, -, hu⟩
      · exact .inr (.inl ⟨by rw [ho]; rfl, rfl, rfl⟩)
      · rw [hmap] at hb
        exact absurd hb.1 Bool.noConfusion
      · rw [hu] at hm
        exact absurd hm Bool.noConfusion
    · rcases h svc.vec with ⟨-, hmap, -⟩ | ⟨ho, -⟩ | ⟨-, hmap, -⟩
      · rw [hmap] at hm
        exact absurd hm Bool.noConfusion
      · exact .inr (.inr ⟨by rw [ho]; rfl, rfl, rfl⟩)
      · rw [hmap] at hm
        exact absurd hm Bool.noConfusion
  · rw [if_neg (Ne.symm hv), if_neg (Ne.symm hv), VecSvc.op, if_neg hv]
    simpa [opsOn] using h v

/-- **A step that does not meet the condition breaks the order for good.** -/
theorem not_orderedUse {c : Connection} {ops : List VecOp} (h : Tracks c ops) (hp : svc.Passes c)
    (hm : ¬ svc.Meets c) (rest : List VecOp) : ¬ OrderedUse (ops ++ svc.op :: rest) := by
  intro ho
  have ho := ho svc.vec
  rw [opsOn_append, opsOn_cons, if_pos (show svc.op.vec = svc.vec from rfl)] at ho
  rw [VecSvc.Meets, Classical.not_imp] at hm
  have hm := hm.2
  obtain ⟨-, -, -, hb⟩ := hp
  cases hr : svc.isRelease <;>
    simp only [hr, if_true, if_false, Bool.false_eq_true, VecSvc.op] at hm hb ho
  · -- an access after the release
    rcases h svc.vec with ⟨-, -, hu⟩ | ⟨-, -, hu⟩ | ⟨h', -⟩
    · exact hm hu
    · exact hm hu
    · rw [h'] at ho
      simp at ho
  · -- a release of a vector that was not accessed, or was released before
    rcases h svc.vec with ⟨h', -⟩ | ⟨-, hmap, -⟩ | ⟨h', -⟩
    · rw [h'] at ho
      simp at ho
    · exact hm hmap
    · rw [h'] at ho
      simp at ho

/-! ## A run -/

theorem orderedUse_run (svcs : List VecSvc) (pre : List VecOp) (hs : OnTop p s)
    (h : Tracks s.top pre) :
    OrderedUse (pre ++ (runVecSvcs f svcs s).1) ↔ AllMeet f svcs s := by
  induction svcs generalizing s pre with
  | nil => simpa [runVecSvcs, AllMeet] using h.orderedUse
  | cons svc rest ih =>
    rw [runVecSvcs, AllMeet]
    by_cases hp : svc.Passes s.top
    · rw [handleSvc_of_passes svc f hs.good hs.active hs.find hp]
      dsimp only
      rw [if_pos (svc.answer_r0 _)]
      by_cases hm : svc.Meets s.top
      · obtain ⟨hs', ht⟩ := hs.after svc
        rw [List.append_cons, ih _ hs' (by rw [ht]; exact tracks_after svc h hp hm)]
        exact (and_iff_right hm).symm
      · exact iff_of_false (not_orderedUse svc h hp hm _) fun hall => hm hall.1
    · obtain ⟨e, he, hrun⟩ := handleSvc_of_not_passes svc f hs.good hs.active hp
      rw [hrun]
      dsimp only
      rw [if_neg (show (svc.frame.setError e).r0 ≠ _ from StatusCode.toRaw_ne he), ih _ hs h]
      exact (and_iff_right fun hpass => absurd hpass hp).symm

end

section

variable {n : ℕ} {s₀ s : SpmIpc n} {c : Connection} {b : Bool}

/-- **The vectors of a call are used in order exactly when each SVC of the run meets the
condition.** -/
theorem orderedUse_iff (f : SfnCall (SpmIpc n)) (h : Good s₀) (hc : c.Fresh)
    (he : SpmIpc.enter c s₀ = (.ok b, s)) (svcs : List VecSvc) :
    OrderedUse (runVecSvcs f svcs s).1 ↔ AllMeet f svcs s := by
  obtain ⟨htop, p, hs⟩ := onTop_of_enter h he
  refine orderedUse_run f svcs [] hs fun v => ?_
  rw [htop]
  exact .inl ⟨rfl, hc.mapped v, hc.unmapped v⟩

end

/-! ## The crypto service, just called -/

namespace OneProcess

def refuseCalls : SfnCall (SpmIpc 1) := fun _ _ _ _ _ s => (.error .connectionRefused, s)

def access : VecSvc := ⟨false, ⟨ServiceHandle.crypto.val, 0, 0, 0, 0, 0, 0, 0⟩⟩

def release : VecSvc := ⟨true, ⟨ServiceHandle.crypto.val, 0, 0, 0, 0, 0, 0, 0⟩⟩

end OneProcess

open OneProcess in
theorem orderedUse_access_release :
    OrderedUse (runVecSvcs refuseCalls [access, release] entered).1 :=
  (orderedUse_iff (b := true) refuseCalls ⟨rfl, ConnectionArray.wf_new⟩
    (Connection.fresh_ofMsg (.new .crypto 1 .nsUnprivileged))
    enter_conn
    [access, release]).mpr (by decide)

open OneProcess in
/-- A vector can be released before it is accessed, and accessed again after it was released. -/
theorem not_orderedUse_release_first :
    ¬ OrderedUse (runVecSvcs refuseCalls [release] entered).1 ∧
      ¬ OrderedUse (runVecSvcs refuseCalls [access, release, access] entered).1 := by
  refine ⟨fun h => ?_, fun h => ?_⟩
  · have hops : opsOn (runVecSvcs refuseCalls [release] entered).1 ⟨false, 0⟩ = [true] := by decide
    have := h ⟨false, 0⟩
    rw [hops] at this
    exact absurd this (by decide)
  · have hops : opsOn (runVecSvcs refuseCalls [access, release, access] entered).1 ⟨false, 0⟩ =
        [false, true, false] := by decide
    have := h ⟨false, 0⟩
    rw [hops] at this
    exact absurd this (by decide)

end RuSpe
