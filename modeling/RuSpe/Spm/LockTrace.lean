import RuSpe.Lib.LockSteps
import RuSpe.Spm.Discipline
import RuSpe.Spm.ServiceSim

set_option autoImplicit false

/-!
# The lock of the SPM

Every operation of an SPM is a few short critical sections with work between them. The closures run
under `try_lock` change the value behind the lock and do not call the SPM, so each of them is one
piece of work. A traced SPM collects the steps.

* `LockTrace`: the steps of each operation; the instances for `SpmFn` and `SpmIpc`;
* `LawfulLockTrace`: the steps are bracketed and lead where the operation leads;
* `Traced`, **`traced_sim`**: so do the steps of whatever is built from the operations.
-/

namespace RuSpe

open LockSteps Lockable

/-- The steps of the operations of an SPM. -/
class LockTrace (σ : Type) extends Lockable σ where
  tryLockSteps (f : ConnectionArray → ConnectionArray) : σ → List (LockStep σ)
  enterSteps (c : Connection) : σ → List (LockStep σ)
  leaveSteps : σ → List (LockStep σ)
  mapVecSteps (o : Bool) (idx : BitVec 32) : σ → List (LockStep σ)
  unmapVecSteps (o : Bool) (idx : BitVec 32) : σ → List (LockStep σ)

/-- While the lock is free, the steps lead where the operation leads. -/
class LawfulLockTrace (σ : Type) [SpmCall σ] [LockTrace σ] : Prop where
  tryLock {ρ : Type} (f : ConnectionArray → ρ × ConnectionArray) {s : σ} (h : locked s = false) :
    Traces s (LockTrace.tryLockSteps (fun a => (f a).2) s) (ConnStore.tryLock f s).2
  enter (c : Connection) {s : σ} (h : locked s = false) :
    Traces s (LockTrace.enterSteps c s) (SpmCall.enter c s).2
  leave {s : σ} (h : locked s = false) : Traces s (LockTrace.leaveSteps s) (SpmCall.leave s)
  mapVec (o : Bool) (idx : BitVec 32) (base size : Usize) {s : σ} (h : locked s = false) :
    Traces s (LockTrace.mapVecSteps o idx s) (SpmCall.mapVec o idx base size s)
  unmapVec (o : Bool) (idx : BitVec 32) {s : σ} (h : locked s = false) :
    Traces s (LockTrace.unmapVecSteps o idx s) (SpmCall.unmapVec o idx s)

/-! ## The function-call SPM -/

namespace SpmFn

instance : Lockable SpmFn where
  locked s := s.connections.lock
  setLocked b s := { s with connections := { s.connections with lock := b } }
  locked_setLocked _ _ := rfl

/-- Work on the value behind the lock. -/
def onValue (f : ConnectionArray → ConnectionArray) (s : SpmFn) : SpmFn :=
  { s with connections := { s.connections with value := f s.connections.value } }

instance : LockTrace SpmFn where
  tryLockSteps f := LockSteps.tryLock (onValue f)
  enterSteps c := LockSteps.tryLock (onValue fun connections => (connections.addConnection c).2)
  leaveSteps := LockSteps.tryLock (onValue ConnectionArray.popConnection)
  mapVecSteps _ _ _ := []
  unmapVecSteps _ _ _ := []

theorem traces_onValue {s : SpmFn} (h : s.connections.lock = false)
    (f : ConnectionArray → ConnectionArray) :
    Traces s (LockSteps.tryLock (onValue f) s)
      { s with connections := ⟨false, f s.connections.value⟩ } :=
  traces_tryLock h fun _ => rfl

instance : LawfulLockTrace SpmFn where
  tryLock {ρ} f s h := by
    have ht := traces_onValue h fun a => (f a).2
    rw [LawfulConnStore.tryLock_eq h f]
    obtain ⟨⟨lock, a⟩, v⟩ := s
    obtain rfl : lock = false := h
    exact ht
  enter c s h := by
    have ht := traces_onValue h fun connections => (connections.addConnection c).2
    obtain ⟨⟨lock, a⟩, v⟩ := s
    obtain rfl : lock = false := h
    have he : (enter c ⟨⟨false, a⟩, v⟩).2 = ⟨⟨false, (a.addConnection c).2⟩, v⟩ := by
      simp only [enter, addConnection, ConnStore.tryLock, Mutex.tryLock, Bool.false_eq_true,
        if_false]
      rcases a.addConnection c with ⟨e | ⟨⟩, a'⟩ <;> rfl
    exact he ▸ ht
  leave {s} h := by
    have ht := traces_onValue h ConnectionArray.popConnection
    rw [← leave_eq h] at ht
    exact ht
  mapVec _ _ _ _ _ h := .nil h
  unmapVec _ _ _ h := .nil h

end SpmFn

/-! ## The process SPM -/

namespace SpmIpc

variable {n : ℕ}

instance : Lockable (SpmIpc n) where
  locked s := s.state.lock
  setLocked b s := { s with state := { s.state with lock := b } }
  locked_setLocked _ _ := rfl

/-- Work on the value behind the lock. -/
def onState (f : SpmIpcState n → SpmIpcState n) (s : SpmIpc n) : SpmIpc n :=
  { s with state := { s.state with value := f s.state.value } }

/-- Work on the connections behind the lock. -/
def onConnections (f : ConnectionArray → ConnectionArray) : SpmIpc n → SpmIpc n :=
  onState fun state => { state with connections := f state.connections }

/-- The steps of `apply_mpu_config`: the connection is looked at under the lock, and the MPU is
programmed when it is free again. -/
def applyMpuSteps (processIndex : ℕ) (s : SpmIpc n) : List (LockStep (SpmIpc n)) :=
  match s.processes[processIndex]? with
  | none => []
  | some _ =>
    LockSteps.tryLock (onState id) s ++
      [.work fun t => { t with mpu := (s.applyMpuConfig processIndex).mpu }]

/-- The steps of `update_vec_mapping`. -/
def updateVecSteps (isOutvec : Bool) (vecIdx : BitVec 32) (mapped : Bool) (s : SpmIpc n) :
    List (LockStep (SpmIpc n)) :=
  LockSteps.tryLock (onConnections fun a => a.takeActiveConnection.2) s ++
    match takeActive s with
    | (.error _, _) => []
    | (.ok (index, conn), s) =>
      let (processIndex, conn) := s.markVec isOutvec vecIdx mapped conn
      LockSteps.tryLock (onConnections fun a => (a.restoreActiveConnection index conn).2) s ++
        match processIndex with
        | some processIndex => applyMpuSteps processIndex (restoreActive index conn s).2
        | none => []

/-- The steps of `call` up to the code of the service. -/
def enterSteps (c : Connection) (s : SpmIpc n) : List (LockStep (SpmIpc n)) :=
  match s.findProcessIndex c.msg.handle with
  | none => []
  | some p =>
    LockSteps.tryLock (onState fun state => (SpmIpcState.addAndMark c p state).2) s ++
      match s.state.tryLock (SpmIpcState.addAndMark c p) with
      | (.ok (.ok _), state) => applyMpuSteps p { s with state }
      | _ => []

/-- The steps of `call` after the code of the service. -/
def leaveSteps (s : SpmIpc n) : List (LockStep (SpmIpc n)) :=
  LockSteps.tryLock (onConnections ConnectionArray.popConnection) s ++
    match s.getLastProcessIndex with
    | (some prev, s) => applyMpuSteps prev s
    | (none, _) => []

instance : LockTrace (SpmIpc n) where
  tryLockSteps f := LockSteps.tryLock (onConnections f)
  enterSteps := enterSteps
  leaveSteps := leaveSteps
  mapVecSteps o idx := updateVecSteps o idx true
  unmapVecSteps o idx := updateVecSteps o idx false

variable {s : SpmIpc n}

theorem traces_onState (h : s.state.lock = false) (f : SpmIpcState n → SpmIpcState n) :
    Traces s (LockSteps.tryLock (onState f) s) { s with state := ⟨false, f s.state.value⟩ } :=
  traces_tryLock h fun _ => rfl

theorem traces_applyMpu (h : s.state.lock = false) (p : ℕ) :
    Traces s (applyMpuSteps p s) (s.applyMpuConfig p) := by
  rw [applyMpuSteps]
  cases hp : s.processes[p]? with
  | none =>
    rw [applyMpuConfig, hp]
    exact .nil h
  | some proc =>
    have hid : ({ s with state := ⟨false, id s.state.value⟩ } : SpmIpc n) = s := by
      obtain ⟨⟨lock, value⟩, platform, processes, mpu⟩ := s
      obtain rfl : lock = false := h
      rfl
    have ht := traces_onState h id
    rw [hid] at ht
    have hw := Traces.work (f := fun t : SpmIpc n => { t with mpu := (s.applyMpuConfig p).mpu }) h
      fun _ => rfl
    rw [s.applyMpuConfig_eq_mpu h p]
    exact ht.append hw

theorem traces_takeActive (h : s.state.lock = false) :
    Traces s (LockSteps.tryLock (onConnections fun a => a.takeActiveConnection.2) s)
      (takeActive s).2 := by
  have ht := traces_onState h fun state =>
    { state with connections := state.connections.takeActiveConnection.2 }
  obtain ⟨⟨lock, value⟩, platform, processes, mpu⟩ := s
  obtain rfl : lock = false := h
  exact ht

theorem traces_restoreActive (h : s.state.lock = false) (i : ℕ) (c : Connection) :
    Traces s (LockSteps.tryLock (onConnections fun a => (a.restoreActiveConnection i c).2) s)
      (restoreActive i c s).2 := by
  have ht := traces_onState h fun state =>
    { state with connections := (state.connections.restoreActiveConnection i c).2 }
  obtain ⟨⟨lock, value⟩, platform, processes, mpu⟩ := s
  obtain rfl : lock = false := h
  exact ht

theorem traces_updateVec (h : s.state.lock = false) (o : Bool) (idx : BitVec 32) (b : Bool) :
    Traces s (updateVecSteps o idx b s) (updateVecMapping o idx b s) := by
  have ht := traces_takeActive h
  rw [updateVecSteps, updateVecMapping]
  rcases hx : takeActive s with ⟨e | ⟨i, c⟩, t⟩ <;> rw [hx] at ht
  · rw [List.append_nil]
    exact ht
  dsimp only at ht ⊢
  rcases t.markVec o idx b c with ⟨pi, c'⟩
  have hr := ht.append (traces_restoreActive ht.free i c')
  dsimp only
  rw [← List.append_assoc]
  cases pi with
  | none =>
    rw [List.append_nil]
    exact hr
  | some p => exact hr.append (traces_applyMpu hr.free p)

theorem traces_enter (h : s.state.lock = false) (c : Connection) :
    Traces s (enterSteps c s) (enter c s).2 := by
  rw [enterSteps, enter]
  cases s.findProcessIndex c.msg.handle with
  | none => exact .nil h
  | some p =>
    have ht := traces_onState h fun state => (SpmIpcState.addAndMark c p state).2
    have hl : s.state.tryLock (SpmIpcState.addAndMark c p) =
        (.ok (SpmIpcState.addAndMark c p s.state.value).1,
          ⟨false, (SpmIpcState.addAndMark c p s.state.value).2⟩) := by
      rw [Mutex.tryLock, h]
      rfl
    dsimp only
    rw [hl]
    rcases hx : SpmIpcState.addAndMark c p s.state.value with ⟨e | b, v⟩ <;> rw [hx] at ht
    · rw [List.append_nil]
      exact ht
    · exact ht.append (traces_applyMpu rfl p)

theorem traces_leave (h : s.state.lock = false) :
    Traces s (leaveSteps s) (leave s) := by
  have ht : Traces s (LockSteps.tryLock (onConnections ConnectionArray.popConnection) s) s.popped :=
    traces_onState h fun state => { state with connections := state.connections.popConnection }
  have hpop : s.getLastProcessIndex.2 = s.popped := by rw [getLastProcessIndex_eq h]
  rw [leaveSteps, leave]
  rcases hx : s.getLastProcessIndex with ⟨_ | p, t⟩ <;> rw [hx] at hpop <;> subst hpop
  · rw [List.append_nil]
    exact ht
  · exact ht.append (traces_applyMpu rfl p)

instance : LawfulLockTrace (SpmIpc n) where
  tryLock {ρ} f s h := by
    have ht := traces_onState h fun state =>
      { state with connections := (f state.connections).2 }
    obtain ⟨⟨lock, value⟩, platform, processes, mpu⟩ := s
    obtain rfl : lock = false := h
    exact ht
  enter c _ h := traces_enter h c
  leave h := traces_leave h
  mapVec o idx _ _ _ h := traces_updateVec h o idx true
  unmapVec o idx _ h := traces_updateVec h o idx false

end SpmIpc

/-! ## Traced SPMs -/

/-- An SPM that collects its steps. -/
structure Traced (σ : Type) where
  spm : σ
  log : List (LockStep σ)

namespace Traced

section

variable {σ : Type} [Lockable σ] {s₀ : σ}

/-- The steps that were collected since `s₀` are bracketed and lead to `s`. -/
structure Follows (s₀ : σ) (t : Traced σ) (s : σ) : Prop where
  spm : t.spm = s
  traces : Traces s₀ t.log s

theorem Follows.start (h : locked s₀ = false) : Follows s₀ ⟨s₀, []⟩ s₀ := ⟨rfl, .nil h⟩

theorem Follows.step {t : Traced σ} {s u : σ} {l : List (LockStep σ)} (h : Follows s₀ t s)
    (hu : Traces t.spm l u) : Follows s₀ ⟨u, t.log ++ l⟩ u :=
  ⟨rfl, h.traces.append (h.spm ▸ hu)⟩

end

variable {σ : Type} [SpmCall σ] [LockTrace σ]

instance : ConnStore (Traced σ) where
  tryLock f s :=
    let (r, t) := ConnStore.tryLock f s.spm
    (r, ⟨t, s.log ++ LockTrace.tryLockSteps (fun a => (f a).2) s.spm⟩)

instance : SpmCall (Traced σ) where
  enter c s :=
    let (r, t) := SpmCall.enter c s.spm
    (r, ⟨t, s.log ++ LockTrace.enterSteps c s.spm⟩)
  leave s := ⟨SpmCall.leave s.spm, s.log ++ LockTrace.leaveSteps s.spm⟩
  mapVec o idx base size s :=
    ⟨SpmCall.mapVec o idx base size s.spm, s.log ++ LockTrace.mapVecSteps o idx s.spm⟩
  unmapVec o idx s := ⟨SpmCall.unmapVec o idx s.spm, s.log ++ LockTrace.unmapVecSteps o idx s.spm⟩
  version handle s := SpmCall.version handle s.spm

/-- **What is built from the operations of an SPM is bracketed** as they are. -/
theorem traced_sim [LawfulLockTrace σ] (s₀ : σ) : SpmSim (Follows s₀) where
  tryLock {_} f {t s} h := by
    obtain rfl := h.spm
    exact ⟨rfl, h.step (LawfulLockTrace.tryLock f h.traces.free)⟩
  enter c {t s} h := by
    obtain rfl := h.spm
    exact ⟨rfl, h.step (LawfulLockTrace.enter c h.traces.free)⟩
  leave {t s} h := by
    obtain rfl := h.spm
    exact h.step (LawfulLockTrace.leave h.traces.free)
  mapVec o idx base size {t s} h := by
    obtain rfl := h.spm
    exact h.step (LawfulLockTrace.mapVec o idx base size h.traces.free)
  unmapVec o idx {t s} h := by
    obtain rfl := h.spm
    exact h.step (LawfulLockTrace.unmapVec o idx h.traces.free)
  version handle {t s} h := by
    obtain rfl := h.spm
    rfl

end Traced

end RuSpe
