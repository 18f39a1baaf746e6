import RuSpe.Spm.Process
import RuSpe.Spm.Svc

set_option autoImplicit false

/-!
# The process SPM

`SpmIpc` runs its services as unprivileged processes and reprograms the MPU whenever the code that
runs next, or the vectors it may touch, change.

* `SpmIpcState`, `SpmIpc`;
* `applyMpuConfig`, `updateVecMapping`, `getLastProcessIndex`;
* `enter`, `leave` and the `SpmCall` instance.
-/

namespace RuSpe

/-- `SpmIpcState`. -/
structure SpmIpcState (n : ℕ) where
  connections : ConnectionArray
  initDone : Vector Bool n

namespace SpmIpcState

variable {n : ℕ}

/-- `SpmIpcState::new`. -/
def new (n : ℕ) : SpmIpcState n := ⟨.new, Vector.replicate n false⟩

/-- `mark_init_done`: whether the process still has to be initialised. -/
def markInitDone (index : ℕ) (s : SpmIpcState n) : Except SpmError Bool × SpmIpcState n :=
  if index ≥ n then (.error .corruptedConnectionStack, s)
  else
    match s.initDone[index]? with
    | none => (.error .corruptedConnectionStack, s)
    | some slot =>
      if slot then (.ok false, s)
      else (.ok true, { s with initDone := s.initDone.setIfInBounds index true })

/-- The closure of `SpmIpc::call` under the lock. -/
def addAndMark (connection : Connection) (index : ℕ) (s : SpmIpcState n) :
    Except SpmError Bool × SpmIpcState n :=
  match s.connections.addConnection connection with
  | (.error e, _) => (.error e, s)
  | (.ok (), connections) => markInitDone index { s with connections }

end SpmIpcState

/-- `SpmIpc`, with the MPU registers it programs. -/
structure SpmIpc (n : ℕ) where
  state : Mutex (SpmIpcState n)
  platform : IpcPlatform
  processes : Vector ServiceProcess n
  mpu : Vector Armv8Mpu.Region 8

namespace SpmIpc

variable {n : ℕ}

/-- `SpmIpc::new`, with the MPU as it is found. -/
def new (platform : IpcPlatform) (processes : Vector ServiceProcess n)
    (mpu : Vector Armv8Mpu.Region 8) : SpmIpc n :=
  ⟨.new (.new n), platform, processes, mpu⟩

instance : ConnStore (SpmIpc n) where
  tryLock f s :=
    let (r, m) := s.state.tryLock fun state =>
      let (r, connections) := f state.connections
      (r, { state with connections })
    (r, { s with state := m })

instance : LawfulConnStore (SpmIpc n) where
  conns s := s.state.value.connections
  put a s := { s with state := { s.state with value := { s.state.value with connections := a } } }
  Free s := s.state.lock = false
  conns_put _ _ := rfl
  free_put _ h := h
  put_put _ _ _ := rfl
  put_conns _ := rfl
  tryLock_eq {s _} h f := by
    obtain ⟨⟨lock, ⟨a, d⟩⟩, platform, processes, mpu⟩ := s
    obtain rfl : lock = false := h
    rfl

@[simp] theorem conns_eq (s : SpmIpc n) : LawfulConnStore.conns s = s.state.value.connections := rfl

/-- `find_process_index`. -/
def findProcessIndex (s : SpmIpc n) (handle : ServiceHandle) : Option ℕ :=
  s.processes.toList.findIdx? fun process => process.handle = handle

/-! ## Programming the MPU -/

/-- `let _ = mpu.allocate_region(…)`: a region that cannot be allocated is left out. -/
def tryAllocate (base size : Usize) (permissions : Permissions) (config : MpuConfig 8) :
    MpuConfig 8 :=
  match allocateRegion base size permissions config with
  | .ok config => config
  | .error _ => config

/-- The closure `allocate_vec` of `apply_mpu_config`. The additions wrap. -/
def allocateVec (base size : Usize) (permissions : Permissions) (config : MpuConfig 8) :
    MpuConfig 8 :=
  if size > 0 then
    let alignedBase := base &&& ~~~0x1F#32
    let alignedEnd := (base + size + 0x1F) &&& ~~~0x1F#32
    tryAllocate alignedBase (alignedEnd - alignedBase) permissions config
  else config

/-- One turn of the two loops of `apply_mpu_config` over the vectors of a connection. -/
def allocateMapped (conn : Connection) (permissions : Permissions) (config : MpuConfig 8)
    (v : Vec) : MpuConfig 8 :=
  if conn.mapped v = true ∧ conn.unmapped v = false then
    match conn.size v with
    | some size => allocateVec (conn.base v) size permissions config
    | none => config
  else config

/-- The regions every process gets: ROM, RAM and what its platform adds. -/
def processConfig (platform : IpcPlatform) (proc : ServiceProcess) : MpuConfig 8 :=
  let rom := proc.vectors.romRegion
  let ram := proc.vectors.ramRegion
  let config := tryAllocate rom.base rom.size .readExecute (MpuConfig.default 8)
  let config := tryAllocate ram.base ram.size .readWriteXN config
  (platform.customMpuRegions proc.handle).foldl
    (fun config region => tryAllocate region.base region.size region.permissions config) config

/-- The regions of the vectors a connection has in use. -/
def vecConfig (conn : Connection) (config : MpuConfig 8) : MpuConfig 8 :=
  let config := (List.range psaMaxIovec).foldl
    (fun config i => allocateMapped conn .readXN config ⟨false, i⟩) config
  (List.range psaMaxIovec).foldl
    (fun config i => allocateMapped conn .readWriteXN config ⟨true, i⟩) config

/-- `apply_mpu_config`. -/
def applyMpuConfig (processIndex : ℕ) (s : SpmIpc n) : SpmIpc n :=
  match s.processes[processIndex]? with
  | none => s
  | some proc =>
    let config := processConfig s.platform proc
    let (config, state) := s.state.tryLock fun state =>
      match state.connections.peekActiveConnection with
      | .ok conn =>
        if s.findProcessIndex conn.msg.handle = some processIndex then
          (vecConfig conn config, state)
        else (config, state)
      | .error _ => (config, state)
    { s with state, mpu := configureMpu (config.toOption.getD (processConfig s.platform proc)) }

/-- The closure of `update_vec_mapping`: the process of the connection, and its flags after. -/
def markVec (s : SpmIpc n) (isOutvec : Bool) (vecIdx : BitVec 32) (mapped : Bool)
    (conn : Connection) : Option ℕ × Connection :=
  match s.findProcessIndex conn.msg.handle with
  | none => (none, conn)
  | some pIdx =>
    let v : Vec := ⟨isOutvec, vecIdx.toNat⟩
    (some pIdx, (conn.setMapped v mapped).setUnmapped v !mapped)

/-- `update_vec_mapping`. The index that the closure finds is kept even if the connection cannot be
put back, so the two halves of `with_active_connection` are written out. -/
def updateVecMapping (isOutvec : Bool) (vecIdx : BitVec 32) (mapped : Bool) (s : SpmIpc n) :
    SpmIpc n :=
  match takeActive s with
  | (.error _, s) => s
  | (.ok (index, conn), s) =>
    let (processIndex, conn) := s.markVec isOutvec vecIdx mapped conn
    let (_, s) := restoreActive index conn s
    match processIndex with
    | some processIndex => s.applyMpuConfig processIndex
    | none => s

/-! ## Calling a service -/

/-- `get_last_process_index`. -/
def getLastProcessIndex (s : SpmIpc n) : Option ℕ × SpmIpc n :=
  let (r, state) := s.state.tryLock fun state =>
    let connections := state.connections.popConnection
    let index := match connections.peekActiveConnection with
      | .ok conn => s.findProcessIndex conn.msg.handle
      | .error _ => none
    (index, { state with connections })
  (r.toOption.join, { s with state })

/-- `SpmIpc::call` up to the code of the service. -/
def enter (connection : Connection) (s : SpmIpc n) : Except StatusCode Bool × SpmIpc n :=
  match s.findProcessIndex connection.msg.handle with
  | none => (.error .notSupported, s)
  | some processIndex =>
    match s.state.tryLock (SpmIpcState.addAndMark connection processIndex) with
    | (.ok (.ok shouldInit), state) =>
      (.ok shouldInit, ({ s with state } : SpmIpc n).applyMpuConfig processIndex)
    | (.ok (.error _), state) => (.error .insufficientMemory, { s with state })
    | (.error (), state) => (.error .connectionBusy, { s with state })

/-- `SpmIpc::call` after the code of the service. -/
def leave (s : SpmIpc n) : SpmIpc n :=
  match s.getLastProcessIndex with
  | (some prev, s) => s.applyMpuConfig prev
  | (none, s) => s

instance : SpmCall (SpmIpc n) where
  enter := enter
  leave := leave
  mapVec isOutvec vecIdx _base _size := updateVecMapping isOutvec vecIdx true
  unmapVec isOutvec vecIdx := updateVecMapping isOutvec vecIdx false
  version handle s :=
    (s.findProcessIndex handle).bind fun i => (s.processes[i]?).map (·.vectors.version)

/-! ## What the operations do while nobody holds the lock -/

variable {s : SpmIpc n}

theorem findProcessIndex_eq_some {h : ServiceHandle} {i : ℕ} (hi : s.findProcessIndex h = some i) :
    ∃ p, s.processes[i]? = some p ∧ p.handle = h := by
  obtain ⟨hlt, hp, -⟩ := List.findIdx?_eq_some_iff_getElem.mp hi
  refine ⟨s.processes.toList[i], ?_, of_decide_eq_true hp⟩
  rw [← Vector.getElem?_toList, List.getElem?_eq_getElem hlt]

/-- The configuration `apply_mpu_config` builds for a process. -/
def configFor (s : SpmIpc n) (processIndex : ℕ) (proc : ServiceProcess) : MpuConfig 8 :=
  match s.state.value.connections.peekActiveConnection with
  | .ok conn =>
    if s.findProcessIndex conn.msg.handle = some processIndex then
      vecConfig conn (processConfig s.platform proc)
    else processConfig s.platform proc
  | .error _ => processConfig s.platform proc

theorem applyMpuConfig_eq (h : s.state.lock = false) {i : ℕ} {proc : ServiceProcess}
    (hi : s.processes[i]? = some proc) :
    s.applyMpuConfig i = { s with mpu := configureMpu (s.configFor i proc) } := by
  obtain ⟨⟨lock, value⟩, platform, processes, mpu⟩ := s
  obtain rfl : lock = false := h
  simp only [applyMpuConfig, hi, Mutex.tryLock, configFor, Bool.false_eq_true, if_false]
  cases value.connections.peekActiveConnection with
  | error e => rfl
  | ok conn =>
    dsimp only
    split_ifs <;> rfl

/-- The state of the SPM after process `p` was called with `c`. -/
def called (s : SpmIpc n) (c : Connection) (p : ℕ) : SpmIpc n :=
  { s with state := ⟨false, { connections := s.state.value.connections.pushed c
                              initDone := s.state.value.initDone.setIfInBounds p true }⟩ }

theorem enter_of_find {c : Connection} {p : ℕ} (h : s.state.lock = false)
    (hp : s.findProcessIndex c.msg.handle = some p) :
    enter c s =
      if s.state.value.connections.topConnection < maxConnections then
        (.ok !((s.state.value.initDone[p]?).getD true), (s.called c p).applyMpuConfig p)
      else (.error .insufficientMemory, s) := by
  obtain ⟨q, hq, -⟩ := findProcessIndex_eq_some hp
  have hlt : p < n := by
    by_contra hge
    rw [Vector.getElem?_eq_none (by omega)] at hq
    cases hq
  obtain ⟨⟨lock, ⟨a, d⟩⟩, platform, processes, mpu⟩ := s
  obtain rfl : lock = false := h
  simp only [enter, hp, Mutex.tryLock, Bool.false_eq_true, if_false, SpmIpcState.addAndMark,
    ConnectionArray.addConnection_eq, called]
  by_cases ht : a.topConnection < maxConnections
  · simp only [if_pos ht, SpmIpcState.markInitDone, ge_iff_le, not_le.mpr hlt, if_false,
      Vector.getElem?_eq_getElem hlt]
    cases hd : d[p] with
    | true =>
      have : d.setIfInBounds p true = d := Vector.ext fun i hi => by grind
      simp [this]
    | false => simp
  · simp only [if_neg ht]

theorem enter_of_find_none {c : Connection} (hp : s.findProcessIndex c.msg.handle = none) :
    enter c s = (.error .notSupported, s) := by
  rw [enter, hp]

theorem enter_eq_ok {c : Connection} {b : Bool} {t : SpmIpc n} (h : s.state.lock = false)
    (he : enter c s = (.ok b, t)) :
    ∃ p, s.findProcessIndex c.msg.handle = some p ∧
      s.state.value.connections.topConnection < maxConnections ∧
        t = (s.called c p).applyMpuConfig p := by
  cases hp : s.findProcessIndex c.msg.handle with
  | none =>
    rw [enter_of_find_none hp] at he
    cases he
  | some p =>
    rw [enter_of_find h hp] at he
    split_ifs at he with ht
    · exact ⟨p, rfl, ht, (Prod.mk.inj he).2.symm⟩
    · cases he

/-- The state after the top connection was popped. -/
def popped (s : SpmIpc n) : SpmIpc n :=
  { s with state := ⟨false, { s.state.value with
      connections := s.state.value.connections.popConnection }⟩ }

theorem getLastProcessIndex_eq (h : s.state.lock = false) :
    s.getLastProcessIndex =
      (match s.popped.state.value.connections.peekActiveConnection with
        | .ok conn => s.findProcessIndex conn.msg.handle
        | .error _ => none, s.popped) := by
  obtain ⟨⟨lock, ⟨a, d⟩⟩, platform, processes, mpu⟩ := s
  obtain rfl : lock = false := h
  rfl

/-- Programming the MPU changes the MPU. -/
theorem applyMpuConfig_eq_mpu (s : SpmIpc n) (h : s.state.lock = false) (p : ℕ) :
    s.applyMpuConfig p = { s with mpu := (s.applyMpuConfig p).mpu } := by
  cases hp : s.processes[p]? with
  | none => rw [applyMpuConfig, hp]
  | some proc => rw [applyMpuConfig_eq h hp]

theorem state_applyMpuConfig (s : SpmIpc n) (h : s.state.lock = false) (p : ℕ) :
    (s.applyMpuConfig p).state = s.state := by
  rw [s.applyMpuConfig_eq_mpu h p]

theorem state_leave (h : s.state.lock = false) : (leave s).state = s.popped.state := by
  rw [leave, getLastProcessIndex_eq h]
  cases (match s.popped.state.value.connections.peekActiveConnection with
    | .ok conn => s.findProcessIndex conn.msg.handle
    | .error _ => none) with
  | none => rfl
  | some p => exact s.popped.state_applyMpuConfig rfl p

/-- The state with the flags of the active connection updated. -/
def marked (s : SpmIpc n) (o : Bool) (idx : BitVec 32) (b : Bool) : SpmIpc n :=
  LawfulConnStore.put (s.state.value.connections.filled
    (s.markVec o idx b s.state.value.connections.topSlot).2) s

/-- **What `update_vec_mapping` does**: the flags of the active connection, then the MPU. -/
theorem updateVecMapping_eq (h : s.state.lock = false) (hw : s.state.value.connections.Wf) (o : Bool)
    (idx : BitVec 32) (b : Bool) :
    updateVecMapping o idx b s =
      if s.state.value.connections.Active then
        match s.findProcessIndex s.state.value.connections.topSlot.msg.handle with
        | some p => (s.marked o idx b).applyMpuConfig p
        | none => s.marked o idx b
      else s := by
  have ht := takeActive_eq (s := s) h hw
  simp only [conns_eq] at ht
  rw [updateVecMapping, ht]
  by_cases ha : s.state.value.connections.Active
  swap
  · rw [if_neg ha, if_neg ha]
    by_cases h0 : s.state.value.connections.topConnection = 0
    · rw [if_pos h0]
    · rw [if_neg h0]
  have hr := ConnectionArray.restoreActiveConnection_eq hw.lent ha.1
    (s.markVec o idx b s.state.value.connections.topSlot).2
  rw [if_neg (ConnectionArray.not_active_lent _), ConnectionArray.filled_lent] at hr
  rw [if_pos ha, if_pos ha]
  have hm : restoreActive (s.state.value.connections.topConnection - 1)
      (s.markVec o idx b s.state.value.connections.topSlot).2
      (LawfulConnStore.put s.state.value.connections.lent s) = (.ok (), s.marked o idx b) := by
    rw [restoreActive_eq (LawfulConnStore.free_put _ h), LawfulConnStore.conns_put,
      LawfulConnStore.put_put, marked]
    exact congrArg (fun r : _ × ConnectionArray => (r.1, LawfulConnStore.put r.2 s)) hr
  have hi : (s.markVec o idx b s.state.value.connections.topSlot).1 =
      s.findProcessIndex s.state.value.connections.topSlot.msg.handle := by
    rw [markVec]
    cases s.findProcessIndex s.state.value.connections.topSlot.msg.handle <;> rfl
  have hput : (LawfulConnStore.put s.state.value.connections.lent s).markVec o idx b
      s.state.value.connections.topSlot = s.markVec o idx b s.state.value.connections.topSlot := rfl
  dsimp only
  rw [hput, hm, hi]

theorem sameCall_markVec (o : Bool) (idx : BitVec 32) (b : Bool) (c : Connection) :
    c.SameCall (s.markVec o idx b c).2 := by
  rw [markVec]
  cases s.findProcessIndex c.msg.handle with
  | none => exact Std.Refl.refl c
  | some p =>
    exact IsTrans.trans _ _ _ (c.sameCall_setMapped _ b)
      (Connection.sameCall_setUnmapped (c.setMapped ⟨o, idx.toNat⟩ b) _ _)

/-- Programming the MPU leaves everything else alone. -/
theorem updateVecMapping_state (h : s.state.lock = false) (hw : s.state.value.connections.Wf)
    (o : Bool) (idx : BitVec 32) (b : Bool) :
    (updateVecMapping o idx b s).state =
      if s.state.value.connections.Active then (s.marked o idx b).state else s.state := by
  rw [updateVecMapping_eq h hw]
  split_ifs
  · cases s.findProcessIndex s.state.value.connections.topSlot.msg.handle with
    | none => rfl
    | some p => exact (s.marked o idx b).state_applyMpuConfig h p
  · rfl

end SpmIpc

end RuSpe
