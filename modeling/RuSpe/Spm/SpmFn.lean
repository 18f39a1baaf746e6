import RuSpe.Spm.Svc

set_option autoImplicit false

/-!
# The function-call SPM

`SpmFn` calls its services as functions, so it only keeps the connection stack.
-/

namespace RuSpe

/-- `SpmFn`: the lock around the stack, and the versions its platform reports. -/
structure SpmFn where
  connections : Mutex ConnectionArray
  platformVersion : ServiceHandle → Option (BitVec 32)

namespace SpmFn

/-- `SpmFn::new`. -/
def new (platformVersion : ServiceHandle → Option (BitVec 32)) : SpmFn :=
  ⟨.new .new, platformVersion⟩

instance : ConnStore SpmFn where
  tryLock f s :=
    let (r, m) := s.connections.tryLock f
    (r, { s with connections := m })

instance : LawfulConnStore SpmFn where
  conns s := s.connections.value
  put a s := { s with connections := { s.connections with value := a } }
  Free s := s.connections.lock = false
  conns_put _ _ := rfl
  free_put _ h := h
  put_put _ _ _ := rfl
  put_conns _ := rfl
  tryLock_eq {s _} h f := by
    obtain ⟨⟨lock, a⟩, v⟩ := s
    obtain rfl : lock = false := h
    rfl

/-- `add_connection`. -/
def addConnection (connection : Connection) (s : SpmFn) : Except SpmError Unit × SpmFn :=
  match ConnStore.tryLock (·.addConnection connection) s with
  | (.ok r, s) => (r, s)
  | (.error (), s) => (.error .mutexBusy, s)

/-- `SpmFn::call` up to `platform.call`. -/
def enter (connection : Connection) (s : SpmFn) : Except StatusCode Bool × SpmFn :=
  match addConnection connection s with
  | (.error _, s) => (.error .connectionBusy, s)
  | (.ok (), s) => (.ok false, s)

/-- `SpmFn::call` after `platform.call`. -/
def leave (s : SpmFn) : SpmFn :=
  (ConnStore.tryLock (fun connections => ((), connections.popConnection)) s).2

instance : SpmCall SpmFn where
  enter := enter
  leave := leave
  mapVec _ _ _ _ s := s
  unmapVec _ _ s := s
  version handle s := s.platformVersion handle

/-! ## What the operations do while nobody holds the lock -/

variable {s : SpmFn}

theorem enter_eq (h : s.connections.lock = false) (c : Connection) :
    enter c s =
      if s.connections.value.topConnection < maxConnections then
        (.ok false, { s with connections := ⟨false, s.connections.value.pushed c⟩ })
      else (.error .connectionBusy, s) := by
  obtain ⟨⟨lock, a⟩, v⟩ := s
  obtain rfl : lock = false := h
  simp only [enter, addConnection, ConnStore.tryLock, Mutex.tryLock, Bool.false_eq_true, if_false,
    ConnectionArray.addConnection_eq]
  split_ifs <;> rfl

theorem leave_eq (h : s.connections.lock = false) :
    leave s = { s with connections := ⟨false, s.connections.value.popConnection⟩ } := by
  obtain ⟨⟨lock, a⟩, v⟩ := s
  obtain rfl : lock = false := h
  rfl

end SpmFn

end RuSpe
