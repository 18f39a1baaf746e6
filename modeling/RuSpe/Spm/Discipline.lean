import RuSpe.Spm.Lawful
import RuSpe.Spm.SpmFn
import RuSpe.Spm.SpmIpc

set_option autoImplicit false

/-!
# The discipline of the connection stack

Both SPMs are lawful, so calls and loans of the active connection nest like brackets. A point of a
run is reached by letting services work, by entering a call and by entering a closure; the levels
record what the point is inside of.

* `Reachable`: the points of all runs;
* **`connectionStack_discipline`**: at every point calls restore the stack, only the connection
  pushed last is handed out, at most four are live, and a full stack refuses without a trace.
-/

namespace RuSpe

/-! ## Both SPMs are lawful -/

instance : LawfulSpm SpmFn where
  enter_error {s s' c e} h _ he := by
    have he : SpmFn.enter c s = (.error e, s') := he
    rw [SpmFn.enter_eq h] at he
    split_ifs at he
    · cases he
    · exact (Prod.mk.inj he).2.symm
  enter_ok {s s' c b} h _ he := by
    have he : SpmFn.enter c s = (.ok b, s') := he
    rw [SpmFn.enter_eq h] at he
    split_ifs at he with ht
    · obtain ⟨-, rfl⟩ := Prod.mk.inj he
      exact ⟨rfl, ht, rfl⟩
    · cases he
  leave_eq {s} h _ := by
    have hl : SpmCall.leave s = _ := SpmFn.leave_eq h
    rw [hl]
    exact ⟨rfl, rfl⟩
  mapVec_eq h _ _ _ _ _ := ⟨h, .inl rfl⟩
  unmapVec_eq h _ _ _ := ⟨h, .inl rfl⟩

namespace SpmIpc

variable {n : ℕ}

theorem conns_updateVecMapping {s : SpmIpc n} (h : s.state.lock = false)
    (hw : s.state.value.connections.Wf) (o : Bool) (idx : BitVec 32) (b : Bool) :
    (updateVecMapping o idx b s).state.lock = false ∧
      ((updateVecMapping o idx b s).state.value.connections = s.state.value.connections ∨
        s.state.value.connections.Active ∧ ∃ c, s.state.value.connections.topSlot.SameCall c ∧
          (updateVecMapping o idx b s).state.value.connections =
            s.state.value.connections.filled c) := by
  rw [updateVecMapping_state h hw]
  split_ifs with ha
  · exact ⟨h, .inr ⟨ha, _, sameCall_markVec o idx b _, rfl⟩⟩
  · exact ⟨h, .inl rfl⟩

end SpmIpc

instance {n : ℕ} : LawfulSpm (SpmIpc n) where
  enter_error {s s' c e} h _ he := by
    have he : SpmIpc.enter c s = (.error e, s') := he
    cases hp : s.findProcessIndex c.msg.handle with
    | none =>
      rw [SpmIpc.enter_of_find_none hp] at he
      exact (Prod.mk.inj he).2.symm
    | some p =>
      rw [SpmIpc.enter_of_find h hp] at he
      split_ifs at he
      · cases he
      · exact (Prod.mk.inj he).2.symm
  enter_ok {s s' c b} h _ he := by
    obtain ⟨p, -, ht, rfl⟩ := SpmIpc.enter_eq_ok h he
    have hs := (s.called c p).state_applyMpuConfig rfl p
    exact ⟨congrArg Mutex.lock hs, ht, congrArg (·.value.connections) hs⟩
  leave_eq {s} h _ := by
    have hs : (SpmIpc.leave s).state = s.popped.state := SpmIpc.state_leave h
    exact ⟨congrArg Mutex.lock hs, congrArg (·.value.connections) hs⟩
  mapVec_eq h hw o idx _ _ := SpmIpc.conns_updateVecMapping h hw o idx true
  unmapVec_eq h hw o idx := SpmIpc.conns_updateVecMapping h hw o idx false

/-! ## The points of a run -/

/-- What a point of a run is inside of: a call of `c`, pushed on the stack `base`, or a closure that
holds the active connection. -/
inductive Level where
  | call (c : Connection) (base : LentStack Connection)
  | closure

/-- The number of calls that are going on. -/
def calls : List Level → ℕ
  | [] => 0
  | .call _ _ :: levels => calls levels + 1
  | .closure :: levels => calls levels

section

variable {σ : Type} [SpmCall σ] [LawfulSpm σ]

open LawfulConnStore (conns put)

/-- The points of the runs from `s₀`, innermost level first. A level is left by the end of the work
that contains it. -/
inductive Reachable (s₀ : σ) : List Level → σ → Prop
  | start : Reachable s₀ [] s₀
  /-- Service code asks for anything, and all of it comes to an end. -/
  | work {levels : List Level} {s : σ} (h : Reachable s₀ levels s) (service : Service) :
      Reachable s₀ levels (service.run s).2
  /-- A call is accepted; the service is about to run. -/
  | call {levels : List Level} {s s' : σ} {b : Bool} (h : Reachable s₀ levels s) (c : Connection)
      (he : SpmCall.enter c s = (.ok b, s')) : Reachable s₀ (.call c (conns s).stack :: levels) s'
  /-- The active connection is handed out; the closure is about to run. -/
  | closure {levels : List Level} {s s' : σ} {i : ℕ} {c : Connection} (h : Reachable s₀ levels s)
      (ht : takeActive s = (.ok (i, c), s')) : Reachable s₀ (.closure :: levels) s'

/-- A stack inside the given levels: finished work since the innermost of them was entered. -/
def Shape : List Level → LentStack Connection → Prop
  | [], st => st = []
  | .call c base :: levels, st =>
    LentStack.Kept Connection.SameCall (base.push c) st ∧ Shape levels base
  | .closure :: levels, st =>
    ∃ base x u, base.lend = some (x, u) ∧ LentStack.Kept Connection.SameCall u st ∧
      Shape levels base

theorem Shape.kept {levels : List Level} {st st' : LentStack Connection} (h : Shape levels st)
    (hk : LentStack.Kept Connection.SameCall st st') : Shape levels st' := by
  match levels, h with
  | [], h =>
    obtain rfl := h
    cases hk
    rfl
  | .call c base :: levels, ⟨hb, hl⟩ => exact ⟨hb.trans hk, hl⟩
  | .closure :: levels, ⟨base, x, u, hx, hu, hl⟩ => exact ⟨base, x, u, hx, hu.trans hk, hl⟩

/-- There is a place on the stack for every call. -/
theorem Shape.length_eq {levels : List Level} {st : LentStack Connection} (h : Shape levels st) :
    st.length = calls levels := by
  induction levels generalizing st with
  | nil =>
    obtain rfl : st = [] := h
    rfl
  | cons level levels ih =>
    cases level with
    | call c base =>
      obtain ⟨hb, hl⟩ := h
      rw [hb.length_eq, LentStack.push, List.length_cons, ih hl, calls]
    | closure =>
      obtain ⟨base, x, u, hx, hu, hl⟩ := h
      rw [hu.length_eq, calls, ← ih hl]
      match base, hx with
      | ⟨false, y⟩ :: rest, rfl => rfl

/-- What can be lent was pushed by the innermost level. -/
theorem Shape.lend_eq {levels : List Level} {st u : LentStack Connection} {x : Connection}
    (h : Shape levels st) (hx : st.lend = some (x, u)) :
    ∃ c base rest, levels = .call c base :: rest ∧ st = base.push x ∧ c.SameCall x := by
  match levels, h with
  | [], h =>
    obtain rfl := h
    cases hx
  | .call c base :: rest, ⟨hb, _⟩ =>
    obtain ⟨hst, -, hc⟩ := LentStack.lend_of_kept_push hb hx
    exact ⟨c, base, rest, rfl, hst, hc⟩
  | .closure :: rest, ⟨base, y, v, hy, hv, _⟩ =>
    rw [LentStack.lend_of_kept_lent hy hv] at hx
    cases hx

variable {s₀ s : σ} {levels : List Level}

/-- The active connection is taken from the top of the stack. -/
theorem lend_of_takeActive {t : σ} {i : ℕ} {c : Connection} (h : Good s)
    (ht : takeActive s = (.ok (i, c), t)) :
    (conns s).Active ∧ i = (conns s).topConnection - 1 ∧ c = (conns s).topSlot ∧
      t = put (conns s).lent s := by
  rw [takeActive_eq h.free h.wf] at ht
  split_ifs at ht with ha
  · obtain ⟨hr, rfl⟩ := Prod.mk.inj ht
    obtain ⟨rfl, rfl⟩ := Prod.mk.inj (Except.ok.inj hr)
    exact ⟨ha, rfl, rfl, rfl⟩
  · cases ht
  · cases ht

/-- **The invariant of all runs.** -/
theorem reachable_shape (h₀ : Good s₀) (hn : (conns s₀).stack = []) (h : Reachable s₀ levels s) :
    Good s ∧ Shape levels (conns s).stack := by
  induction h with
  | start => exact ⟨h₀, hn⟩
  | work _ service ih =>
    have hs := settled_run service _ ih.1
    exact ⟨hs.good, ih.2.kept hs.kept⟩
  | call _ c he ih =>
    obtain ⟨hf, hlt, hc⟩ := LawfulSpm.enter_ok ih.1.free ih.1.wf he
    refine ⟨⟨hf, hc ▸ ih.1.wf.pushed hlt c⟩, ?_, ih.2⟩
    rw [hc, ConnectionArray.stack_pushed hlt]
  | closure _ ht ih =>
    obtain ⟨ha, -, -, rfl⟩ := lend_of_takeActive ih.1 ht
    refine ⟨good_lent ih.1, _, _, _, ConnectionArray.lend_stack ha, ?_, ih.2⟩
    rw [LawfulConnStore.conns_put]

/-! ## The discipline -/

/-- `SpmCall::call` with services that behave as given. -/
def callServices (c : Connection) (initEntry : Service) (callEntry : PsaMsg → Service) (s : σ) :
    Except StatusCode Unit × σ :=
  SpmCall.call c (fun s => (initEntry.run s).2)
    (fun msg s => (((callEntry msg).run s).1.status, ((callEntry msg).run s).2)) s

/-- What holds at a point `s` inside of `levels`. -/
structure Disciplined (levels : List Level) (s : σ) : Prop where
  /-- After any call the top index, the flags and the connections below it are what they were. -/
  restores : ∀ c initEntry callEntry,
    let t := (callServices c initEntry callEntry s).2
    (conns t).topConnection = (conns s).topConnection ∧ (conns t).present = (conns s).present ∧
      ∀ i : ℕ, i < (conns s).topConnection → (conns t).connections[i]? = (conns s).connections[i]?
  /-- A connection that is handed out is the one the innermost unfinished call pushed; its slot was
  written, and no closure holds it already. -/
  handsOut : ∀ i c t, takeActive s = (.ok (i, c), t) →
    ∃ c₀ base rest, levels = .call c₀ base :: rest ∧ i = calls rest ∧ c₀.SameCall c ∧
      (conns s).connections[i]? = some (some c) ∧ (conns s).stack = base.push c
  live : (conns s).topConnection = calls levels ∧ calls levels ≤ maxConnections
  /-- A full stack refuses, and nothing changes. -/
  full : (conns s).topConnection = maxConnections → ∀ c initEntry callEntry,
    ∃ e, callServices c initEntry callEntry s = (.error e, s)

theorem disciplined_of_shape (h : Good s) (hs : Shape levels (conns s).stack) :
    Disciplined levels s := by
  have hlen : (conns s).topConnection = calls levels := by
    rw [← hs.length_eq, ConnectionArray.length_stack]
  refine ⟨fun c initEntry callEntry => ?_, fun i c t ht => ?_, ⟨hlen, hlen ▸ h.wf.top_le⟩,
    fun hfull c initEntry callEntry => ?_⟩
  · obtain ⟨hg, hst⟩ := stack_call h c (fun s => (initEntry.run s).2)
      (fun msg s => (((callEntry msg).run s).1.status, ((callEntry msg).run s).2))
      (fun t ht => settled_run initEntry t ht) (fun msg t ht => settled_run (callEntry msg) t ht)
    obtain ⟨h1, h2, h3⟩ := ConnectionArray.ext_stack hg.wf h.wf hst
    exact ⟨h1, h2, fun i hi => h3 i (h1 ▸ hi)⟩
  · obtain ⟨ha, rfl, rfl, -⟩ := lend_of_takeActive h ht
    obtain ⟨c₀, base, rest, rfl, hst, hc⟩ := hs.lend_eq (ConnectionArray.lend_stack ha)
    refine ⟨c₀, base, rest, rfl, ?_, hc, h.wf.topSlot_init ha, hst⟩
    rw [hlen, calls, Nat.add_sub_cancel]
  · rcases he : SpmCall.enter c s with ⟨e | b, t⟩
    · obtain rfl := LawfulSpm.enter_error h.free h.wf he
      exact ⟨e, by rw [callServices, SpmCall.call, he]⟩
    · have := (LawfulSpm.enter_ok h.free h.wf he).2.1
      omega

end

/-- **The connection stack is disciplined at every point of every run, in both SPMs.** -/
theorem connectionStack_discipline :
    (∀ (version : ServiceHandle → Option (BitVec 32)) (levels : List Level) (s : SpmFn),
      Reachable (SpmFn.new version) levels s → Disciplined levels s) ∧
    (∀ (n : ℕ) (platform : IpcPlatform) (processes : Vector ServiceProcess n)
      (mpu : Vector Armv8Mpu.Region 8) (levels : List Level) (s : SpmIpc n),
      Reachable (SpmIpc.new platform processes mpu) levels s → Disciplined levels s) := by
  constructor
  · intro version levels s h
    obtain ⟨hg, hs⟩ := reachable_shape ⟨rfl, ConnectionArray.wf_new⟩ rfl h
    exact disciplined_of_shape hg hs
  · intro n platform processes mpu levels s h
    obtain ⟨hg, hs⟩ := reachable_shape ⟨rfl, ConnectionArray.wf_new⟩ rfl h
    exact disciplined_of_shape hg hs

end RuSpe
