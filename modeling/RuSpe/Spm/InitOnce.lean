import RuSpe.Spm.StackReuse

set_option autoImplicit false

/-!
# Services are initialised once

`SpmIpc::call` sets the flag of the process while it pushes the connection, and runs `init_process`
later, when the lock is free again. Nothing runs in between, so a set flag means that the
initialisation was invoked or is the very next thing to happen.

* `Start`, `IpcRun.starting`, `starts`: `init_process` and `call_process`, as they are invoked;
* `Counted`, `counted_step`: the flags count the initialisations;
* **`init_once`**: at most one `init_process` for each process, and before its first `call_process`.
-/

namespace RuSpe

/-! ## What is invoked -/

/-- `init_process` or `call_process` of a process. -/
inductive Start
  | init (p : ℕ)
  | call (p : ℕ)
  deriving DecidableEq, Repr

/-- What the SPM invokes next for an invocation. -/
def Invocation.start (i : Invocation) : Option Start :=
  match i.phase with
  | .initStart => some (.init i.proc)
  | .callStart => some (.call i.proc)
  | _ => none

namespace IpcRun

variable {n : ℕ}

/-- What the next step invokes. -/
def starting (r : IpcRun n) : List Start := (r.invs.head?.bind Invocation.start).toList

/-- What the steps of a history invoked, newest first. -/
def starts (l : List (IpcRun n × List Write)) : List Start := l.flatMap fun x => x.1.starting

end IpcRun

/-! ## The flags -/

namespace SpmIpc

variable {n : ℕ} {s : SpmIpc n}

/-- The flag of process `p` is set. -/
def initialised (s : SpmIpc n) (p : ℕ) : Bool := (s.state.value.initDone[p]?).getD false

theorem initialised_congr {t : SpmIpc n} (h : t.state.value.initDone = s.state.value.initDone) :
    t.initialised = s.initialised := by
  funext p
  rw [initialised, initialised, h]

theorem initialised_applyMpuConfig (h : s.state.lock = false) (p : ℕ) :
    (s.applyMpuConfig p).initialised = s.initialised :=
  initialised_congr (by rw [s.state_applyMpuConfig h])

theorem initialised_leave (h : s.state.lock = false) : (leave s).initialised = s.initialised :=
  initialised_congr (by rw [state_leave h]; rfl)

theorem lt_of_findProcessIndex {h : ServiceHandle} {p : ℕ} (hp : s.findProcessIndex h = some p) :
    p < n := by
  obtain ⟨q, hq, -⟩ := findProcessIndex_eq_some hp
  by_contra hge
  rw [Vector.getElem?_eq_none (by omega)] at hq
  cases hq

theorem initialised_called {p : ℕ} (hp : p < n) (c : Connection) (q : ℕ) :
    (s.called c p).initialised q = (decide (q = p) || s.initialised q) := by
  simp only [initialised, called, Vector.getElem?_setIfInBounds]
  by_cases hq : p = q
  · subst hq
    simp [hp]
  · simp [hq, Ne.symm hq]

/-- Whether a call initialises is read off the flag. -/
theorem enter_ok {c : Connection} {b : Bool} {t : SpmIpc n} {p : ℕ} (h : s.state.lock = false)
    (hp : s.findProcessIndex c.msg.handle = some p) (he : enter c s = (.ok b, t)) :
    b = !s.initialised p ∧ ∀ q, t.initialised q = (decide (q = p) || s.initialised q) := by
  have hlt := lt_of_findProcessIndex hp
  rw [enter_of_find h hp] at he
  split_ifs at he with ht
  swap
  · cases he
  obtain ⟨hb, rfl⟩ := Prod.mk.inj he
  obtain rfl := Except.ok.inj hb
  refine ⟨?_, fun q => ?_⟩
  · rw [initialised, Vector.getElem?_eq_getElem hlt]
    rfl
  · rw [initialised_applyMpuConfig rfl]
    exact initialised_called hlt c q

end SpmIpc

/-! ## The invariant -/

/-- The flags count the initialisations, invoked or due. Only the innermost invocation can be
between two starts, and calls are to processes whose flag is set. -/
structure Counted {n : ℕ} (platform : IpcPlatform) (processes : Vector ServiceProcess n)
    (l : List Start) (r : IpcRun n) : Prop where
  inv : IpcRun.Inv platform processes r
  running : ∀ i ∈ r.invs.tail, i.phase.running = true
  flagged : ∀ i ∈ r.invs, r.spm.initialised i.proc = true
  count : ∀ p, (r.starting ++ l).count (.init p) = (r.spm.initialised p).toNat
  before : ∀ p l', .call p :: l' <:+ r.starting ++ l → .init p ∈ l'

namespace Counted

variable {n : ℕ} {platform : IpcPlatform} {processes : Vector ServiceProcess n}
  {l : List Start} {r : IpcRun n}

theorem new (mpu : Vector Armv8Mpu.Region 8) :
    Counted platform processes [] ⟨SpmIpc.new platform processes mpu, []⟩ where
  inv := IpcRun.inv_new mpu
  running := nofun
  flagged := nofun
  count p := by
    have hf : (SpmIpc.new platform processes mpu).initialised p = false := by
      simp only [SpmIpc.initialised, SpmIpc.new, SpmIpcState.new, Mutex.new,
        Vector.getElem?_replicate]
      split_ifs <;> rfl
    rw [hf]
    rfl
  before p l' h := by simp [IpcRun.starting] at h

/-- A process whose flag is set was initialised, or is just about to be. -/
theorem init_mem (h : Counted platform processes l r) {p : ℕ} (hp : r.spm.initialised p = true) :
    .init p ∈ r.starting ++ l := by
  rw [← List.count_pos_iff, h.count, hp]
  exact Nat.one_pos

/-- No start is due while the code of a service runs. -/
theorem starting_of_canCall {psp : Usize} (hc : r.CanCall psp) : r.starting = [] := by
  obtain ⟨s, invs⟩ := r
  cases invs with
  | nil => rfl
  | cons i rest =>
    have hi := (hc i rfl).1
    rw [IpcRun.starting, List.head?_cons, Option.bind_some, Invocation.start]
    cases hp : i.phase <;> rw [hp] at hi <;> first | rfl | cases hi

/-- The flags stay, and nothing new is due but a call to a process whose flag is set. -/
theorem advance {r' : IpcRun n} (h : Counted platform processes l r)
    (hinv : IpcRun.Inv platform processes r')
    (hflag : r'.spm.initialised = r.spm.initialised)
    (hrun : ∀ i ∈ r'.invs.tail, i.phase.running = true)
    (hproc : ∀ i ∈ r'.invs, r.spm.initialised i.proc = true)
    (hstart : ∀ i ∈ r'.invs.head?, i.phase ≠ .initStart) :
    Counted platform processes (r.starting ++ l) r' := by
  have hdue : r'.starting = [] ∨
      ∃ p, r.spm.initialised p = true ∧ r'.starting = [.call p] := by
    rw [IpcRun.starting]
    cases hh : r'.invs.head? with
    | none => exact .inl rfl
    | some i =>
      rw [Option.bind_some, Invocation.start]
      cases hp : i.phase with
      | initStart => exact absurd hp (hstart i hh)
      | callStart => exact .inr ⟨i.proc, hproc i (List.mem_of_mem_head? hh), rfl⟩
      | init | call | ended => exact .inl rfl
  refine ⟨hinv, hrun, fun i hi => hflag ▸ hproc i hi, fun p => ?_, fun p l' hl => ?_⟩
  · rw [hflag, ← h.count p]
    rcases hdue with hd | ⟨q, -, hd⟩
    · rw [hd, List.nil_append]
    · rw [hd, List.singleton_append, List.count_cons_of_ne (by simp)]
  · rcases hdue with hd | ⟨q, hq, hd⟩
    · rw [hd, List.nil_append] at hl
      exact h.before p l' hl
    · rw [hd, List.singleton_append, List.suffix_cons_iff] at hl
      rcases hl with heq | hl
      · obtain ⟨hpq, rfl⟩ := List.cons.inj heq
        obtain rfl := Start.call.inj hpq
        exact h.init_mem hq
      · exact h.before p l' hl

/-- A call is entered: its process is initialised first if its flag was not set. -/
theorem entered {c : Connection} {b : Bool} {s : SpmIpc n} {psp : Usize} {p : ℕ}
    (h : Counted platform processes l r) (hc : r.CanCall psp)
    (he : SpmIpc.enter c r.spm = (.ok b, s)) (hp : r.spm.findProcessIndex c.msg.handle = some p) :
    Counted platform processes (r.starting ++ l)
      ⟨s, ⟨p, c.msg, bif b then .initStart else .callStart, 0⟩ :: suspend psp r.invs⟩ := by
  have hinv := IpcRun.inv_step h.inv (.called hc he hp)
  obtain ⟨hb, hflag⟩ := SpmIpc.enter_ok h.inv.good.free hp he
  have hnone := starting_of_canCall hc
  have hsus : ∀ i ∈ suspend psp r.invs,
      i.phase.running = true ∧ r.spm.initialised i.proc = true := by
    intro i hi
    obtain ⟨t, invs⟩ := r
    cases invs with
    | nil => cases hi
    | cons j rest =>
      rcases List.mem_cons.mp hi with rfl | hi
      · exact ⟨(hc j rfl).1, h.flagged j List.mem_cons_self⟩
      · exact ⟨h.running i hi, h.flagged i (List.mem_cons_of_mem j hi)⟩
  refine ⟨hinv, fun i hi => (hsus i hi).1, fun i hi => ?_, fun q => ?_, fun q l' hl => ?_⟩
  · rw [hflag]
    rcases List.mem_cons.mp hi with rfl | hi
    · simp
    · rw [(hsus i hi).2, Bool.or_true]
  · have hcount := h.count q
    rw [hnone, List.nil_append] at hcount
    rw [hflag, hnone, List.nil_append, List.count_append, hcount]
    cases hi : r.spm.initialised p with
    | true =>
      rw [hi] at hb
      subst hb
      by_cases hq : q = p
      · subst hq
        simp [hi, IpcRun.starting, Invocation.start]
      · simp [hq, IpcRun.starting, Invocation.start]
    | false =>
      rw [hi] at hb
      subst hb
      by_cases hq : q = p
      · subst hq
        simp [hi, IpcRun.starting, Invocation.start]
      · simp [hq, Ne.symm hq, IpcRun.starting, Invocation.start]
  · cases hi : r.spm.initialised p with
    | true =>
      rw [hi] at hb
      subst hb
      rcases List.suffix_cons_iff.mp hl with heq | hl
      · obtain ⟨hpq, rfl⟩ := List.cons.inj heq
        obtain rfl := Start.call.inj hpq
        exact h.init_mem hi
      · exact h.before q l' hl
    | false =>
      rw [hi] at hb
      subst hb
      rcases List.suffix_cons_iff.mp hl with heq | hl
      · cases heq
      · exact h.before q l' hl

end Counted

section

variable {n : ℕ} {platform : IpcPlatform} {processes : Vector ServiceProcess n}
  {l : List Start} {r r' : IpcRun n}

/-- **Every step keeps the count.** -/
theorem counted_step {w : List Write} (h : Counted platform processes l r) (hs : Step r w r') :
    Counted platform processes (r.starting ++ l) r' := by
  have hinv := IpcRun.inv_step h.inv hs
  cases hs with
  | refused hc he =>
    obtain rfl := LawfulSpm.enter_error h.inv.good.free h.inv.good.wf he
    refine h.advance hinv rfl h.running h.flagged fun i hi hp => ?_
    have hrun := (hc i hi).1
    rw [hp] at hrun
    cases hrun
  | called hc he hp => exact h.entered hc he hp
  | startInit hi hp =>
    rename_i s i rest proc
    refine h.advance hinv rfl h.running (fun j hj => ?_) fun j hj => ?_
    · rcases List.mem_cons.mp hj with rfl | hj
      · exact h.flagged i List.mem_cons_self
      · exact h.flagged j (List.mem_cons_of_mem i hj)
    · obtain rfl := Option.some.inj hj
      rw [startInit]
      cases svcCallUnpriv proc.vectors.initEntry 0 proc.vectors.stackLimit proc.vectors.stackTop <;>
        exact Phase.noConfusion
  | startCall hi hp =>
    rename_i s i rest proc
    refine h.advance hinv rfl h.running (fun j hj => ?_) fun j hj => ?_
    · rcases List.mem_cons.mp hj with rfl | hj
      · exact h.flagged i List.mem_cons_self
      · exact h.flagged j (List.mem_cons_of_mem i hj)
    · obtain rfl := Option.some.inj hj
      rw [startCall]
      cases stageMsgMailbox proc.vectors with
      | error e => exact Phase.noConfusion
      | ok mailbox =>
        dsimp only
        cases svcCallUnpriv proc.vectors.callEntry mailbox proc.vectors.stackLimit mailbox <;>
          exact Phase.noConfusion
  | stored hi hw =>
    rename_i s i rest addr bytes
    refine h.advance hinv rfl h.running h.flagged fun j hj hp => ?_
    obtain rfl := Option.some.inj hj
    rw [hp] at hi
    cases hi
  | svc hi hn =>
    rename_i s i rest num frame f
    have hflag : (svcHandlerDispatch num frame f s).2.initialised = s.initialised := by
      rcases svc_eq_or h.inv.onTop hn frame f with heq | ⟨svc, -, heq⟩
      · rw [heq]
      · rw [heq, SpmIpc.initialised_applyMpuConfig
          (SpmIpc.good_withTop h.inv.good h.inv.onTop.active _).free]
        rfl
    refine h.advance hinv hflag h.running h.flagged fun j hj hp => ?_
    obtain rfl := Option.some.inj hj
    rw [hp] at hi
    cases hi
  | exited hi =>
    rename_i s i rest
    refine h.advance hinv rfl h.running (fun j hj => ?_) fun j hj => ?_
    · rcases List.mem_cons.mp hj with rfl | hj
      · exact h.flagged i List.mem_cons_self
      · exact h.flagged j (List.mem_cons_of_mem i hj)
    · obtain rfl := Option.some.inj hj
      cases hp : i.phase <;> exact Phase.noConfusion
  | left hi =>
    rename_i s i rest
    have hrun : ∀ j ∈ rest, j.phase.running = true := h.running
    refine h.advance hinv (SpmIpc.initialised_leave h.inv.good.free)
      (fun j hj => hrun j (List.mem_of_mem_tail hj))
      (fun j hj => h.flagged j (List.mem_cons_of_mem i hj)) fun j hj hp => ?_
    have := hrun j (List.mem_of_mem_head? hj)
    rw [hp] at this
    cases this

variable {mpu : Vector Armv8Mpu.Region 8} {log : List (IpcRun n × List Write)}

theorem counted_of_history (h : IpcRun.History platform processes mpu log r) :
    Counted platform processes (IpcRun.starts log) r := by
  induction h with
  | new => exact .new mpu
  | step _ hs ih => exact counted_step ih hs

/-- **Services are initialised once, before use.** In every run, `init_process` was invoked at most
once for each process, and before every `call_process` on it. A refused call changes nothing; an
accepted one initialises its process exactly when that was not yet done. -/
theorem init_once (h : IpcRun.History platform processes mpu log r) :
    (∀ p, (IpcRun.starts log).count (.init p) ≤ 1) ∧
      (∀ p l, .call p :: l <:+ IpcRun.starts log → .init p ∈ l) ∧
      (∀ c e s, SpmIpc.enter c r.spm = (.error e, s) → s = r.spm) ∧
      ∀ c b s p psp, r.CanCall psp → r.spm.findProcessIndex c.msg.handle = some p →
        SpmIpc.enter c r.spm = (.ok b, s) → (b = true ↔ .init p ∉ IpcRun.starts log) := by
  have hc := counted_of_history h
  refine ⟨fun p => ?_, fun p l hl => ?_, fun c e s he => ?_, fun c b s p psp hcan hp he => ?_⟩
  · have hle := (List.sublist_append_right r.starting (IpcRun.starts log)).count_le (.init p)
    rw [hc.count] at hle
    exact hle.trans (Bool.toNat_le _)
  · exact hc.before p l (hl.trans (List.suffix_append _ _))
  · exact LawfulSpm.enter_error hc.inv.good.free hc.inv.good.wf he
  · have hcount := hc.count p
    rw [Counted.starting_of_canCall hcan, List.nil_append] at hcount
    rw [(SpmIpc.enter_ok hc.inv.good.free hp he).1, ← List.count_eq_zero, hcount]
    cases r.spm.initialised p <;> simp

end

namespace TwoProcesses

open OneProcess (platform conn crypto)

/-- The attestation service calls the crypto service while it is being initialised itself. -/
theorem init_once_nested :
    IpcRun.starts [(⟨nested, [⟨0, conn.msg, .initStart, 0⟩, ⟨1, attConn.msg, .init, 0x33F00⟩]⟩,
        (startInit crypto.vectors).1),
      (⟨entered, [⟨1, attConn.msg, .init, 0⟩]⟩, []),
      (⟨entered, [⟨1, attConn.msg, .initStart, 0⟩]⟩, (startInit attestation.vectors).1),
      (⟨.new platform processes mpu, []⟩, [])] = [.init 0, .init 1] ∧
      ∀ p, [Start.init 0, .init 1].count (.init p) ≤ 1 :=
  ⟨rfl, (init_once history).1⟩

end TwoProcesses

end RuSpe
