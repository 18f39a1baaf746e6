import RuSpe.Spm.Staging

set_option autoImplicit false

/-!
# The stack of a suspended service

A service that waits for a nested call relies on its stack, from its saved stack pointer up to the
top. The SPM stages every call at the top of the stack of the callee, whether or not an earlier call
of the same process is still waiting there.

* `Layout`, `Relies`, `Spares`: the memory in question;
* `startInit_hits`, `startCall_hits`: the SPM writes inside the RAM window of the process it starts;
* `Undisturbed`: the process at work has no suspended invocation, and no writable grant of it
  overlaps a suspended stack;
* **`spares_of_undisturbed`**: then no step writes to a suspended stack.
-/

namespace RuSpe

/-! ## The memory in question -/

/-- The stack of every process is in its RAM window, and the RAM windows are disjoint. -/
structure Layout {n : ℕ} (processes : Vector ServiceProcess n) : Prop where
  stack : ∀ p : ℕ, ∀ proc ∈ processes[p]?,
    proc.vectors.ramStart ≤ proc.vectors.stackLimit ∧ proc.vectors.stackTop ≤ proc.vectors.ramLimit
  disjoint : ∀ p q : ℕ, p ≠ q → ∀ proc ∈ processes[p]?, ∀ proc' ∈ processes[q]?, ∀ a,
    InWindow proc.vectors.ramStart proc.vectors.ramLimit a →
      ¬ InWindow proc'.vectors.ramStart proc'.vectors.ramLimit a

/-- The suspended invocation `i` relies on the byte at `a`. -/
def Relies {n : ℕ} (processes : Vector ServiceProcess n) (i : Invocation) (a : Usize) : Prop :=
  ∃ proc ∈ processes[i.proc]?, InWindow i.psp proc.vectors.stackTop a

/-- The writes `ws` miss whatever the suspended invocations of `r` rely on. -/
def Spares {n : ℕ} (processes : Vector ServiceProcess n) (ws : List Write) (r : IpcRun n) : Prop :=
  ∀ w ∈ ws, ∀ i ∈ r.invs.tail, ∀ a, Relies processes i a → ¬ w.Hits a

/-! ## Where a call is staged -/

section

variable {v : ServiceVectors} {w : Write} {a : Usize}

variable (hv : v.ramStart ≤ v.stackLimit ∧ v.stackTop ≤ v.ramLimit)

include hv

theorem startInit_hits (hw : w ∈ (startInit v).1) (h : w.Hits a) :
    InWindow v.ramStart v.ramLimit a := by
  rw [startInit] at hw
  cases hs : svcCallUnpriv v.initEntry 0 v.stackLimit v.stackTop with
  | none =>
    rw [hs] at hw
    cases hw
  | some f =>
    rw [hs] at hw
    obtain rfl : w = f := by simpa using hw
    obtain ⟨h1, h2⟩ := svcCallUnpriv_hits hs h
    rw [InWindow]
    constructor <;> bv_omega

theorem startCall_hits {msg : PsaMsg} (hw : w ∈ (startCall v msg).1) (h : w.Hits a) :
    InWindow v.ramStart v.ramLimit a := by
  rw [startCall] at hw
  cases hm : stageMsgMailbox v with
  | error e =>
    rw [hm] at hw
    cases hw
  | ok mailbox =>
    obtain ⟨htop, haddr, -, h1, -⟩ := stageMsgMailbox_eq_ok_iff.mp hm
    rw [hm] at hw
    dsimp only at hw
    have hmsg : (Write.message mailbox msg).Hits a → InWindow v.ramStart v.ramLimit a := by
      intro h
      have hs : msgSize.toNat = 44 := rfl
      simp only [Write.Hits, Write.addr, Write.size, hs] at h
      rw [InWindow]
      constructor <;> bv_omega
    cases hs : svcCallUnpriv v.callEntry mailbox v.stackLimit mailbox with
    | none =>
      rw [hs] at hw
      obtain rfl : w = .message mailbox msg := by simpa using hw
      exact hmsg h
    | some f =>
      rw [hs] at hw
      obtain rfl | rfl : w = .message mailbox msg ∨ w = f := by simpa using hw
      · exact hmsg h
      · obtain ⟨h3, h4⟩ := svcCallUnpriv_hits hs h
        rw [InWindow]
        constructor <;> bv_omega

end

/-! ## Runs -/

namespace IpcRun

variable {n : ℕ} {platform : IpcPlatform} {processes : Vector ServiceProcess n}
  {mpu : Vector Armv8Mpu.Region 8}

/-- The stack pointer of a suspended invocation is not below the limit of its stack. -/
def PspInStack (processes : Vector ServiceProcess n) (invs : List Invocation) : Prop :=
  ∀ i ∈ invs, ∀ proc ∈ processes[i.proc]?, proc.vectors.stackLimit ≤ i.psp

theorem pspInStack_suspend {r : IpcRun n} {psp : Usize} (h : PspInStack processes r.invs.tail)
    (hp : r.spm.processes = processes) (hc : r.CanCall psp) :
    PspInStack processes (suspend psp r.invs) := by
  obtain ⟨s, invs⟩ := r
  subst hp
  cases invs with
  | nil => nofun
  | cons i rest =>
    intro j hj proc hproc
    rcases List.mem_cons.mp hj with rfl | hj
    · exact (hc i rfl).2 proc hproc
    · exact h j hj proc hproc

theorem pspInStack_step {r r' : IpcRun n} {ws : List Write} (hr : Inv platform processes r)
    (h : PspInStack processes r.invs.tail) (hs : Step r ws r') :
    PspInStack processes r'.invs.tail := by
  cases hs with
  | called hc he hp => exact pspInStack_suspend h hr.processes_eq hc
  | left hi => exact fun j hj => h j (List.mem_of_mem_tail hj)
  | _ => exact h

theorem Reachable.pspInStack {r : IpcRun n} (h : Reachable platform processes mpu r) :
    PspInStack processes r.invs.tail := by
  induction h with
  | refl => nofun
  | tail hr hs ih =>
    obtain ⟨w, hs⟩ := hs
    exact pspInStack_step (Reachable.inv hr) ih hs

/-- A suspended invocation relies on the RAM of its process only. -/
theorem inRam_of_relies {invs : List Invocation} {i : Invocation} {a : Usize}
    (hl : Layout processes) (hp : PspInStack processes invs) (hi : i ∈ invs)
    (h : Relies processes i a) :
    ∃ proc ∈ processes[i.proc]?, InWindow proc.vectors.ramStart proc.vectors.ramLimit a := by
  obtain ⟨proc, hproc, h1, h2⟩ := h
  obtain ⟨h3, h4⟩ := hl.stack _ proc hproc
  have h5 := hp i hi proc hproc
  refine ⟨proc, hproc, ?_⟩
  rw [InWindow]
  constructor <;> bv_omega

/-- What a process may write outside of its own RAM. -/
def Granted (platform : IpcPlatform) (proc : ServiceProcess) (c : Connection) (a : Usize) : Prop :=
  (∃ region ∈ platform.customMpuRegions proc.handle,
    region.permissions.grants .write = true ∧ InRegion region.base region.size a) ∨
  ∃ v n, c.Open v ∧ v.isOutvec = true ∧ c.size v = some n ∧ Rounded (c.base v) n a

/-- The process at work has no suspended invocation, and nothing it was granted overlaps what a
suspended invocation relies on. -/
def Undisturbed (platform : IpcPlatform) (processes : Vector ServiceProcess n) (r : IpcRun n) :
    Prop :=
  ∀ i ∈ r.invs.head?, ∀ j ∈ r.invs.tail, j.proc ≠ i.proc ∧
    ∀ proc ∈ processes[i.proc]?, ∀ a, Relies processes j a → ¬ Granted platform proc r.spm.top a

/-- **In a state that meets the condition no step writes to a suspended stack.** -/
theorem spares_of_undisturbed (hl : Layout processes) {r r' : IpcRun n} {ws : List Write}
    (hr : Reachable platform processes mpu r) (hu : Undisturbed platform processes r)
    (hs : Step r ws r') : Spares processes ws r := by
  have hpsp := hr.pspInStack
  -- a write inside the RAM of the process at work misses the RAM of every other process
  have hown : ∀ {s : SpmIpc n} {i : Invocation} {rest : List Invocation}, r = ⟨s, i :: rest⟩ →
      ∀ proc ∈ processes[i.proc]?, ∀ a,
        InWindow proc.vectors.ramStart proc.vectors.ramLimit a →
          ∀ j ∈ rest, ¬ Relies processes j a := by
    rintro s i rest rfl proc hproc a ha j hj hrel
    obtain ⟨proc', hproc', ha'⟩ := inRam_of_relies hl hpsp hj hrel
    exact hl.disjoint _ _ (hu i rfl j hj).1.symm proc hproc proc' hproc' a ha ha'
  have hprocs := hr.inv.processes_eq
  cases hs with
  | startInit hi hp =>
    intro w hw j hj a hrel hhit
    subst hprocs
    exact hown rfl _ hp a (startInit_hits (hl.stack _ _ hp) hw hhit) j hj hrel
  | startCall hi hp =>
    intro w hw j hj a hrel hhit
    subst hprocs
    exact hown rfl _ hp a (startCall_hits (hl.stack _ _ hp) hw hhit) j hj hrel
  | stored hi hw =>
    intro w hmem j hj a hrel hhit
    obtain rfl := List.mem_singleton.mp hmem
    obtain ⟨proc, hproc, hb⟩ := hr.inv.boundedBy
    have hno := (hu _ rfl j hj).2 proc hproc a hrel
    cases hb.write a (hw a hhit) with
    | ram ha => exact hown rfl proc hproc a ha j hj hrel
    | custom region hr hp ha => exact hno (.inl ⟨region, hr, hp, ha⟩)
    | outvec v k hv ho hn ha => exact hno (.inr ⟨v, k, hv, ho, hn, ha⟩)
  | _ => nofun

/-- A run from a new SPM: its steps, latest first, each as the state before it and its writes. -/
inductive History (platform : IpcPlatform) (processes : Vector ServiceProcess n)
    (mpu : Vector Armv8Mpu.Region 8) : List (IpcRun n × List Write) → IpcRun n → Prop
  | new : History platform processes mpu [] ⟨SpmIpc.new platform processes mpu, []⟩
  | step {l : List (IpcRun n × List Write)} {r r' : IpcRun n} {ws : List Write}
      (h : History platform processes mpu l r) (hs : Step r ws r') :
      History platform processes mpu ((r, ws) :: l) r'

theorem History.reachable {l : List (IpcRun n × List Write)} {r : IpcRun n}
    (h : History platform processes mpu l r) : Reachable platform processes mpu r := by
  induction h with
  | new => exact .refl
  | step _ hs ih => exact ih.tail ⟨_, hs⟩

/-- **In a run whose steps all meet the condition, what the suspended services rely on is never
written.** -/
theorem suspended_stacks_survive (hl : Layout processes) {l : List (IpcRun n × List Write)}
    {r : IpcRun n} (h : History platform processes mpu l r)
    (hu : ∀ x ∈ l, Undisturbed platform processes x.1) : ∀ x ∈ l, Spares processes x.2 x.1 := by
  induction h with
  | new => nofun
  | step h hs ih =>
    intro x hx
    rcases List.mem_cons.mp hx with rfl | hx
    · exact spares_of_undisturbed hl h.reachable (hu _ List.mem_cons_self) hs
    · exact ih (fun y hy => hu y (List.mem_cons_of_mem _ hy)) x hx

end IpcRun

/-! ## Two services, and a service that calls itself -/

namespace TwoProcesses

open OneProcess (platform crypto conn)

def attestation : ServiceProcess :=
  ⟨.attestationService, 1, 0x18000, 0x18100, 0x18000, 0x20000, 0x30000, 0x34000, 0x30000, 0x34000⟩

def processes : Vector ServiceProcess 2 := #v[crypto, attestation]

def mpu : Vector Armv8Mpu.Region 8 := Vector.replicate 8 ⟨0, 0⟩

def attConn : Connection := .ofMsg (.new .attestationService 1 .nsUnprivileged)

def entered : SpmIpc 2 := (SpmIpc.enter attConn (.new platform processes mpu)).2

def nested : SpmIpc 2 := (SpmIpc.enter conn entered).2

theorem enter_attConn :
    SpmIpc.enter attConn (.new platform processes mpu) = (.ok true, entered) :=
  Prod.ext (by decide) rfl

theorem enter_conn : SpmIpc.enter conn entered = (.ok true, nested) := Prod.ext (by decide) rfl

theorem layout : Layout processes where
  stack p proc hp := by
    match p with
    | 0 =>
      obtain rfl : crypto = proc := Option.some.inj hp
      decide
    | 1 =>
      obtain rfl : attestation = proc := Option.some.inj hp
      decide
    | p + 2 => simp at hp
  disjoint p q hpq proc hp proc' hq a ha hb := by
    obtain ⟨h1, h2⟩ := ha
    obtain ⟨h3, h4⟩ := hb
    match p, q with
    | 0, 0 => exact hpq rfl
    | 0, 1 =>
      obtain rfl : crypto = proc := Option.some.inj hp
      obtain rfl : attestation = proc' := Option.some.inj hq
      have hlt : attestation.vectors.ramStart.toNat < crypto.vectors.ramLimit.toNat :=
        lt_of_le_of_lt h3 h2
      exact absurd hlt (by decide)
    | 1, 0 =>
      obtain rfl : attestation = proc := Option.some.inj hp
      obtain rfl : crypto = proc' := Option.some.inj hq
      have hlt : attestation.vectors.ramStart.toNat < crypto.vectors.ramLimit.toNat :=
        lt_of_le_of_lt h1 h4
      exact absurd hlt (by decide)
    | 1, 1 => exact hpq rfl
    | p + 2, _ => simp at hp
    | _, q + 2 => simp at hq

/-- The attestation service calls the crypto service while it is being initialised. -/
theorem history : IpcRun.History platform processes mpu
    [(⟨nested, [⟨0, conn.msg, .initStart, 0⟩, ⟨1, attConn.msg, .init, 0x33F00⟩]⟩,
        (startInit crypto.vectors).1),
      (⟨entered, [⟨1, attConn.msg, .init, 0⟩]⟩, []),
      (⟨entered, [⟨1, attConn.msg, .initStart, 0⟩]⟩, (startInit attestation.vectors).1),
      (⟨.new platform processes mpu, []⟩, [])]
    ⟨nested, [⟨0, conn.msg, .init, 0⟩, ⟨1, attConn.msg, .init, 0x33F00⟩]⟩ := by
  have hcall : IpcRun.CanCall ⟨entered, [⟨1, attConn.msg, .init, 0⟩]⟩ (0x33F00 : Usize) := by
    intro i hi
    obtain rfl := Option.some.inj hi
    refine ⟨rfl, fun proc hp => ?_⟩
    obtain rfl : attestation = proc := Option.some.inj hp
    decide
  have hatt : entered.processes[1]? = some attestation := rfl
  have hcrypto : nested.processes[0]? = some crypto := rfl
  have h1 := IpcRun.History.new.step (.called (IpcRun.canCall_nil 0) enter_attConn rfl)
  have h2 := h1.step (.startInit rfl hatt)
  have h3 := h2.step (.called hcall enter_conn rfl)
  exact h3.step (.startInit rfl hcrypto)

theorem top_nested : nested.top = conn := by
  have hg : Good (SpmIpc.new platform processes mpu) := ⟨rfl, ConnectionArray.wf_new⟩
  obtain ⟨-, p, hp⟩ := onTop_of_enter hg enter_attConn
  exact (onTop_of_enter hp.good enter_conn).1

theorem undisturbed : IpcRun.Undisturbed platform processes
    ⟨nested, [⟨0, conn.msg, .initStart, 0⟩, ⟨1, attConn.msg, .init, 0x33F00⟩]⟩ := by
  intro i hi j hj
  obtain rfl := Option.some.inj hi
  obtain rfl := List.mem_singleton.mp hj
  refine ⟨by decide, fun proc _ a _ hgrant => ?_⟩
  rw [top_nested] at hgrant
  rcases hgrant with ⟨region, hr, -⟩ | ⟨v, k, hv, -⟩
  · cases hr
  · have hfresh := (Connection.fresh_ofMsg (.new .crypto 1 .nsUnprivileged)).mapped v
    exact Bool.noConfusion (hfresh.symm.trans hv.1)

theorem spares_nested : Spares processes (startInit crypto.vectors).1
    ⟨nested, [⟨0, conn.msg, .initStart, 0⟩, ⟨1, attConn.msg, .init, 0x33F00⟩]⟩ := by
  refine IpcRun.suspended_stacks_survive layout history (fun x hx => ?_) _ List.mem_cons_self
  rcases List.mem_cons.mp hx with rfl | hx
  · exact undisturbed
  · have htail : x.1.invs.tail = [] := by
      simp only [List.mem_cons, List.not_mem_nil, or_false] at hx
      rcases hx with rfl | rfl | rfl <;> rfl
    intro i _ j hj
    rw [htail] at hj
    cases hj

end TwoProcesses

namespace OneProcess

def reentered : SpmIpc 1 := (SpmIpc.enter conn entered).2

theorem enter_conn_again : SpmIpc.enter conn entered = (.ok false, reentered) :=
  Prod.ext (by decide) rfl

theorem layout : Layout (Vector.replicate 1 crypto) where
  stack p proc hp := by
    match p with
    | 0 =>
      obtain rfl : crypto = proc := Option.some.inj hp
      decide
    | p + 1 => simp at hp
  disjoint p q hpq proc hp proc' hq := by
    match p, q with
    | 0, 0 => exact absurd rfl hpq
    | p + 1, _ => simp at hp
    | _, q + 1 => simp at hq

/-- A service that calls itself: the message is staged over the frames of the waiting call. -/
theorem not_spares_reentry : ¬ ∀ (l : List (IpcRun 1 × List Write)) (r : IpcRun 1),
    IpcRun.History platform (Vector.replicate 1 crypto) (Vector.replicate 8 ⟨0, 0⟩) l r →
      ∀ x ∈ l, Spares (Vector.replicate 1 crypto) x.2 x.1 := by
  intro h
  have hcall : IpcRun.CanCall ⟨entered, [⟨0, conn.msg, .init, 0⟩]⟩ (0x23F00 : Usize) := by
    intro i hi
    obtain rfl := Option.some.inj hi
    refine ⟨rfl, fun proc hp => ?_⟩
    obtain rfl : crypto = proc := Option.some.inj hp
    decide
  have hproc : entered.processes[0]? = some crypto := rfl
  have hproc' : reentered.processes[0]? = some crypto := rfl
  have h1 : IpcRun.History platform (Vector.replicate 1 crypto) (Vector.replicate 8 ⟨0, 0⟩)
      [(⟨OneProcess.spm, []⟩, [])] ⟨entered, [⟨0, conn.msg, .initStart, 0⟩]⟩ :=
    IpcRun.History.new.step (.called (IpcRun.canCall_nil 0) enter_conn rfl)
  have h2 := h1.step (.startInit rfl hproc)
  have h3 := h2.step (.called hcall enter_conn_again rfl)
  have h4 := h3.step (.startCall rfl hproc')
  have hspares := h _ _ h4 _ List.mem_cons_self (.message 0x23FD0 conn.msg) (by decide)
    ⟨0, conn.msg, .init, 0x23F00⟩ List.mem_cons_self 0x23FD0 ⟨crypto, rfl, by decide⟩
  exact hspares (by decide)

end OneProcess

end RuSpe
