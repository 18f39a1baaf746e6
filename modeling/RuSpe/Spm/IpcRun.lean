import RuSpe.Spm.IpcSvc
import Mathlib.Logic.Relation

set_option autoImplicit false

/-!
# Runs of the process SPM

A run is a sequence of small steps: a running service stores to memory, issues an SVC, calls another
service or exits; the SPM refuses a call or enters it, starts the initialisation or the call of the
process, and returns to the caller. Services are not assumed to be well behaved.

* `Invocation`, `Phase`, `IpcRun`: the calls that are going on, innermost first;
* `Write`, `svcCallUnpriv`, `startInit`, `startCall`: what the SPM writes to start a service;
* `Step`: the steps, each with what it writes;
* `IpcRun.Inv`, **`inv_step`**: the connection stack, the invocations and the MPU agree.
-/

namespace RuSpe

/-! ## What is written -/

/-- A write to memory: a staged message, the exception frame a service starts from, or a store of a
service. -/
inductive Write
  | message (addr : Usize) (msg : PsaMsg)
  | frame (addr : Usize) (words : Vector Usize 8)
  | store (addr : Usize) (bytes : List (BitVec 8))
  deriving DecidableEq

namespace Write

def addr : Write → Usize
  | message a _ => a
  | frame a _ => a
  | store a _ => a

def size : Write → ℕ
  | message _ _ => msgSize.toNat
  | frame _ _ => frameSize.toNat
  | store _ bytes => bytes.length

/-- The write changes the byte at `a`. -/
def Hits (w : Write) (a : Usize) : Prop :=
  w.addr.toNat ≤ a.toNat ∧ a.toNat < w.addr.toNat + w.size

instance (w : Write) (a : Usize) : Decidable (w.Hits a) := inferInstanceAs (Decidable (_ ∧ _))

end Write

/-- `svc_call_unpriv` up to the SVC: the frame it builds, unless the stack is too small. -/
def svcCallUnpriv (fnPtr arg stackLimit stackTop : Usize) : Option Write :=
  match startFrameBase stackLimit stackTop with
  | .error _ => none
  | .ok frameBase =>
    let dummyLr : Usize := 0xFFFFFFFF
    let thumbBitXpsr : Usize := 0x01000000
    some (.frame frameBase #v[arg, 0, 0, 0, 0, dummyLr, fnPtr, thumbBitXpsr])

/-- What an invocation does now: between the two starts and at its end the SPM is at work. -/
inductive Phase
  | initStart
  | init
  | callStart
  | call
  | ended
  deriving DecidableEq, Repr

/-- The code of the service runs. -/
def Phase.running : Phase → Bool
  | .init | .call => true
  | _ => false

/-- What follows when the code of the service exits. -/
def Phase.exit : Phase → Phase
  | .init => .callStart
  | _ => .ended

/-- `init_process` up to the code of the service. -/
def startInit (vectors : ServiceVectors) : List Write × Phase :=
  match svcCallUnpriv vectors.initEntry 0 vectors.stackLimit vectors.stackTop with
  | some w => ([w], .init)
  | none => ([], .callStart)

/-- `call_process` up to the code of the service. -/
def startCall (vectors : ServiceVectors) (msg : PsaMsg) : List Write × Phase :=
  match stageMsgMailbox vectors with
  | .error _ => ([], .ended)
  | .ok mailbox =>
    match svcCallUnpriv vectors.callEntry mailbox vectors.stackLimit mailbox with
    | some w => ([.message mailbox msg, w], .call)
    | none => ([.message mailbox msg], .ended)

/-! ## Steps -/

/-- A call that is going on. While it waits for a nested call, `psp` is its saved stack pointer. -/
structure Invocation where
  proc : ℕ
  msg : PsaMsg
  phase : Phase
  psp : Usize

/-- The SPM with the calls that are going on. -/
structure IpcRun (n : ℕ) where
  spm : SpmIpc n
  invs : List Invocation

/-- The caller waits with its stack pointer at `psp`. -/
def suspend (psp : Usize) : List Invocation → List Invocation
  | [] => []
  | i :: rest => { i with psp } :: rest

namespace IpcRun

variable {n : ℕ}

/-- A call can be issued: from outside, or by the running service, whose stack pointer the hardware
keeps above the limit. -/
def CanCall (r : IpcRun n) (psp : Usize) : Prop :=
  ∀ i ∈ r.invs.head?, i.phase.running = true ∧
    ∀ proc ∈ r.spm.processes[i.proc]?, proc.vectors.stackLimit ≤ psp

theorem canCall_nil {s : SpmIpc n} (psp : Usize) : CanCall ⟨s, []⟩ psp :=
  fun _ h => nomatch h

end IpcRun

/-- One step, with what it writes. -/
inductive Step {n : ℕ} : IpcRun n → List Write → IpcRun n → Prop
  | refused {r : IpcRun n} {c : Connection} {e : StatusCode} {s : SpmIpc n} {psp : Usize}
      (hc : r.CanCall psp) (he : SpmIpc.enter c r.spm = (.error e, s)) : Step r [] ⟨s, r.invs⟩
  | called {r : IpcRun n} {c : Connection} {b : Bool} {s : SpmIpc n} {psp : Usize} {p : ℕ}
      (hc : r.CanCall psp) (he : SpmIpc.enter c r.spm = (.ok b, s))
      (hp : r.spm.findProcessIndex c.msg.handle = some p) :
      Step r [] ⟨s, ⟨p, c.msg, bif b then .initStart else .callStart, 0⟩ :: suspend psp r.invs⟩
  | startInit {s : SpmIpc n} {i : Invocation} {rest : List Invocation} {proc : ServiceProcess}
      (hi : i.phase = .initStart) (hp : s.processes[i.proc]? = some proc) :
      Step ⟨s, i :: rest⟩ (startInit proc.vectors).1
        ⟨s, { i with phase := (startInit proc.vectors).2 } :: rest⟩
  | startCall {s : SpmIpc n} {i : Invocation} {rest : List Invocation} {proc : ServiceProcess}
      (hi : i.phase = .callStart) (hp : s.processes[i.proc]? = some proc) :
      Step ⟨s, i :: rest⟩ (startCall proc.vectors i.msg).1
        ⟨s, { i with phase := (startCall proc.vectors i.msg).2 } :: rest⟩
  | stored {s : SpmIpc n} {i : Invocation} {rest : List Invocation} {addr : Usize}
      {bytes : List (BitVec 8)} (hi : i.phase.running = true)
      (hw : ∀ a, (Write.store addr bytes).Hits a → Armv8Mpu.Allows s.mpu.toList .write a) :
      Step ⟨s, i :: rest⟩ [.store addr bytes] ⟨s, i :: rest⟩
  | svc {s : SpmIpc n} {i : Invocation} {rest : List Invocation} {num : BitVec 8}
      {frame : SvcStackFrame} {f : SfnCall (SpmIpc n)} (hi : i.phase.running = true)
      (hn : num ≠ svcPsaCall) :
      Step ⟨s, i :: rest⟩ [] ⟨(svcHandlerDispatch num frame f s).2, i :: rest⟩
  | exited {s : SpmIpc n} {i : Invocation} {rest : List Invocation} (hi : i.phase.running = true) :
      Step ⟨s, i :: rest⟩ [] ⟨s, { i with phase := i.phase.exit } :: rest⟩
  | left {s : SpmIpc n} {i : Invocation} {rest : List Invocation} (hi : i.phase = .ended) :
      Step ⟨s, i :: rest⟩ [] ⟨SpmIpc.leave s, rest⟩

/-! ## The invariant -/

namespace SpmIpc

variable {n : ℕ} {s : SpmIpc n}

/-- The MPU is programmed for process `p` and the present connection. -/
def MpuFor (s : SpmIpc n) (p : ℕ) : Prop :=
  ∀ proc ∈ s.processes[p]?, s.mpu = configureMpu (s.configFor p proc)

theorem mpuFor_applyMpuConfig (h : s.state.lock = false) (p : ℕ) :
    MpuFor (s.applyMpuConfig p) p := by
  intro proc hp
  have hp : s.processes[p]? = some proc := by
    rw [s.applyMpuConfig_eq_mpu h p] at hp
    exact hp
  rw [applyMpuConfig_eq h hp]
  rfl

end SpmIpc

/-- The place of a connection on the stack and the invocation that was called with it. -/
def Linked {n : ℕ} (s : SpmIpc n) (place : LentStack.Place Connection) (i : Invocation) : Prop :=
  place.lent = false ∧ s.findProcessIndex place.val.msg.handle = some i.proc

namespace IpcRun

variable {n : ℕ} {platform : IpcPlatform} {processes : Vector ServiceProcess n}

/-- What holds all along a run. -/
structure Inv (platform : IpcPlatform) (processes : Vector ServiceProcess n) (r : IpcRun n) :
    Prop where
  good : Good r.spm
  platform_eq : r.spm.platform = platform
  processes_eq : r.spm.processes = processes
  linked : List.Forall₂ (Linked r.spm) r.spm.state.value.connections.stack r.invs
  mpu : ∀ i ∈ r.invs.head?, r.spm.MpuFor i.proc

theorem inv_new (mpu : Vector Armv8Mpu.Region 8) :
    Inv platform processes ⟨SpmIpc.new platform processes mpu, []⟩ where
  good := ⟨rfl, ConnectionArray.wf_new⟩
  platform_eq := rfl
  processes_eq := rfl
  linked := .nil
  mpu := nofun

variable {s : SpmIpc n} {i j : Invocation} {rest : List Invocation}

/-- The innermost invocation is the one of the active connection. -/
theorem Inv.onTop (h : Inv platform processes ⟨s, i :: rest⟩) : OnTop i.proc s := by
  have hl := h.linked
  have h0 : s.state.value.connections.topConnection ≠ 0 := by
    rw [← ConnectionArray.length_stack, hl.length_eq]
    exact Nat.succ_ne_zero _
  by_cases ha : s.state.value.connections.Active
  · rw [ConnectionArray.stack_of_active ha] at hl
    obtain ⟨⟨-, hf⟩, -⟩ := List.forall₂_cons.mp hl
    exact ⟨h.good, ha, hf⟩
  · rw [ConnectionArray.stack_of_not_active h0 ha] at hl
    obtain ⟨⟨hlent, -⟩, -⟩ := List.forall₂_cons.mp hl
    exact absurd hlent (Bool.noConfusion)

/-- Only the process of an invocation matters. -/
theorem Inv.replace_head (h : Inv platform processes ⟨s, i :: rest⟩) (hj : j.proc = i.proc) :
    Inv platform processes ⟨s, j :: rest⟩ := by
  obtain ⟨hg, hpl, hpr, hl, hm⟩ := h
  refine ⟨hg, hpl, hpr, ?_, fun k hk => ?_⟩
  · dsimp only at hl ⊢
    generalize s.state.value.connections.stack = stack at hl ⊢
    cases hl with
    | cons hhead htail => exact .cons ⟨hhead.1, hj ▸ hhead.2⟩ htail
  · obtain rfl := Option.some.inj hk
    rw [hj]
    exact hm i rfl

theorem Inv.suspend {r : IpcRun n} (h : Inv platform processes r) (psp : Usize) :
    Inv platform processes ⟨r.spm, suspend psp r.invs⟩ := by
  obtain ⟨s, invs⟩ := r
  cases invs with
  | nil => exact h
  | cons i rest => exact h.replace_head rfl

/-- Programming the MPU for the innermost invocation. -/
theorem inv_applyMpuConfig (hg : Good s) (hpl : s.platform = platform)
    (hpr : s.processes = processes)
    (hl : List.Forall₂ (Linked s) s.state.value.connections.stack (i :: rest)) :
    Inv platform processes ⟨s.applyMpuConfig i.proc, i :: rest⟩ := by
  have hmpu := SpmIpc.mpuFor_applyMpuConfig hg.free i.proc
  rw [s.applyMpuConfig_eq_mpu hg.free] at hmpu ⊢
  refine ⟨⟨hg.free, hg.wf⟩, hpl, hpr, hl, fun k hk => ?_⟩
  obtain rfl := Option.some.inj hk
  exact hmpu

theorem Inv.called {r : IpcRun n} {c : Connection} {p : ℕ} (h : Inv platform processes r)
    (ht : r.spm.state.value.connections.topConnection < maxConnections)
    (hp : r.spm.findProcessIndex c.msg.handle = some p) (hi : i.proc = p) :
    Inv platform processes ⟨(r.spm.called c p).applyMpuConfig p, i :: r.invs⟩ := by
  subst hi
  refine inv_applyMpuConfig ⟨rfl, h.good.wf.pushed ht c⟩ h.platform_eq h.processes_eq ?_
  rw [show (r.spm.called c i.proc).state.value.connections =
    r.spm.state.value.connections.pushed c from rfl, ConnectionArray.stack_pushed ht]
  exact .cons ⟨rfl, hp⟩ h.linked

theorem Inv.withTop {c : Connection} (h : Inv platform processes ⟨s, i :: rest⟩)
    (hc : c.msg.handle = s.top.msg.handle) :
    Inv platform processes ⟨(s.withTop c).applyMpuConfig i.proc, i :: rest⟩ := by
  have ht := h.onTop
  refine inv_applyMpuConfig (SpmIpc.good_withTop ht.good ht.active c) h.platform_eq h.processes_eq ?_
  have hw : s.state.value.connections.Wf := ht.good.wf
  have hl := h.linked
  rw [ConnectionArray.stack_of_active ht.active] at hl
  have hst := ConnectionArray.stack_of_active (ConnectionArray.active_filled hw ht.active.1 c)
  rw [ConnectionArray.topSlot_filled hw ht.active.1] at hst
  rw [show (s.withTop c).state.value.connections = s.state.value.connections.filled c from rfl, hst]
  refine .cons ⟨rfl, ?_⟩ ?_
  · rw [SpmIpc.findProcessIndex_withTop, hc, ht.find]
  · have htail := (List.forall₂_cons.mp hl).2
    rw [← ConnectionArray.stackBelow_filled c] at htail
    exact htail

/-- Returning to the caller, whose connection is on top again. -/
theorem Inv.left (h : Inv platform processes ⟨s, i :: rest⟩) :
    Inv platform processes ⟨SpmIpc.leave s, rest⟩ := by
  have hg : Good s.popped := ⟨rfl, h.good.wf.popConnection⟩
  have hl : List.Forall₂ (Linked s.popped) s.popped.state.value.connections.stack rest := by
    rw [show s.popped.state.value.connections = s.state.value.connections.popConnection from rfl,
      ConnectionArray.stack_popConnection]
    have hl := h.linked
    rw [ConnectionArray.stack_of_active h.onTop.active] at hl ⊢
    exact (List.forall₂_cons.mp hl).2
  have hw : s.popped.state.value.connections.Wf := hg.wf
  have hfree : s.state.lock = false := h.good.free
  rw [SpmIpc.leave, SpmIpc.getLastProcessIndex_eq hfree,
    ConnectionArray.peekActiveConnection_eq hw]
  cases rest with
  | nil =>
    have h0 : s.popped.state.value.connections.topConnection = 0 := by
      rw [← ConnectionArray.length_stack, hl.length_eq]
      rfl
    rw [if_neg fun ha => ha.1 h0, if_pos h0]
    exact ⟨hg, h.platform_eq, h.processes_eq, hl, fun i hi => by cases hi⟩
  | cons k rest =>
    have hk : Inv platform processes ⟨s.popped.applyMpuConfig k.proc, k :: rest⟩ :=
      inv_applyMpuConfig hg h.platform_eq h.processes_eq hl
    have ht := hk.onTop
    rw [s.popped.applyMpuConfig_eq_mpu hg.free] at ht
    rw [if_pos (show s.popped.state.value.connections.Active from ht.active)]
    have hf : s.findProcessIndex s.popped.state.value.connections.topSlot.msg.handle =
        some k.proc := ht.find
    dsimp only
    rw [hf]
    exact hk

/-- **Every step keeps the invariant.** -/
theorem inv_step {r r' : IpcRun n} {w : List Write} (h : Inv platform processes r)
    (hs : Step r w r') : Inv platform processes r' := by
  cases hs with
  | refused hc he =>
    obtain rfl := LawfulSpm.enter_error h.good.free h.good.wf he
    exact h
  | called hc he hp =>
    obtain ⟨p, hp', ht, rfl⟩ := SpmIpc.enter_eq_ok h.good.free he
    obtain rfl := Option.some.inj (hp'.symm.trans hp)
    exact (h.suspend _).called ht hp rfl
  | startInit hi hp => exact h.replace_head rfl
  | startCall hi hp => exact h.replace_head rfl
  | stored hi hw => exact h
  | svc hi hn =>
    rename_i frame f
    rcases svc_eq_or h.onTop hn frame f with heq | ⟨svc, -, heq⟩
    · rw [heq]
      exact h
    · rw [heq]
      exact h.withTop (svc.handle_after _)
  | exited hi => exact h.replace_head rfl
  | left hi => exact h.left

end IpcRun

end RuSpe
