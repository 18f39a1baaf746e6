import RuSpe.Spm.SvcBranches

set_option autoImplicit false

/-!
# A service runs and exits

`svc_call_unpriv` starts a service by one `svc` and is resumed by another one, of the service. In
between the handler leaves a frame on MSP, which holds r1 to r3, r12, lr, pc and xPSR of the caller;
nothing saves r4 to r11, and the inline assembly does not declare them.

* `AtSvcCall`, `Ran`, `Exits`: the caller, the service, and the end of the service;
* `Resumes`: what `svc_call_unpriv` expects of the core when it goes on;
* `started_holds`, `exits_return`: the frame on MSP at the start and at the end;
* **`resumes_iff`**: the caller is resumed as it expects iff the service restored r4 to r11.
-/

namespace RuSpe

open Armv8m WordMemory

/-- The core at the `svc` of `svc_call_unpriv`. -/
structure AtSvcCall (s : Cpu) : Prop where
  thread : s.handler = false
  privileged : s.nPriv = false
  onMsp : s.spsel = false
  number : svcNumber s = svcStartProcess

/-- A service ran from `a` to `t`: it is unprivileged on PSP, so that it writes neither CONTROL nor
MSP, and the MPU keeps it off the frame on MSP. -/
structure Ran (a t : Cpu) : Prop where
  thread : t.handler = a.handler
  nPriv : t.nPriv = a.nPriv
  spsel : t.spsel = a.spsel
  msp : t.msp = a.msp
  kept : a.mem.AgreeOn t.mem a.msp 32

/-- The service is at its `svc` of exit, which stacks a frame on its own stack. -/
structure Exits (t : Cpu) : Prop where
  number : svcNumber t = svcProcessExit
  apart : Apart t.frame 32 t.msp 32

/-- The registers that the inline assembly of `svc_call_unpriv` declares as overwritten. -/
def svcCallClobbers : List Reg := [.r0, .r1, .r2, .r3, .r12]

/-- `svc_call_unpriv`, which issued its `svc` in `s`, goes on in `u` after the exit in `t`. -/
structure Resumes (s t u : Cpu) : Prop where
  status : u.reg .r0 = t.reg .r0
  msp : u.msp = s.msp
  privileged : u.nPriv = false
  onMsp : u.spsel = false
  thread : u.handler = false
  pc : u.pc = s.pc + 2#32
  frame : ∀ r, r ∉ svcCallClobbers → u.reg r = s.reg r

section

variable {s t : Cpu} {thunk : Word} {dispatch : Cpu → Cpu}

theorem AtSvcCall.sp_eq (h : AtSvcCall s) : s.sp = s.msp := by
  simp [Cpu.sp, Cpu.usesPsp, h.onMsp]

/-! ## The start -/

theorem startProcess_returns (hs : s.handler = false) (hn : svcNumber s = svcStartProcess) :
    supervisorCall thunk dispatch s = exceptionReturn (exec startProcess (svcEntered s)) true := by
  have hlr : (exec startProcess (svcEntered s)).reg .lr = excPsp := by
    rw [exec_startProcess]
    cases h : s.spsel
    · simp [h, excMsp, excPsp]
    · simp [h, excPsp]
  rw [supervisorCall_startProcess hs hn, bxLr, hlr]
  rfl

theorem started_msp (h : AtSvcCall s) : (supervisorCall thunk dispatch s).msp = s.frame := by
  rw [startProcess_returns h.thread h.number, exec_startProcess]
  simp [exceptionReturn, svcEntry_msp, Cpu.usesPsp, h.onMsp]

theorem started_mem (h : AtSvcCall s) :
    (supervisorCall thunk dispatch s).mem = (svcEntry s).mem := by
  rw [startProcess_returns h.thread h.number, exec_startProcess]
  simp

variable (thunk dispatch) in
theorem started_mode (h : AtSvcCall s) : (supervisorCall thunk dispatch s).handler = false ∧
    (supervisorCall thunk dispatch s).nPriv = true ∧
    (supervisorCall thunk dispatch s).spsel = true := by
  rw [startProcess_returns h.thread h.number, exec_startProcess]
  simp

theorem started_holds (h : AtSvcCall s) (hr : Ran (supervisorCall thunk dispatch s) t) :
    t.mem.Holds s.frame (s.reg .r0 :: s.frameTail) := by
  have hk := hr.kept
  rw [started_msp h, started_mem h] at hk
  exact holds_svcEntry.of_agreeOn hk (by simp [Cpu.frameTail])

/-! ## The exit -/

variable (thunk dispatch) in
theorem processExit_returns (ht : t.handler = false) (hn : svcNumber t = svcProcessExit) :
    supervisorCall thunk dispatch t = exceptionReturn (exec processExit (svcEntered t)) false := by
  have hlr : (exec processExit (svcEntered t)).reg .lr = excMsp := by
    rw [exec_processExit]
    cases h : t.spsel
    · simp [h, excMsp]
    · simp [h, excMsp, excPsp]
  rw [supervisorCall_processExit ht hn, bxLr, hlr]
  rfl

theorem stacked_r0 : (svcEntry t).mem.word t.frame = t.reg .r0 := holds_svcEntry.1

/-- The frame that the exit of a service unstacks. -/
theorem exit_holds {f w : Word} {ws : List Word} (hp : t.usesPsp = true) (hm : t.msp = f)
    (ha : Apart t.frame 32 f (4 * (ws.length + 1))) (hl : ws.length ≤ 7)
    (h : t.mem.Holds f (w :: ws)) :
    (exec processExit (svcEntered t)).mem.Holds f (t.reg .r0 :: ws) := by
  have he : (svcEntry t).mem.Holds f (w :: ws) := h.of_agreeOn
    (setWords_agreeOn (by simp [Cpu.frameTail]) (by simpa [Cpu.frameTail] using ha))
    (by simp only [List.length_cons]; omega)
  rw [exec_processExit]
  simp only [Cpu.setReg_mem, Cpu.setSpecial_mem, Cpu.store_mem, svcEntered_r0, svcEntered_mem,
    svcEntered_msp, stacked_r0, svcEntry_msp, hp, if_true, hm]
  refine ⟨word_set_self, he.2.of_agreeOn (set_agreeOn fun x hx hx' => ?_) (by omega)⟩
  bv_omega

/-- **`svc_call_unpriv` goes on as it expects iff the service left r4 to r11 as they were.** -/
theorem resumes_iff (hs : AtSvcCall s) (hr : Ran (supervisorCall thunk dispatch s) t)
    (he : Exits t) :
    Resumes s t (supervisorCall thunk dispatch t) ↔
      ∀ r, r.calleeSaved = true → t.reg r = s.reg r := by
  obtain ⟨hh, hn, hsel⟩ := started_mode thunk dispatch hs
  have hth : t.handler = false := hr.thread.trans hh
  have hpsp : t.usesPsp = true := by simp [Cpu.usesPsp, hth, hr.spsel.trans hsel]
  have hmsp : t.msp = s.frame := hr.msp.trans (started_msp hs)
  have hx := exit_holds hpsp hmsp (by simpa [Cpu.frameTail, hmsp] using he.apart)
    (by simp [Cpu.frameTail]) (started_holds hs hr)
  have hf : (if false = true then (exec processExit (svcEntered t)).psp
      else (exec processExit (svcEntered t)).msp) = s.frame := by
    rw [exec_processExit]
    simp [svcEntry_msp, hpsp, hmsp]
  obtain ⟨h0, hregs, hpc, hsp, -⟩ := return_of_holds hf hx.2
  have hcs : ∀ r, r.calleeSaved = true →
      (supervisorCall thunk dispatch t).reg r = t.reg r := by
    intro r hc
    rw [processExit_returns thunk dispatch hth he.number, exceptionReturn_calleeSaved hc,
      exec_processExit]
    cases r <;> first | rfl | cases hc
  rw [← processExit_returns thunk dispatch hth he.number] at h0 hregs hpc hsp
  constructor
  · intro h r hc
    rw [← hcs r hc, h.frame r (by cases r <;> first | decide | cases hc)]
  · intro h
    refine ⟨h0.trans hx.1, ?_, ?_, ?_, ?_, hpc, fun r hr => ?_⟩
    · rw [hsp]
      simp [hs.sp_eq]
    · rw [processExit_returns thunk dispatch hth he.number, exec_processExit]
      simp
    · rw [processExit_returns thunk dispatch hth he.number]
      simp
    · rw [processExit_returns thunk dispatch hth he.number]
      simp
    · cases hc : r.calleeSaved with
      | true => rw [hcs r hc, h r hc]
      | false => exact hregs r hc (by rintro rfl; simp [svcCallClobbers] at hr)

/-! ## A service that uses r4 -/

namespace UsesR4

/-- The code of the two `svc` instructions, and zero elsewhere. -/
def code : WordMemory := fun x =>
  if x = 0x1000 then 3 else if x = 0x1001 then 0xDF else if x = 0x3001 then 0xDF else 0

/-- The SPM in `svc_call_unpriv`. -/
def caller : Cpu where
  reg _ := 0
  pc := 0x1000
  xpsr := 0x1000000
  msp := 0x20001000
  psp := 0x20003000
  psplim := 0x20002000
  nPriv := false
  spsel := false
  handler := false
  z := false
  mem := code

/-- The service at its exit: it wrote r4 and nothing else. -/
def service : Cpu :=
  { (supervisorCall 0 id caller).setReg .r4 1 with pc := 0x3000 }

theorem atSvcCall_caller : AtSvcCall caller := ⟨rfl, rfl, rfl, by decide⟩

theorem ran_service : Ran (supervisorCall 0 id caller) service :=
  ⟨rfl, rfl, rfl, rfl, AgreeOn.refl _ _ _⟩

theorem exits_service : Exits service :=
  ⟨by decide, (Apart.of_le (by decide) (by decide)).symm⟩

end UsesR4

theorem resumes_usesR4 :
    Resumes UsesR4.caller UsesR4.service (supervisorCall 0 id UsesR4.service) ↔
      ∀ r, r.calleeSaved = true → UsesR4.service.reg r = UsesR4.caller.reg r :=
  resumes_iff UsesR4.atSvcCall_caller UsesR4.ran_service UsesR4.exits_service

theorem not_resumes_always : ¬ ∀ (thunk : Word) (dispatch : Cpu → Cpu) (s t : Cpu), AtSvcCall s →
    Ran (supervisorCall thunk dispatch s) t → Exits t →
      Resumes s t (supervisorCall thunk dispatch t) := by
  intro h
  have hr := h 0 id _ _ UsesR4.atSvcCall_caller UsesR4.ran_service UsesR4.exits_service
  have h4 := hr.frame .r4 (by decide)
  revert h4
  decide

end

end RuSpe
