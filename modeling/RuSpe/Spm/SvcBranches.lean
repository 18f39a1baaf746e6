import RuSpe.Spm.SvcHandler

set_option autoImplicit false

/-!
# What the branches of the SVC handler do

One description of each branch of `svc_handler` and of the two halves of `psa_call_thunk`: the
registers, the stack pointers and the memory they leave.

* `frameArgs`: the words r0 to r3 of a frame;
* `exec_copyArgs`: the copy between two frames;
* **`exec_psaCall`**, **`exec_psaReturn`**: the push and the pop of the saved block;
* `exec_psaCallThunk`, `exec_psaCallThunkEnd`.
-/

namespace RuSpe

open Armv8m WordMemory

/-- The words r0 to r3 of the frame at `a`. -/
def frameArgs (m : WordMemory) (a : Word) : List Word :=
  [m.word a, m.word (a + 4#32), m.word (a + 8#32), m.word (a + 12#32)]

theorem frameArgs_congr {m m' : WordMemory} {a : Word} (h : m.AgreeOn m' a 16) :
    frameArgs m' a = frameArgs m a := by
  rw [frameArgs, frameArgs, (h.mono fun x hx => ?_).word_eq, (h.mono fun x hx => ?_).word_eq,
    (h.mono fun x hx => ?_).word_eq, (h.mono fun x hx => ?_).word_eq]
  all_goals bv_omega

variable {h : Cpu} {thunk : Word}

/-! ## Labels 200 and 201 -/

theorem exec_startProcess : exec startProcess h =
    ((h.setReg .r0 1#32).setSpecial 1#32 .control).setReg .lr (h.reg .lr ||| 4#32) := by
  simp [startProcess]

theorem exec_processExit : exec processExit h =
    ((((((h.setReg .r2 (h.mem.word (h.reg .r0))).setReg .r1 h.msp).store h.msp
      (h.mem.word (h.reg .r0))).setReg .r0 0#32).setSpecial 0#32 .control).setReg .lr
        (h.reg .lr &&& ~~~4#32)) := by
  simp [processExit]

/-! ## The copy -/

/-- Four bytes of a frame's r0 to r3 and four of another's are apart if the frames are. -/
theorem apart_arg {a b : Word} (hap : Apart b 16 a 16) {i j : Word} (hi : i.toNat ≤ 12)
    (hj : j.toNat ≤ 12) : Apart (b + i) 4 (a + j) 4 := by
  refine hap.mono (fun x hx => ?_) (fun x hx => ?_)
  · bv_omega
  · bv_omega

theorem exec_copyArgs {rt rs rd : Reg} (hs : rt ≠ rs) (hd : rt ≠ rd) :
    ∃ v0 v1 v2 v3 : Word,
      exec (copyArgs rt rs rd) h = (h.storeWords (h.reg rd) [v0, v1, v2, v3]).setReg rt v3 ∧
      (Apart (h.reg rd) 16 (h.reg rs) 16 → [v0, v1, v2, v3] = frameArgs h.mem (h.reg rs)) := by
  let a := h.reg rs
  let b := h.reg rd
  let v0 := h.mem.word a
  let m1 := h.mem.set b v0
  let v1 := m1.word (a + 4#32)
  let m2 := m1.set (b + 4#32) v1
  let v2 := m2.word (a + 8#32)
  let m3 := m2.set (b + 8#32) v2
  refine ⟨v0, v1, v2, m3.word (a + 12#32), ?_, fun hap => ?_⟩
  · apply Cpu.ext
    case reg =>
      funext r
      by_cases hr : r = rt
      · simp [copyArgs, hs.symm, hd.symm, hr, a, b, v0, m1, v1, m2, v2, m3]
      · simp [copyArgs, hs.symm, hd.symm, hr]
    case mem =>
      simp [copyArgs, hs.symm, hd.symm, BitVec.add_assoc, a, b, v0, m1, v1, m2, v2, m3]
    all_goals simp [copyArgs]
  · have hb : b = b + 0#32 := (BitVec.add_zero b).symm
    have h1 : v1 = h.mem.word (a + 4#32) := by
      refine word_set_of_apart ?_
      rw [hb]
      exact apart_arg hap (by decide) (by decide)
    have h2 : v2 = h.mem.word (a + 8#32) := by
      refine (word_set_of_apart (apart_arg hap (by decide) (by decide))).trans ?_
      refine word_set_of_apart ?_
      rw [hb]
      exact apart_arg hap (by decide) (by decide)
    have h3 : m3.word (a + 12#32) = h.mem.word (a + 12#32) := by
      refine (word_set_of_apart (apart_arg hap (by decide) (by decide))).trans ?_
      refine (word_set_of_apart (apart_arg hap (by decide) (by decide))).trans ?_
      refine word_set_of_apart ?_
      rw [hb]
      exact apart_arg hap (by decide) (by decide)
    rw [h1, h2, h3, frameArgs]

/-! ## Label 202 -/

theorem exec_psaCallSave : exec psaCallSave h =
    (((((h.setReg .r3 (h.setReg .r2 h.msp).control).setReg .r12 h.psplim).storeWords
      (h.msp - 16#32) [h.reg .r0, h.control, h.psplim, h.reg .lr]).setReg .r2 (h.msp - 48#32))) := by
  apply Cpu.ext
  case reg =>
    funext r
    simp [psaCallSave, BitVec.sub_sub]
    grind
  case mem =>
    simp [psaCallSave, Cpu.control]
  all_goals simp [psaCallSave]

/-- The words of the frame of `psa_call_thunk` above r3. -/
def thunkFrame (thunk : Word) : List Word := [0#32, 0#32, thunk, 0x1000000#32]

theorem exec_psaCallEnter : exec (psaCallEnter thunk) h =
    ((((h.storeWords (h.reg .r2 + 16#32) (thunkFrame thunk)).setReg .r3 0#32).setSpecial
      (h.reg .r2) .msp).setSpecial 0#32 .control).setReg .lr excMsp := by
  apply Cpu.ext
  case reg =>
    funext r
    simp [psaCallEnter]
    grind
  case mem =>
    simp [psaCallEnter, thunkFrame, BitVec.add_assoc]
  all_goals simp [psaCallEnter]

variable (h thunk) in
/-- **Label 202 pushes the saved block and the frame of `psa_call_thunk`.** -/
theorem exec_psaCall : ∃ v0 v1 v2 v3 : Word,
    (exec (psaCall thunk) h).mem =
      (h.mem.setWords (h.msp - 16#32) [h.reg .r0, h.control, h.psplim, h.reg .lr]).setWords
        (h.msp - 48#32) ([v0, v1, v2, v3] ++ thunkFrame thunk) ∧
    (exec (psaCall thunk) h).msp = h.msp - 48#32 ∧
    (exec (psaCall thunk) h).psp = h.psp ∧
    (exec (psaCall thunk) h).psplim = h.psplim ∧
    (exec (psaCall thunk) h).nPriv = false ∧
    (exec (psaCall thunk) h).reg .lr = excMsp ∧
    (Apart (h.msp - 48#32) 48 (h.reg .r0) 16 → [v0, v1, v2, v3] = frameArgs h.mem (h.reg .r0)) := by
  obtain ⟨v0, v1, v2, v3, hc, ha⟩ :=
    @exec_copyArgs (exec psaCallSave h) .r3 .r0 .r2 (by decide) (by decide)
  rw [exec_psaCallSave] at hc ha
  rw [psaCall, exec_append, exec_append, exec_psaCallSave, hc, exec_psaCallEnter]
  refine ⟨v0, v1, v2, v3, ?_, ?_, ?_, ?_, ?_, ?_, fun hap => ?_⟩
  · simp [thunkFrame, BitVec.add_assoc]
  · simp
  · simp
  · simp
  · simp
  · simp
  · simp only [Cpu.setReg_reg, Cpu.storeWords_reg, Cpu.setReg_mem, Cpu.storeWords_mem, reduceCtorEq,
      if_true, if_false] at ha
    rw [ha (hap.mono (fun x hx => by omega) fun x hx => hx)]
    refine frameArgs_congr (setWords_agreeOn (by simp) (hap.mono (fun x hx => ?_) fun x hx => hx))
    simp only [List.length_cons, List.length_nil] at hx
    bv_omega

/-! ## Label 203 -/

theorem exec_psaReturnRestore :
    (exec psaReturnRestore h).mem = h.mem ∧
    (exec psaReturnRestore h).msp = h.reg .r2 + 48#32 ∧
    (exec psaReturnRestore h).psplim = h.mem.word (h.reg .r2 + 40#32) ∧
    (exec psaReturnRestore h).reg .lr = h.mem.word (h.reg .r2 + 44#32) ∧
    (exec psaReturnRestore h).nPriv = (h.mem.word (h.reg .r2 + 36#32)).getLsbD 0 ∧
    (exec psaReturnRestore h).psp =
      if h.mem.word (h.reg .r2 + 44#32) &&& 4#32 = 0#32 then h.psp else h.reg .r0 := by
  refine ⟨?_, ?_, ?_, ?_, ?_, ?_⟩
  all_goals
    simp [psaReturnRestore]
    split_ifs <;> simp

/-- **Label 203 copies r0 to r3 to the saved frame pointer and pops the saved block.** -/
theorem exec_psaReturn {fp : Word}
    (hfp : h.mem.word (h.msp + 32#32) = fp) : ∃ v0 v1 v2 v3 : Word, ∃ m : WordMemory,
      m = h.mem.setWords fp [v0, v1, v2, v3] ∧
      (exec psaReturn h).mem = m ∧
      (exec psaReturn h).msp = h.msp + 48#32 ∧
      (exec psaReturn h).psplim = m.word (h.msp + 40#32) ∧
      (exec psaReturn h).reg .lr = m.word (h.msp + 44#32) ∧
      (exec psaReturn h).nPriv = (m.word (h.msp + 36#32)).getLsbD 0 ∧
      (exec psaReturn h).psp = (if m.word (h.msp + 44#32) &&& 4#32 = 0#32 then h.psp else fp) ∧
      (Apart fp 16 h.msp 16 → [v0, v1, v2, v3] = frameArgs h.mem h.msp) := by
  have hp : exec [.mrs .r2 .msp, .ldr .r0 .r2 32#32] h = (h.setReg .r2 h.msp).setReg .r0 fp := by
    simp [hfp]
  obtain ⟨v0, v1, v2, v3, hc, ha⟩ :=
    @exec_copyArgs ((h.setReg .r2 h.msp).setReg .r0 fp) .r1 .r2 .r0 (by decide) (by decide)
  obtain ⟨hm, hmsp, hlim, hlr, hn, hpsp⟩ := @exec_psaReturnRestore
    (exec (copyArgs .r1 .r2 .r0) ((h.setReg .r2 h.msp).setReg .r0 fp))
  rw [psaReturn, exec_append, exec_append, hp]
  rw [hc] at hm hmsp hlim hlr hn hpsp ⊢
  exact ⟨v0, v1, v2, v3, _, rfl, hm, hmsp, hlim, hlr, hn, hpsp, ha⟩

theorem exec_psaReturn_spsel (hh : h.handler = true) : (exec psaReturn h).spsel = h.spsel := by
  have hp : exec [.mrs .r2 .msp, .ldr .r0 .r2 32#32] h =
      (h.setReg .r2 h.msp).setReg .r0 (h.mem.word (h.msp + 32#32)) := by
    simp
  obtain ⟨v0, v1, v2, v3, hc, -⟩ := @exec_copyArgs
    ((h.setReg .r2 h.msp).setReg .r0 (h.mem.word (h.msp + 32#32))) .r1 .r2 .r0
      (by decide) (by decide)
  rw [psaReturn, exec_append, exec_append, hp, hc]
  simp only [psaReturnRestore, exec_cons, exec_nil, Instr.exec_ldr, Instr.exec_add, Instr.exec_msr,
    Instr.exec_tst, Instr.exec_ifNe, Instr.exec_isb, Cpu.setReg_reg, reduceCtorEq, if_true, if_false,
    Cpu.setSpecial_reg, Cpu.setZ_z, decide_eq_true_eq]
  split_ifs <;> simp [hh]

/-! ## The thunk -/

theorem exec_psaCallThunk (hs : h.usesPsp = false) :
    exec psaCallThunk h =
      ((((h.setSp (h.msp - 32#32)).storeWords (h.msp - 32#32) [h.reg .r0, h.reg .r1, h.reg .r2,
        h.reg .r3, 0#32, 0#32, 0#32, 0#32]).setReg .r0 4#32).setReg .r1 (h.msp - 32#32)) := by
  have hu (s : Cpu) : s.usesPsp = (s.spsel && !s.handler) := rfl
  rw [hu] at hs
  apply Cpu.ext
  case reg =>
    funext r
    simp [psaCallThunk, Cpu.sp, hu, hs]
    split_ifs <;> rfl
  case mem =>
    simp [psaCallThunk, Cpu.sp, hu, hs, BitVec.add_assoc]
  all_goals simp [psaCallThunk, Cpu.sp, hu, hs]

theorem exec_psaCallThunkEnd (hs : h.usesPsp = false) :
    exec psaCallThunkEnd h =
      ((((h.setReg .r0 (h.mem.word h.msp)).setReg .r1 (h.mem.word (h.msp + 4#32))).setReg .r2
        (h.mem.word (h.msp + 8#32))).setReg .r3 (h.mem.word (h.msp + 12#32))).setSp
          (h.msp + 32#32) := by
  have hu (s : Cpu) : s.usesPsp = (s.spsel && !s.handler) := rfl
  rw [hu] at hs
  simp [psaCallThunkEnd, Cpu.sp, hu, hs]

end RuSpe
