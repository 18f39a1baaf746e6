import RuSpe.Lib.Armv8m
import RuSpe.Spm.Svc

set_option autoImplicit false

/-!
# The SVC handler

`svc_handler` is the assembly that every `svc` of the SPM and of its services enters. It reads the
number of the `svc` from the code before the stacked pc and has a branch of its own for four
numbers; the others go to `svc_handler_dispatch`.

* `startProcess`, `processExit`, `psaCall`, `psaReturn`: the branches 200 to 203;
* `svcHandler`, `supervisorCall`: the handler, and a whole `svc` from Thread mode to Thread mode;
* `supervisorCall_startProcess`, ..., `supervisorCall_psaReturn`: which branch runs;
* `psaCallThunk`: what runs between SVC_PSA_CALL and SVC_PSA_CALL_RETURN.
-/

namespace RuSpe

open Armv8m

/-! ## The code -/

/-- `svc_handler` up to the comparison of the number: r0 is the frame, r1 the number. -/
def svcPrologue : List Instr :=
  [.tst .lr 4#32, .ifEq (.mrs .r0 .msp), .ifNe (.mrs .r0 .psp),
   .ldr .r1 .r0 24#32, .ldrhBack .r1 .r1 2#32, .uxtb .r1 .r1]

/-- Label 200. -/
def startProcess : List Instr :=
  [.mov .r0 1#32, .msr .control .r0, .isb, .orr .lr .lr 4#32]

/-- Label 201. -/
def processExit : List Instr :=
  [.ldr .r2 .r0 0#32, .mrs .r1 .msp, .str .r2 .r1 0#32,
   .mov .r0 0#32, .msr .control .r0, .isb, .bic .lr .lr 4#32]

/-- The copy of the words r0 to r3 of a frame, from the frame at `rs` to the one at `rd`. -/
def copyArgs (rt rs rd : Reg) : List Instr :=
  [.ldr rt rs 0#32, .str rt rd 0#32, .ldr rt rs 4#32, .str rt rd 4#32,
   .ldr rt rs 8#32, .str rt rd 8#32, .ldr rt rs 12#32, .str rt rd 12#32]

/-- Label 202 up to the copy: the saved block is pushed. -/
def psaCallSave : List Instr :=
  [.mrs .r2 .msp, .mrs .r3 .control, .mrs .r12 .psplim, .stmdb .r2 [.r0, .r3, .r12, .lr],
   .sub .r2 .r2 32#32]

/-- Label 202 from the copy on: the rest of the frame of `psa_call_thunk`. -/
def psaCallEnter (thunk : Word) : List Instr :=
  [.mov .r3 0#32, .str .r3 .r2 16#32, .str .r3 .r2 20#32,
   .mov .r3 thunk, .str .r3 .r2 24#32,
   .mov .r3 1#32, .lsl .r3 .r3 24, .str .r3 .r2 28#32,
   .msr .msp .r2, .mov .r3 0#32, .msr .control .r3, .isb, .mov .lr excMsp]

/-- Label 202, where `psa_call_thunk` is at `thunk`. -/
def psaCall (thunk : Word) : List Instr :=
  psaCallSave ++ copyArgs .r3 .r0 .r2 ++ psaCallEnter thunk

/-- Label 203 from the copy on: the saved block is popped. -/
def psaReturnRestore : List Instr :=
  [.ldr .r3 .r2 36#32, .ldr .r1 .r2 40#32, .ldr .lr .r2 44#32,
   .add .r2 .r2 48#32, .msr .msp .r2, .msr .psplim .r1,
   .tst .lr 4#32, .ifNe (.msr .psp .r0), .msr .control .r3, .isb]

/-- Label 203. -/
def psaReturn : List Instr :=
  [.mrs .r2 .msp, .ldr .r0 .r2 32#32] ++ copyArgs .r1 .r2 .r0 ++ psaReturnRestore

/-- `psa_call_thunk` up to the call of `handle_svc`. -/
def psaCallThunk : List Instr :=
  [.subSp 32#32, .strSp .r0 0#32, .strSp .r1 4#32, .strSp .r2 8#32, .strSp .r3 12#32,
   .mov .r0 0#32, .strSp .r0 16#32, .strSp .r0 20#32, .strSp .r0 24#32, .strSp .r0 28#32,
   .mov .r0 (svcPsaCall.setWidth 32), .movSp .r1]

/-- `psa_call_thunk` from the return of `handle_svc` to its `svc`. -/
def psaCallThunkEnd : List Instr :=
  [.ldrSp .r0 0#32, .ldrSp .r1 4#32, .ldrSp .r2 8#32, .ldrSp .r3 12#32, .addSp 32#32]

/-- `svc_handler` up to the final `bx lr`, over `svc_handler_dispatch`. -/
def svcHandler (thunk : Word) (dispatch : Cpu → Cpu) (e : Cpu) : Cpu :=
  let h := exec svcPrologue e
  if h.reg .r1 = svcStartProcess.setWidth 32 then exec startProcess h
  else if h.reg .r1 = svcProcessExit.setWidth 32 then exec processExit h
  else if h.reg .r1 = svcPsaCall.setWidth 32 then exec (psaCall thunk) h
  else if h.reg .r1 = svcPsaCallReturn.setWidth 32 then exec psaReturn h
  else dispatch h

/-- An `svc` from the Thread mode state `s`: entry, handler and `bx lr`. -/
def supervisorCall (thunk : Word) (dispatch : Cpu → Cpu) (s : Cpu) : Cpu :=
  bxLr (svcHandler thunk dispatch (svcEntry s))

/-- The number of the `svc` at `s.pc`, as the handler reads it. -/
def svcNumber (s : Cpu) : BitVec 8 := ((svcEntry s).mem.half s.pc).setWidth 8

/-! ## Into the branches -/

/-- The core where `svc_handler` compares the number. -/
def svcEntered (s : Cpu) : Cpu :=
  (((svcEntry s).setZ (!s.spsel)).setReg .r0 s.frame).setReg .r1 ((svcNumber s).setWidth 32)

section

variable {s h : Cpu} {thunk : Word} {dispatch : Cpu → Cpu}

theorem stacked_pc : (svcEntry s).mem.word (s.frame + 24#32) = s.pc + 2#32 := by
  have h := holds_svcEntry (s := s)
  simp only [Cpu.frameTail, WordMemory.holds_cons, BitVec.add_assoc, BitVec.reduceAdd] at h
  exact h.2.2.2.2.2.2.1

theorem exec_svcPrologue (hs : s.handler = false) :
    exec svcPrologue (svcEntry s) = svcEntered s := by
  have hn : (svcEntry s).mem.word (s.frame + 24#32) - 2#32 = s.pc := by
    rw [stacked_pc]
    bv_omega
  cases h : s.spsel
  · simp [svcPrologue, h, Cpu.setReg_setReg, svcEntry_msp, Cpu.usesPsp,
      svcEntered, svcNumber, hn]
  · simp [svcPrologue, h, Cpu.setReg_setReg, svcEntry_psp, Cpu.usesPsp, hs,
      svcEntered, svcNumber, hn]

@[simp] theorem svcEntered_r0 : (svcEntered s).reg .r0 = s.frame := rfl
@[simp] theorem svcEntered_r1 : (svcEntered s).reg .r1 = (svcNumber s).setWidth 32 := rfl

@[simp] theorem svcEntered_lr : (svcEntered s).reg .lr = if s.spsel then excPsp else excMsp := rfl

@[simp] theorem svcEntered_handler : (svcEntered s).handler = true := rfl
@[simp] theorem svcEntered_spsel : (svcEntered s).spsel = false := rfl
@[simp] theorem svcEntered_nPriv : (svcEntered s).nPriv = s.nPriv := rfl
@[simp] theorem svcEntered_psplim : (svcEntered s).psplim = s.psplim := rfl
@[simp] theorem svcEntered_msp : (svcEntered s).msp = (svcEntry s).msp := rfl
@[simp] theorem svcEntered_psp : (svcEntered s).psp = (svcEntry s).psp := rfl
@[simp] theorem svcEntered_mem : (svcEntered s).mem = (svcEntry s).mem := rfl

/-! ## Which branch runs -/

/-- After the prologue, the number of the `svc` selects the branch. -/
theorem supervisorCall_eq (hs : s.handler = false) : supervisorCall thunk dispatch s =
    bxLr (if svcNumber s = svcStartProcess then exec startProcess (svcEntered s)
      else if svcNumber s = svcProcessExit then exec processExit (svcEntered s)
      else if svcNumber s = svcPsaCall then exec (psaCall thunk) (svcEntered s)
      else if svcNumber s = svcPsaCallReturn then exec psaReturn (svcEntered s)
      else dispatch (svcEntered s)) := by
  have hnum (n : BitVec 8) : (svcNumber s).setWidth 32 = n.setWidth 32 ↔ svcNumber s = n := by
    constructor
    · intro h
      bv_omega
    · rintro rfl
      rfl
  rw [supervisorCall, svcHandler, exec_svcPrologue hs]
  simp only [svcEntered_r1, hnum]

theorem supervisorCall_startProcess (hs : s.handler = false) (hn : svcNumber s = svcStartProcess) :
    supervisorCall thunk dispatch s = bxLr (exec startProcess (svcEntered s)) := by
  rw [supervisorCall_eq hs, if_pos hn]

theorem supervisorCall_processExit (hs : s.handler = false) (hn : svcNumber s = svcProcessExit) :
    supervisorCall thunk dispatch s = bxLr (exec processExit (svcEntered s)) := by
  rw [supervisorCall_eq hs, hn, if_neg (by decide), if_pos rfl]

theorem supervisorCall_psaCall (hs : s.handler = false) (hn : svcNumber s = svcPsaCall) :
    supervisorCall thunk dispatch s = bxLr (exec (psaCall thunk) (svcEntered s)) := by
  rw [supervisorCall_eq hs, hn, if_neg (by decide), if_neg (by decide), if_pos rfl]

theorem supervisorCall_psaReturn (hs : s.handler = false) (hn : svcNumber s = svcPsaCallReturn) :
    supervisorCall thunk dispatch s = bxLr (exec psaReturn (svcEntered s)) := by
  rw [supervisorCall_eq hs, hn, if_neg (by decide), if_neg (by decide), if_neg (by decide),
    if_pos rfl]

end

end RuSpe
