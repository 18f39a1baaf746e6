import RuSpe.Lib.WordMemory

set_option autoImplicit false

/-!
# An Armv8-M core with a supervisor call

The registers a supervisor call moves, the instructions a handler is written in, and the eight-word
frame of an exception from Thread mode. The floating-point frame and the condition flags other than
Z are left out; the stack pointers are written as they are given.

* `Cpu`, `Instr`, `exec`;
* `svcEntry`, `bxLr`: exception entry and `bx lr` from a handler;
* **`holds_svcEntry`**: entry stacks the caller's frame;
* **`return_of_holds`**: a return from a stacked frame gives back exactly what is in it.
-/

namespace Armv8m

/-- The general registers and the link register. -/
inductive Reg
  | r0 | r1 | r2 | r3 | r4 | r5 | r6 | r7 | r8 | r9 | r10 | r11 | r12 | lr
  deriving DecidableEq, Repr

/-- The state of the core. `nPriv` and `spsel` are the two bits of CONTROL, `handler` is Handler
mode, and `z` is the Z flag of the code that runs. -/
@[ext] structure Cpu where
  reg : Reg → Word
  pc : Word
  xpsr : Word
  msp : Word
  psp : Word
  psplim : Word
  nPriv : Bool
  spsel : Bool
  handler : Bool
  z : Bool
  mem : WordMemory

/-- The special registers of `mrs` and `msr`. -/
inductive Special
  | msp | psp | psplim | control
  deriving DecidableEq, Repr

/-- The instructions of a handler or a thunk. `sp` is the stack pointer in use; `ldrhBack` is `ldrh`
with a negative offset. -/
inductive Instr
  | mov (rd : Reg) (v : Word)
  | movSp (rd : Reg)
  | mrs (rd : Reg) (sr : Special)
  | msr (sr : Special) (rn : Reg)
  | isb
  | orr (rd rn : Reg) (v : Word)
  | bic (rd rn : Reg) (v : Word)
  | add (rd rn : Reg) (v : Word)
  | sub (rd rn : Reg) (v : Word)
  | lsl (rd rn : Reg) (k : ℕ)
  | uxtb (rd rn : Reg)
  | tst (rn : Reg) (v : Word)
  | ldr (rt rn : Reg) (off : Word)
  | str (rt rn : Reg) (off : Word)
  | ldrhBack (rt rn : Reg) (off : Word)
  | ldrSp (rt : Reg) (off : Word)
  | strSp (rt : Reg) (off : Word)
  | addSp (v : Word)
  | subSp (v : Word)
  | stmdb (rn : Reg) (rs : List Reg)
  | ifEq (i : Instr)
  | ifNe (i : Instr)

namespace Cpu

/-- Write a register. -/
@[simps] def setReg (s : Cpu) (r : Reg) (v : Word) : Cpu :=
  { s with reg := fun q => if q = r then v else s.reg q }

/-- Store a word. -/
@[simps] def store (s : Cpu) (a v : Word) : Cpu := { s with mem := s.mem.set a v }

/-- Store words from `a` upward. -/
@[simps] def storeWords (s : Cpu) (a : Word) (ws : List Word) : Cpu :=
  { s with mem := s.mem.setWords a ws }

/-- Set the Z flag. -/
@[simps] def setZ (s : Cpu) (b : Bool) : Cpu := { s with z := b }

/-- Thread mode uses the stack pointer that CONTROL.SPSEL selects, Handler mode uses MSP. -/
def usesPsp (s : Cpu) : Bool := s.spsel && !s.handler

/-- The stack pointer in use. -/
def sp (s : Cpu) : Word := if s.usesPsp then s.psp else s.msp

/-- Write the stack pointer in use. -/
@[simps] def setSp (s : Cpu) (v : Word) : Cpu :=
  { s with
    msp := if s.usesPsp then s.msp else v
    psp := if s.usesPsp then v else s.psp }

/-- CONTROL, as `mrs` reads it. -/
def control (s : Cpu) : Word := (if s.nPriv then 1#32 else 0#32) + if s.spsel then 2#32 else 0#32

/-- Read a special register. -/
def special (s : Cpu) : Special → Word
  | .msp => s.msp
  | .psp => s.psp
  | .psplim => s.psplim
  | .control => s.control

/-- Write a special register. Handler mode ignores writes to CONTROL.SPSEL. -/
@[simps] def setSpecial (s : Cpu) (v : Word) (sr : Special) : Cpu :=
  { s with
    msp := if sr = .msp then v else s.msp
    psp := if sr = .psp then v else s.psp
    psplim := if sr = .psplim then v else s.psplim
    nPriv := if sr = .control then v[0] else s.nPriv
    spsel := if sr = .control ∧ s.handler = false then v[1] else s.spsel }

section

variable (s : Cpu)

@[simp] theorem special_msp : s.special .msp = s.msp := rfl
@[simp] theorem special_psp : s.special .psp = s.psp := rfl
@[simp] theorem special_psplim : s.special .psplim = s.psplim := rfl
@[simp] theorem special_control : s.special .control = s.control := rfl

end

end Cpu

theorem Cpu.control_nPriv {s : Cpu} (h : s.spsel = false) : s.control[0] = s.nPriv := by
  cases hn : s.nPriv <;> simp [Cpu.control, h, hn]

theorem Cpu.setReg_setReg (s : Cpu) (r : Reg) (v w : Word) :
    (s.setReg r v).setReg r w = s.setReg r w := by
  simp only [Cpu.setReg, Cpu.mk.injEq, and_true]
  funext q
  split_ifs <;> rfl

/-- One instruction. -/
def Instr.exec (s : Cpu) : Instr → Cpu
  | .mov rd v => s.setReg rd v
  | .movSp rd => s.setReg rd s.sp
  | .mrs rd sr => s.setReg rd (s.special sr)
  | .msr sr rn => s.setSpecial (s.reg rn) sr
  | .isb => s
  | .orr rd rn v => s.setReg rd (s.reg rn ||| v)
  | .bic rd rn v => s.setReg rd (s.reg rn &&& ~~~v)
  | .add rd rn v => s.setReg rd (s.reg rn + v)
  | .sub rd rn v => s.setReg rd (s.reg rn - v)
  | .lsl rd rn k => s.setReg rd (s.reg rn <<< k)
  | .uxtb rd rn => s.setReg rd ((s.reg rn).setWidth 8 |>.setWidth 32)
  | .tst rn v => s.setZ (s.reg rn &&& v = 0#32)
  | .ldr rt rn off => s.setReg rt (s.mem.word (s.reg rn + off))
  | .str rt rn off => s.store (s.reg rn + off) (s.reg rt)
  | .ldrhBack rt rn off => s.setReg rt ((s.mem.half (s.reg rn - off)).setWidth 32)
  | .ldrSp rt off => s.setReg rt (s.mem.word (s.sp + off))
  | .strSp rt off => s.store (s.sp + off) (s.reg rt)
  | .addSp v => s.setSp (s.sp + v)
  | .subSp v => s.setSp (s.sp - v)
  | .stmdb rn rs =>
    let a := s.reg rn - BitVec.ofNat 32 (4 * rs.length)
    (s.storeWords a (rs.map s.reg)).setReg rn a
  | .ifEq i => if s.z then i.exec s else s
  | .ifNe i => if s.z then s else i.exec s

namespace Instr

-- `(rfl)` and not `rfl`: simp then rewrites with these equations step by step, and does not leave
-- a whole run to be unfolded when the proof is checked
variable (s : Cpu) (rd rn rt : Reg) (sr : Special) (v off : Word) (i : Instr)

@[simp] theorem exec_mov : (mov rd v).exec s = s.setReg rd v := (rfl)
@[simp] theorem exec_movSp : (movSp rd).exec s = s.setReg rd s.sp := (rfl)
@[simp] theorem exec_mrs : (mrs rd sr).exec s = s.setReg rd (s.special sr) := (rfl)
@[simp] theorem exec_msr : (msr sr rn).exec s = s.setSpecial (s.reg rn) sr := (rfl)
@[simp] theorem exec_isb : isb.exec s = s := (rfl)
@[simp] theorem exec_orr : (orr rd rn v).exec s = s.setReg rd (s.reg rn ||| v) := (rfl)
@[simp] theorem exec_bic : (bic rd rn v).exec s = s.setReg rd (s.reg rn &&& ~~~v) := (rfl)
@[simp] theorem exec_add : (add rd rn v).exec s = s.setReg rd (s.reg rn + v) := (rfl)
@[simp] theorem exec_sub : (sub rd rn v).exec s = s.setReg rd (s.reg rn - v) := (rfl)
@[simp] theorem exec_lsl (k : ℕ) : (lsl rd rn k).exec s = s.setReg rd (s.reg rn <<< k) := (rfl)
@[simp] theorem exec_uxtb :
    (uxtb rd rn).exec s = s.setReg rd ((s.reg rn).setWidth 8 |>.setWidth 32) := (rfl)
@[simp] theorem exec_tst : (tst rn v).exec s = s.setZ (s.reg rn &&& v = 0#32) := (rfl)
@[simp] theorem exec_ldr :
    (ldr rt rn off).exec s = s.setReg rt (s.mem.word (s.reg rn + off)) := (rfl)
@[simp] theorem exec_str : (str rt rn off).exec s = s.store (s.reg rn + off) (s.reg rt) := (rfl)
@[simp] theorem exec_ldrhBack : (ldrhBack rt rn off).exec s =
    s.setReg rt ((s.mem.half (s.reg rn - off)).setWidth 32) := (rfl)
@[simp] theorem exec_ldrSp : (ldrSp rt off).exec s = s.setReg rt (s.mem.word (s.sp + off)) := (rfl)
@[simp] theorem exec_strSp : (strSp rt off).exec s = s.store (s.sp + off) (s.reg rt) := (rfl)
@[simp] theorem exec_addSp : (addSp v).exec s = s.setSp (s.sp + v) := (rfl)
@[simp] theorem exec_subSp : (subSp v).exec s = s.setSp (s.sp - v) := (rfl)
@[simp] theorem exec_stmdb (rs : List Reg) : (stmdb rn rs).exec s =
    (s.storeWords (s.reg rn - BitVec.ofNat 32 (4 * rs.length)) (rs.map s.reg)).setReg rn
      (s.reg rn - BitVec.ofNat 32 (4 * rs.length)) := (rfl)
@[simp] theorem exec_ifEq : (ifEq i).exec s = if s.z then i.exec s else s := (rfl)
@[simp] theorem exec_ifNe : (ifNe i).exec s = if s.z then s else i.exec s := (rfl)

end Instr

/-- A run of instructions. -/
def exec (is : List Instr) (s : Cpu) : Cpu := is.foldl Instr.exec s

@[simp] theorem exec_nil (s : Cpu) : exec [] s = s := (rfl)

@[simp] theorem exec_cons (i : Instr) (is : List Instr) (s : Cpu) :
    exec (i :: is) s = exec is (i.exec s) := (rfl)

@[simp] theorem exec_append (is js : List Instr) (s : Cpu) : exec (is ++ js) s = exec js (exec is s) :=
  List.foldl_append

/-! ## Exceptions -/

/-- EXC_RETURN to Thread mode on MSP. -/
def excMsp : Word := 0xFFFFFFF9

/-- EXC_RETURN to Thread mode on PSP. -/
def excPsp : Word := 0xFFFFFFFD

/-- Where the frame of an exception taken on the stack `sp` lies: it is aligned to eight bytes. -/
def framePtr (sp : Word) : Word := sp - 32#32 - if sp[2] then 4#32 else 0#32

/-- Where the stack is once the frame at `f` with the stacked xPSR `x` is unstacked. -/
def unstacked (f x : Word) : Word := f + 32#32 + if x[9] then 4#32 else 0#32

/-- The xPSR of `s` as it is stacked: bit 9 says that the frame was moved down to align it. -/
def Cpu.stackedXpsr (s : Cpu) : Word :=
  if s.sp[2] then s.xpsr ||| 0x200 else s.xpsr &&& ~~~0x200

/-- The words of the frame of a supervisor call above the stacked r0. -/
def Cpu.frameTail (s : Cpu) : List Word :=
  [s.reg .r1, s.reg .r2, s.reg .r3, s.reg .r12, s.reg .lr, s.pc + 2#32, s.stackedXpsr]

/-- The frame pointer of a supervisor call from `s`. -/
def Cpu.frame (s : Cpu) : Word := framePtr s.sp

/-- Exception entry of the `svc` at `s.pc`, from Thread mode. -/
def svcEntry (s : Cpu) : Cpu :=
  { (s.setSp s.frame).setReg .lr (if s.spsel then excPsp else excMsp) with
    mem := s.mem.setWords s.frame (s.reg .r0 :: s.frameTail), handler := true, spsel := false }

/-- Exception return to Thread mode, unstacking from PSP or from MSP. -/
def exceptionReturn (s : Cpu) (onPsp : Bool) : Cpu :=
  let f := if onPsp then s.psp else s.msp
  let x := s.mem.word (f + 28#32)
  { s with
    reg := fun r => match r with
      | .r0 => s.mem.word f
      | .r1 => s.mem.word (f + 4#32)
      | .r2 => s.mem.word (f + 8#32)
      | .r3 => s.mem.word (f + 12#32)
      | .r12 => s.mem.word (f + 16#32)
      | .lr => s.mem.word (f + 20#32)
      | r => s.reg r
    pc := s.mem.word (f + 24#32)
    xpsr := x &&& ~~~0x200
    psp := if onPsp then unstacked f x else s.psp
    msp := if onPsp then s.msp else unstacked f x
    spsel := onPsp
    handler := false }

/-- `bx lr` in Handler mode: an exception return if lr is an EXC_RETURN, else a plain branch. -/
def bxLr (s : Cpu) : Cpu :=
  if s.reg .lr = excMsp then exceptionReturn s false
  else if s.reg .lr = excPsp then exceptionReturn s true
  else { s with pc := s.reg .lr }

@[simp] theorem excMsp_tst : excMsp &&& 4#32 = 0#32 := rfl
@[simp] theorem excPsp_tst : excPsp &&& 4#32 = 4#32 := rfl

/-- The registers an exception frame does not hold. -/
def Reg.calleeSaved : Reg → Bool
  | .r4 | .r5 | .r6 | .r7 | .r8 | .r9 | .r10 | .r11 => true
  | _ => false

section

variable {s e : Cpu} {b : Bool}

@[simp] theorem svcEntry_lr : (svcEntry s).reg .lr = if s.spsel then excPsp else excMsp := rfl
@[simp] theorem svcEntry_handler : (svcEntry s).handler = true := rfl
@[simp] theorem svcEntry_spsel : (svcEntry s).spsel = false := rfl
@[simp] theorem svcEntry_nPriv : (svcEntry s).nPriv = s.nPriv := rfl
@[simp] theorem svcEntry_psplim : (svcEntry s).psplim = s.psplim := rfl

theorem svcEntry_msp : (svcEntry s).msp = if s.usesPsp then s.msp else s.frame := rfl

theorem svcEntry_psp : (svcEntry s).psp = if s.usesPsp then s.frame else s.psp := rfl

theorem svcEntry_mem : (svcEntry s).mem = s.mem.setWords s.frame (s.reg .r0 :: s.frameTail) := rfl

/-- **Entry stacks the frame of the caller.** -/
theorem holds_svcEntry : (svcEntry s).mem.Holds s.frame (s.reg .r0 :: s.frameTail) :=
  WordMemory.holds_setWords (by simp [Cpu.frameTail])

theorem exceptionReturn_calleeSaved {r : Reg} (h : r.calleeSaved = true) :
    (exceptionReturn e b).reg r = e.reg r := by
  cases r <;> first | rfl | cases h

@[simp] theorem exceptionReturn_nPriv : (exceptionReturn e b).nPriv = e.nPriv := rfl
@[simp] theorem exceptionReturn_spsel : (exceptionReturn e b).spsel = b := rfl
@[simp] theorem exceptionReturn_handler : (exceptionReturn e b).handler = false := rfl
@[simp] theorem exceptionReturn_psplim : (exceptionReturn e b).psplim = e.psplim := rfl
@[simp] theorem exceptionReturn_mem : (exceptionReturn e b).mem = e.mem := rfl

/-- Alignment moves the stack pointer by what the stacked xPSR says. -/
theorem unstacked_frame (s : Cpu) : unstacked s.frame s.stackedXpsr = s.sp := by
  have hb : s.stackedXpsr[9] = s.sp[2] := by
    rw [Cpu.stackedXpsr]
    split_ifs with h
    · simp [h]
    · simp [h]
  rw [unstacked, hb, Cpu.frame, framePtr]
  split_ifs <;> bv_omega

theorem framePtr_bounds {sp : Word} (h : 36 ≤ sp.toNat) :
    (framePtr sp).toNat + 32 ≤ sp.toNat ∧ sp.toNat ≤ (framePtr sp).toNat + 36 := by
  rw [framePtr]
  split_ifs <;> bv_omega

theorem framePtr_aligned {sp : Word} (h4 : sp.toNat % 4 = 0) :
    (framePtr sp).toNat % 8 = 0 := by
  have hb : sp[2] = decide (sp.toNat / 2 ^ 2 % 2 = 1) := by
    rw [← BitVec.getLsbD_eq_getElem, BitVec.getLsbD, Nat.testBit_eq_decide_div_mod_eq]
  rw [framePtr, hb]
  simp only [decide_eq_true_eq]
  split_ifs <;> bv_omega

theorem framePtr_of_aligned {sp : Word} (h : sp.toNat % 8 = 0) : framePtr sp = sp - 32#32 := by
  have hb : sp[2] = false := by
    rw [← BitVec.getLsbD_eq_getElem, BitVec.getLsbD, Nat.testBit_eq_decide_div_mod_eq]
    simp only [decide_eq_false_iff_not]
    omega
  simp [framePtr, hb]

/-- A return from the frame of `s` moves the stack pointer back, whatever the other words are. -/
theorem return_sp (hf : (if b then e.psp else e.msp) = s.frame)
    (hx : e.mem.word (s.frame + 28#32) = s.stackedXpsr) :
    (exceptionReturn e b).msp = (if b then e.msp else s.sp) ∧
      (exceptionReturn e b).psp = if b then s.sp else e.psp := by
  simp only [exceptionReturn, hf, hx, unstacked_frame, and_self]

/-- **A return from the stacked frame of `s` gives back what the frame holds.** -/
theorem return_of_holds (hf : (if b then e.psp else e.msp) = s.frame)
    (h : e.mem.Holds (s.frame + 4#32) s.frameTail) :
    (exceptionReturn e b).reg .r0 = e.mem.word s.frame ∧
      (∀ r, r.calleeSaved = false → r ≠ .r0 → (exceptionReturn e b).reg r = s.reg r) ∧
      (exceptionReturn e b).pc = s.pc + 2#32 ∧
      (exceptionReturn e b).msp = (if b then e.msp else s.sp) ∧
      (exceptionReturn e b).psp = if b then s.sp else e.psp := by
  simp only [Cpu.frameTail, WordMemory.holds_cons, BitVec.add_assoc, BitVec.reduceAdd] at h
  obtain ⟨h1, h2, h3, h12, hlr, hpc, hx, -⟩ := h
  refine ⟨?_, fun r hr h0 => ?_, ?_, ?_, ?_⟩
  · simp only [exceptionReturn, hf]
  · cases r with
    | r0 => exact absurd rfl h0
    | r1 | r2 | r3 | r12 | lr => simp only [exceptionReturn, hf, h1, h2, h3, h12, hlr]
    | r4 | r5 | r6 | r7 | r8 | r9 | r10 | r11 => cases hr
  · simp only [exceptionReturn, hf, hpc]
  · simp only [exceptionReturn, hf, hx, unstacked_frame]
  · simp only [exceptionReturn, hf, hx, unstacked_frame]

end

end Armv8m
