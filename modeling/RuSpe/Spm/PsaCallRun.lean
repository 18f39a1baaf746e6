import RuSpe.Spm.SvcBrackets

set_option autoImplicit false

/-!
# A psa_call at any depth

Between SVC_PSA_CALL and the return from the thunk the SPM may start services that call it again.
The context of the caller on MSP survives all of that. The upper half of a frame on PSP is in the
memory of the calling service: the handler never writes it, but code that runs in between may.

* `Inside`, `Spares`: the steps of an open psa_call, and those that leave a range alone;
* `handler_outside`: what the handler writes outside of the stack of the SPM;
* **`psaCall_restored`**: the context of the caller after the return.
-/

namespace RuSpe.SvcRun

open Armv8m WordMemory

/-- The words above the stacked r3 of the frame of `s`. -/
def frameTop (s : Cpu) : List Word := [s.reg .r12, s.reg .lr, s.pc + 2#32, s.stackedXpsr]

/-- The bytes of these words. -/
def InTop (s : Cpu) (x : Word) : Prop := (x - (s.frame + 16#32)).toNat < 16

/-- The psa_call that opened the last bracket of `base` has not returned in the steps `tr`. -/
def Inside (base : List Open) (tr : List (Config × Act × Config)) : Prop :=
  ∀ e ∈ tr, base <:+ e.1.opens ∧ base <:+ e.2.2.opens

/-- The numbers that `svc_handler` itself handles, apart from SVC_PSA_CALL_RETURN. -/
def Handled (n : BitVec 8) : Prop :=
  n = svcStartProcess ∨ n = svcProcessExit ∨ n = svcPsaCall

/-- Neither code that runs in the step nor `svc_handler_dispatch` writes in `K`, and no frame of a
service is stacked there. What `svc_handler` writes is not restricted. -/
def Spares (K : Word → Prop) (c : Config) : Act → Config → Prop
  | .run, c' => ∀ x, K x → c'.cpu.mem x = c.cpu.mem x
  | .svc n, c' => (c.cpu.spsel = true → ∀ x, K x → 32 ≤ (x - c.cpu.frame).toNat) ∧
      (¬ Handled n → ∀ x, K x → c'.cpu.mem x = c.cpu.mem x)
  | .callReturn _, _ => True

variable {lo hi : ℕ} {thunk p : Word} {c c' c₀ c₁ c₂ : Config} {a : Act}
  {tr tr₀ : List (Config × Act × Config)} {dispatch : Cpu → Cpu} {K : Word → Prop} {x : Word}

theorem Inv.msp_le (h : Inv lo hi c) : c.cpu.msp.toNat ≤ hi := by
  have hf := h.fits
  have hn := h.nested
  cases ho : c.opens with
  | nil =>
    rw [ho] at hf
    exact hf.2
  | cons o os =>
    have hw := words_above h.fits h.nested o (by simp [ho])
    omega

/-- The frame that the handler finds on MSP is in the stack of the SPM. -/
theorem Inv.entry_le (h : Inv lo hi c) (hr : Room lo hi c.cpu) :
    (svcEntry c.cpu).msp.toNat + 32 ≤ hi ∧ (svcEntry c.cpu).msp.toNat + 32 ≤ 2 ^ 32 := by
  have hhi := h.msp_le
  have hlt := c.cpu.msp.isLt
  rcases h.fits.mode with hs | hs
  · have hfr := hr.frame hs.usesPsp
    rw [hs.entry_msp]
    omega
  · obtain ⟨s', os, ho, hmsp⟩ := hs.open_start h.fits
    have hw := words_above h.fits h.nested (.start s') (by simp [ho])
    simp only [Open.words, Open.floor, Cpu.frameTail, List.length_cons, List.length_nil] at hw
    have hn := h.nested
    rw [ho] at hn
    have hspm : Spm s' := hn.2.2.1 s' rfl
    rw [hspm.entry_msp] at hw
    rw [hs.entry_msp, hmsp]
    bv_omega

/-! ## What the handler writes -/

/-- Outside of the stack of the SPM exception entry writes the frame of a service only. -/
theorem entry_outside (h : Inv lo hi c) (hr : Room lo hi c.cpu)
    (hx : x.toNat < lo ∨ hi ≤ x.toNat)
    (hp : c.cpu.spsel = true → 32 ≤ (x - c.cpu.frame).toNat) :
    (svcEntry c.cpu).mem x = c.cpu.mem x := by
  rw [svcEntry_mem]
  refine setWords_of_le (by simp [Cpu.frameTail]) ?_
  simp only [Cpu.frameTail, List.length_cons, List.length_nil]
  rcases h.fits.mode with hs | hs
  · have hfr := hr.frame hs.usesPsp
    have hhi := h.msp_le
    bv_omega
  · exact hp hs.spsel

/-- The handler itself writes nothing outside of the stack of the SPM. -/
theorem handler_outside (h : Inv lo hi c) (hr : Room lo hi c.cpu)
    (hn : Handled (svcNumber c.cpu)) (hx : x.toNat < lo ∨ hi ≤ x.toNat) :
    (afterSvc thunk dispatch c.cpu).mem x = (svcEntry c.cpu).mem x := by
  have hent := hr.entry
  have hle := h.entry_le hr
  have hth := h.fits.thread
  rcases hn with hn | hn | hn
  · rw [afterSvc, if_neg (by rw [hn]; decide), startProcess_returns hth hn, exec_startProcess]
    rfl
  · rw [afterSvc, if_neg (by rw [hn]; decide), processExit_returns thunk dispatch hth hn,
      exceptionReturn_mem, exec_processExit]
    exact set_of_le (by rw [svcEntered_msp]; bv_omega)
  · obtain ⟨v0, v1, v2, v3, m, hm, hmem, hmsp, -, -, hsel, -⟩ :=
      psaCall_enters thunk dispatch hth hn
    have hu : (supervisorCall thunk dispatch c.cpu).usesPsp = false := by
      simp [Cpu.usesPsp, hsel]
    rw [afterSvc, if_pos hn, exec_psaCallThunk hu]
    simp only [Cpu.setReg_mem, Cpu.storeWords_mem, Cpu.setSp_mem, hmem, hmsp, hm]
    rw [setWords_of_le (by simp), setWords_of_le (by simp [thunkFrame]),
      setWords_of_le (by simp [Open.saved])]
    · simp only [Open.saved, List.length_cons, List.length_nil]
      bv_omega
    · simp only [thunkFrame, List.cons_append, List.nil_append, List.length_cons, List.length_nil]
      bv_omega
    · simp only [List.length_cons, List.length_nil]
      bv_omega

/-! ## The steps of an open psa_call -/

/-- The open brackets end with `base`, the psa_calls above it stack no frame in `K`, and `K` is as
in `m`. -/
structure Inv.Spared (base : List Open) (K : Word → Prop) (m : WordMemory) (c : Config) : Prop where
  above : ∃ pre, c.opens = pre ++ base ∧
    ∀ t, .call t ∈ pre → t.spsel = true → ∀ x, K x → 32 ≤ (x - t.frame).toNat
  same : ∀ x, K x → c.cpu.mem x = m x

variable {base : List Open} {m : WordMemory}

theorem opensAfter_cases {s : Cpu} {os : List Open} : opensAfter s os = .call s :: os ∨
    opensAfter s os = .start s :: os ∨ opensAfter s os = os.tail ∨ opensAfter s os = os := by
  rw [opensAfter]
  split_ifs <;> simp

/-- A bracket that closes while `base` stays open lies above it. -/
theorem tail_of_suffix {pre : List Open} (h : base <:+ (pre ++ base).tail) :
    ∃ pre', (pre ++ base).tail = pre' ++ base ∧ ∀ o ∈ pre', o ∈ pre := by
  cases pre with
  | nil =>
    have hl := h.length_le
    rw [List.nil_append, List.length_tail] at hl
    have hnil : base = [] := List.length_eq_zero_iff.mp (by omega)
    exact ⟨[], by simp [hnil], by simp⟩
  | cons o pre => exact ⟨pre, rfl, fun o' ho' => List.mem_cons_of_mem _ ho'⟩

/-- **A step of an open psa_call that spares `K` keeps it.** -/
theorem spared_step (hK : ∀ x, K x → x.toNat < lo ∨ hi ≤ x.toNat) (h : Inv lo hi c)
    (hsp : Inv.Spared base K m c) (hst : Step lo hi thunk c a c')
    (ha : a ≠ .svc svcPsaCallReturn) (hin : base <:+ c'.opens) (hs : Spares K c a c') :
    Inv.Spared base K m c' := by
  obtain ⟨⟨pre, ho, hpre⟩, hsame⟩ := hsp
  cases hst with
  | spm t _ _ _ _ => exact ⟨⟨pre, ho, hpre⟩, fun x hx => (hs x hx).trans (hsame x hx)⟩
  | service t _ _ _ _ => exact ⟨⟨pre, ho, hpre⟩, fun x hx => (hs x hx).trans (hsame x hx)⟩
  | svc dispatch hr hd =>
    have hsame' : ∀ x, K x → (afterSvc thunk dispatch c.cpu).mem x = m x := by
      intro x hx
      by_cases hn : Handled (svcNumber c.cpu)
      · rw [handler_outside h hr hn (hK x hx),
          entry_outside h hr (hK x hx) fun hsel => hs.1 hsel x hx, hsame x hx]
      · exact (hs.2 hn x hx).trans (hsame x hx)
    refine ⟨?_, hsame'⟩
    change ∃ pre, opensAfter c.cpu c.opens = pre ++ base ∧ _
    change base <:+ opensAfter c.cpu c.opens at hin
    rcases @opensAfter_cases c.cpu c.opens with hop | hop | hop | hop
    · refine ⟨.call c.cpu :: pre, by rw [hop, ho, List.cons_append], fun t ht hsel x hx => ?_⟩
      rcases List.mem_cons.mp ht with ht | ht
      · cases ht
        exact hs.1 hsel x hx
      · exact hpre t ht hsel x hx
    · refine ⟨.start c.cpu :: pre, by rw [hop, ho, List.cons_append], fun t ht hsel x hx => ?_⟩
      rcases List.mem_cons.mp ht with ht | ht
      · cases ht
      · exact hpre t ht hsel x hx
    · rw [hop, ho] at hin ⊢
      obtain ⟨pre', hpre', hsub⟩ := tail_of_suffix hin
      exact ⟨pre', hpre', fun t ht => hpre t (hsub _ ht)⟩
    · exact ⟨pre, by rw [hop, ho], hpre⟩
  | callReturn s opens dispatch p hop hspm hm hn =>
    have hat : AtReturn lo hi c s opens p := ⟨h, hop, hspm, hm, hn⟩
    obtain ⟨hf, hr, hnest⟩ := hat.nested
    change base <:+ opens at hin
    have htail : opens = (pre ++ base).tail := by rw [← ho, hop, List.tail_cons]
    have hmem : .call s ∈ pre := by
      cases pre with
      | nil =>
        have hl := hin.length_le
        rw [List.nil_append] at ho
        rw [← ho, hop, List.length_cons] at hl
        omega
      | cons o pre =>
        rw [hop, List.cons_append] at ho
        injection ho with ho
        exact ho ▸ List.mem_cons_self
    obtain ⟨pre', hpre', hsub⟩ := tail_of_suffix (htail ▸ hin)
    refine ⟨⟨pre', htail.trans hpre', fun t ht => hpre t (hsub _ ht)⟩, fun x hx => ?_⟩
    have hent := hr.entry
    have hw := words_above h.fits h.nested (.call s) (by simp [hop])
    rw [Open.words_call, Open.floor] at hw
    have hout := hK x hx
    have hlen : 16 ≤ 4 * (Open.call s).words.2.length := by
      simp only [Open.words]
      split_ifs <;> simp [Open.saved, Cpu.frameTail]
    rw [← hsame x hx]
    change (supervisorCall thunk dispatch (thunkEnd c.cpu p)).mem x = c.cpu.mem x
    rw [callReturn_returns hat, exceptionReturn_mem]
    refine (psaReturn_restores hat).writes x ?_ (by bv_omega)
    rcases hf.mode with hms | hms
    · have hfr := hr.frame hms.usesPsp
      have hl : (Open.call s).words.2.length = 12 := by
        simp [Open.words, hms.spsel, Open.saved, Cpu.frameTail]
      rw [hms.entry_msp, hl] at hw
      bv_omega
    · have := hpre s hmem hms.spsel x hx
      omega

/-- The steps of an open psa_call that all spare `K` keep it. -/
theorem spared_run (hK : ∀ x, K x → x.toNat < lo ∨ hi ≤ x.toNat) (h : Inv lo hi c)
    (hsp : Inv.Spared base K m c) (hrun : Run lo hi thunk c tr c')
    (ht : ∀ e ∈ tr, e.2.1 ≠ .svc svcPsaCallReturn) (hin : Inside base tr)
    (hs : ∀ e ∈ tr, Spares K e.1 e.2.1 e.2.2) :
    Inv lo hi c' ∧ Inv.Spared base K m c' := by
  induction hrun with
  | nil => exact ⟨h, hsp⟩
  | snoc hrun hst ih =>
    simp only [Inside, List.forall_mem_append, List.forall_mem_singleton] at ht hin hs
    obtain ⟨hinv, hspared⟩ := ih ht.1 hin.1 hs.1
    exact ⟨inv_step hinv hst ht.2, spared_step hK hinv hspared hst ht.2 hin.2.2 hs.2⟩

/-! ## The context of the caller -/

/-- A psa_call: the SPM boots, the caller issues SVC_PSA_CALL in `c`, and `handle_svc` returns to
the thunk in `c₂` with the stack pointer it was called with. Nobody but the thunk issues
SVC_PSA_CALL_RETURN. -/
structure PsaCall (lo hi : ℕ) (thunk : Word) (c c₁ c₂ : Config)
    (tr : List (Config × Act × Config)) (p : Word) : Prop where
  boot : ∃ c₀ tr₀, Boots hi c₀ ∧ Run lo hi thunk c₀ tr₀ c ∧
    ∀ e ∈ tr₀, e.2.1 ≠ .svc svcPsaCallReturn
  call : Step lo hi thunk c (.svc svcPsaCall) c₁
  run : Run lo hi thunk c₁ tr c₂
  direct : ∀ e ∈ tr, e.2.1 ≠ .svc svcPsaCallReturn
  inside : Inside c₁.opens tr
  opens : c₂.opens = c₁.opens
  spm : Spm c₂.cpu
  sp : c₂.cpu.msp = c₁.cpu.msp
  number : svcNumber (thunkEnd c₂.cpu p) = svcPsaCallReturn

/-- The handler state of SVC_PSA_CALL_RETURN when it returns. -/
def returned (c₂ : Config) (p : Word) : Cpu := exec psaReturn (svcEntered (thunkEnd c₂.cpu p))

section

variable (h : PsaCall lo hi thunk c c₁ c₂ tr p)
include h

theorem PsaCall.entered : Inv lo hi c ∧ Room lo hi c.cpu ∧ svcNumber c.cpu = svcPsaCall ∧
    (∃ dispatch, c₁ = ⟨afterSvc thunk dispatch c.cpu, .call c.cpu :: c.opens⟩) ∧ Inv lo hi c₁ := by
  obtain ⟨c₀, tr₀, hb, hrun, hd⟩ := h.boot
  have hinv := inv_run (.of_boots hb) hrun hd
  have hcall := h.call
  have hinv' := inv_step hinv hcall (by decide)
  generalize ha : Act.svc svcPsaCall = a at hcall
  cases hcall with
  | spm | service | callReturn => cases ha
  | svc dispatch hr hd =>
    have hn : svcNumber c.cpu = svcPsaCall := by
      injection ha with ha
      exact ha.symm
    refine ⟨hinv, hr, hn, ⟨dispatch, ?_⟩, hinv'⟩
    simp only [opensAfter, hn, if_true]

theorem PsaCall.atReturn : AtReturn lo hi c₂ c.cpu c.opens p := by
  obtain ⟨hinv, -, hn, ⟨dispatch, hc⟩, hinv₁⟩ := h.entered
  refine ⟨inv_run hinv₁ h.run h.direct, ?_, h.spm, ?_, h.number⟩
  · rw [h.opens, hc]
  · rw [h.sp, hc, afterSvc, if_pos hn]
    exact (psaCall_handles thunk dispatch hinv.fits.thread hn).1

/-- The upper half of a frame on MSP is kept with the bracket. -/
theorem PsaCall.top_of_spm (hs : Spm c.cpu) :
    c₂.cpu.mem.Holds (c.cpu.frame + 16#32) (frameTop c.cpu) := by
  have hat := h.atReturn
  have hh := hs.holds_call.mp (hat.inv.holds (.call c.cpu) (by simp [hat.opens]))
  simp only [Cpu.frameTail, frameTop, holds_cons, BitVec.add_assoc, BitVec.reduceAdd] at hh ⊢
  exact hh.2.2.2.2.2

/-- The upper half of a frame on PSP is kept if all steps spare it. -/
theorem PsaCall.top_of_spares (hs : Service c.cpu)
    (hsp : ∀ e ∈ tr, Spares (InTop c.cpu) e.1 e.2.1 e.2.2) :
    c₂.cpu.mem.Holds (c.cpu.frame + 16#32) (frameTop c.cpu) := by
  obtain ⟨hinv, hr, hn, ⟨dispatch, hc⟩, hinv₁⟩ := h.entered
  have hK : ∀ x, InTop c.cpu x → x.toNat < lo ∨ hi ≤ x.toNat := by
    intro x hx
    have hpsp := hr.psp hs.spsel
    rw [InTop] at hx
    bv_omega
  have hmem : ∀ x, InTop c.cpu x → c₁.cpu.mem x = (svcEntry c.cpu).mem x := by
    intro x hx
    rw [hc]
    exact handler_outside hinv hr (.inr (.inr hn)) (hK x hx)
  have hspared : Inv.Spared c₁.opens (InTop c.cpu) (svcEntry c.cpu).mem c₁ :=
    ⟨⟨[], rfl, by simp⟩, hmem⟩
  obtain ⟨-, hsame⟩ := spared_run hK hinv₁ hspared h.run h.direct h.inside hsp
  have htop : (svcEntry c.cpu).mem.Holds (c.cpu.frame + 16#32) (frameTop c.cpu) := by
    have hh := holds_svcEntry (s := c.cpu)
    simp only [Cpu.frameTail, frameTop, holds_cons, BitVec.add_assoc, BitVec.reduceAdd] at hh ⊢
    exact hh.2.2.2.2
  exact htop.of_agreeOn (fun x hx => hsame.same x hx) (by simp [frameTop])

/-- **The context of the caller of a psa_call is restored**, but for the upper half of a frame on
PSP, which is as it was if nothing that ran in between wrote it. -/
theorem psaCall_restored : Restores c.cpu c₂.cpu (returned c₂ p) ∧
    ((c.cpu.spsel = true → ∀ e ∈ tr, Spares (InTop c.cpu) e.1 e.2.1 e.2.2) →
      (returned c₂ p).mem.Holds (c.cpu.frame + 16#32) (frameTop c.cpu)) := by
  refine ⟨psaReturn_restores h.atReturn, fun hsp => ?_⟩
  have htop : c₂.cpu.mem.Holds (c.cpu.frame + 16#32) (frameTop c.cpu) := by
    rcases h.entered.1.fits.mode with hs | hs
    · exact h.top_of_spm hs
    · exact h.top_of_spares hs (hsp hs.spsel)
  exact htop.of_agreeOn (psaReturn_rest h.atReturn) (by simp [frameTop])

end

/-! ## A service that calls itself -/

namespace Reentered

set_option maxRecDepth 4000

/-- The code of the `svc` instructions of the SPM, of two runs of the service, and of the thunk. -/
def code : WordMemory := fun x =>
  if x = 0x1000 then 3 else if x = 0x3000 then 4 else if x = 0x4000 then 7
  else if x = 0x1001 ∨ x = 0x3001 ∨ x = 0x3101 ∨ x = 0x4001 then 0xDF else 0

/-- The frame that `svc_call_unpriv` builds for a service that begins at `pc`. -/
def fakeFrame (pc : Word) : List Word := [0, 0, 0, 0, 0, 0xFFFFFFFF, pc, 0x1000000]

def boot : Config where
  cpu :=
    { reg _ := 0, pc := 0x1000, xpsr := 0x1000000, msp := 0x20001000, psp := 0x20003000
      psplim := 0x20002800, nPriv := false, spsel := false, handler := false, z := false
      mem := code.setWords 0x20003000 (fakeFrame 0x3000) }
  opens := []

/-- The service runs; its first instruction is `svc 4`. -/
def calling : Config := ⟨afterSvc 0x5000 id boot.cpu, [.start boot.cpu]⟩

def entered : Config := ⟨afterSvc 0x5000 id calling.cpu, [.call calling.cpu, .start boot.cpu]⟩

/-- The SPM has built the frame of the second run of the service, on top of the same stack. -/
def staged : Config where
  cpu :=
    { entered.cpu with
      pc := 0x1000, psp := 0x20003000
      mem := entered.cpu.mem.setWords 0x20003000 (fakeFrame 0x3100) }
  opens := entered.opens

/-- The second run of the service; its first instruction is `svc 0`. -/
def again : Config := ⟨afterSvc 0x5000 id staged.cpu, .start staged.cpu :: entered.opens⟩

def exited : Config := ⟨afterSvc 0x5000 id again.cpu, entered.opens⟩

def trace : List (Config × Act × Config) :=
  [(entered, .run, staged), (staged, .svc svcStartProcess, again),
    (again, .svc svcProcessExit, exited)]

/-- An `svc` of the runs here. -/
theorem step {c c' : Config} {n : BitVec 8} (hr : Room 0x20000000 0x20002000 c.cpu)
    (hn : svcNumber c.cpu = n) (ho : c'.opens = opensAfter c.cpu c.opens)
    (hc : c'.cpu = afterSvc 0x5000 id c.cpu) :
    Step 0x20000000 0x20002000 0x5000 c (.svc n) c' := by
  have h : Step 0x20000000 0x20002000 0x5000 c (.svc (svcNumber c.cpu))
      ⟨afterSvc 0x5000 id c.cpu, opensAfter c.cpu c.opens⟩ :=
    .svc c id hr ⟨rfl, rfl, rfl, fun _ _ _ _ => rfl, fun _ _ _ => rfl⟩
  rw [hn, ← ho, ← hc] at h
  exact h

theorem step_boot : Step 0x20000000 0x20002000 0x5000 boot (.svc svcStartProcess) calling := by
  refine step ⟨by decide, nofun⟩ (by decide) ?_ rfl
  rw [opensAfter, if_neg (by decide), if_neg (by decide), if_pos (by decide)]
  rfl

theorem step_call : Step 0x20000000 0x20002000 0x5000 calling (.svc svcPsaCall) entered := by
  refine step ⟨by decide, fun _ => .inr (by decide)⟩ (by decide) ?_ rfl
  rw [opensAfter, if_pos (by decide)]
  rfl

theorem step_stage : Step 0x20000000 0x20002000 0x5000 entered .run staged := by
  refine .spm entered staged.cpu ⟨by decide, by decide, by decide, by decide⟩
    ⟨⟨by decide, by decide, by decide, by decide⟩, by decide⟩
    ⟨by decide, by decide, by decide, by decide⟩ fun o ho => ?_
  have hbelow : ∀ o ∈ entered.opens, o.words.1.toNat + 4 * o.words.2.length ≤ 0x20003000 := by
    decide
  exact setWords_agreeOn (by decide) (Apart.of_le (hbelow o ho) (by decide)).symm

theorem step_again : Step 0x20000000 0x20002000 0x5000 staged (.svc svcStartProcess) again := by
  refine step ⟨by decide, nofun⟩ (by decide) ?_ (by rw [again])
  rw [opensAfter, if_neg (by decide), if_neg (by decide), if_pos (by decide)]
  rfl

theorem step_exit : Step 0x20000000 0x20002000 0x5000 again (.svc svcProcessExit) exited := by
  refine step ⟨by decide, fun _ => .inr (by decide)⟩ (by decide) ?_
    (by rw [exited])
  rw [opensAfter, if_neg (by decide), if_neg (by decide),
    if_neg (by decide), if_pos (by decide)]
  rfl

theorem boots : Boots 0x20002000 boot := ⟨rfl, ⟨rfl, rfl, rfl, by decide⟩, by decide⟩

theorem psaCall : PsaCall 0x20000000 0x20002000 0x5000 calling entered exited trace 0x4000 where
  boot := ⟨boot, [(boot, .svc svcStartProcess, calling)], boots, .snoc .nil step_boot,
    by simp⟩
  call := step_call
  run := .snoc (.snoc (.snoc .nil step_stage) step_again) step_exit
  direct := by simp [trace]
  inside := by
    simp only [Inside, trace, List.forall_mem_cons, List.not_mem_nil, false_imp_iff, implies_true,
      and_true]
    exact ⟨⟨⟨[], rfl⟩, ⟨[], rfl⟩⟩, ⟨⟨[], rfl⟩, ⟨[_], rfl⟩⟩, ⟨⟨[_], rfl⟩, ⟨[], rfl⟩⟩⟩
  opens := rfl
  spm := ⟨by decide, by decide, by decide, by decide⟩
  sp := by decide
  number := by decide

theorem not_holds : ¬ (returned exited 0x4000).mem.Holds (calling.cpu.frame + 16#32)
    (frameTop calling.cpu) := by
  intro h
  have hpc := h.2.2.1
  revert hpc
  decide

end Reentered

theorem psaCall_restored_reentered :
    Restores Reentered.calling.cpu Reentered.exited.cpu (returned Reentered.exited 0x4000) ∧
      ((Reentered.calling.cpu.spsel = true → ∀ e ∈ Reentered.trace,
          Spares (InTop Reentered.calling.cpu) e.1 e.2.1 e.2.2) →
        (returned Reentered.exited 0x4000).mem.Holds (Reentered.calling.cpu.frame + 16#32)
          (frameTop Reentered.calling.cpu)) :=
  psaCall_restored Reentered.psaCall

theorem not_psaCall_restored_always : ¬ ∀ (lo hi : ℕ) (thunk p : Word) (c c₁ c₂ : Config)
    (tr : List (Config × Act × Config)), PsaCall lo hi thunk c c₁ c₂ tr p →
      Restores c.cpu c₂.cpu (returned c₂ p) ∧
        (returned c₂ p).mem.Holds (c.cpu.frame + 16#32) (frameTop c.cpu) := by
  intro h
  exact Reentered.not_holds (h _ _ _ _ _ _ _ _ Reentered.psaCall).2

end RuSpe.SvcRun
