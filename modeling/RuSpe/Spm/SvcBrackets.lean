import RuSpe.Spm.PsaCallReturn

set_option autoImplicit false

/-!
# Brackets of SVCs

Over a whole run from boot, what the handler pops from MSP is what it pushed, as long as nobody but
`psa_call_thunk` issues SVC_PSA_CALL_RETURN: label 203 does not check who issued it.

* `Consumes`, `StepOk`: what a step pops, and what an `svc` of a service may change;
* `Boots`, `Run`: the runs;
* **`inv_step`**, `inv_run`: the brackets of a run;
* `not_consumes_of_direct`: an SVC_PSA_CALL_RETURN from elsewhere pops other words;
* **`stepOk_iff`**: a run is as it should be iff it has no such step.
-/

namespace RuSpe.SvcRun

open Armv8m WordMemory

/-- The SVC_PSA_CALL_RETURN issued in `t` pops a block that an open SVC_PSA_CALL pushed. -/
def Consumes (t : Cpu) (opens : List Open) : Prop :=
  ∃ s, .call s ∈ opens ∧ (svcEntry t).msp + 32#32 = (svcEntry s).msp - 16#32 ∧
    (svcEntry t).mem.Holds ((svcEntry t).msp + 32#32) (Open.saved s)

/-- What the `svc` with the number `n` of a service may do: exit to where the SPM started it, call
the SPM through the thunk, or go on as the same service with the same MSP. -/
def ServiceOk (thunk : Word) (c : Config) (n : BitVec 8) (c' : Config) : Prop :=
  if n = svcProcessExit then ∃ s, c.opens = .start s :: c'.opens ∧ Spm c'.cpu ∧
    c'.cpu.msp = s.msp ∧ c'.cpu.pc = s.pc + 2#32
  else if n = svcPsaCall then c'.opens = .call c.cpu :: c.opens ∧ Spm c'.cpu ∧
    c'.cpu.msp = c.cpu.msp - 48#32 ∧ c'.cpu.pc = thunk
  else Service c'.cpu ∧ c'.cpu.msp = c.cpu.msp

/-- A step pops only what was pushed, and an `svc` of a service does what it may. -/
def StepOk (thunk : Word) (c : Config) : Act → Config → Prop
  | .run, _ => True
  | .svc n, c' => (n = svcPsaCallReturn → Consumes c.cpu c.opens) ∧
      (Service c.cpu → ServiceOk thunk c n c')
  | .callReturn p, _ => Consumes (thunkEnd c.cpu p) c.opens

/-- The SPM boots: no bracket is open. -/
structure Boots (hi : ℕ) (c : Config) : Prop where
  opens : c.opens = []
  spm : Spm c.cpu
  msp : c.cpu.msp.toNat ≤ hi

/-- A run with its steps. -/
inductive Run (lo hi : ℕ) (thunk : Word) (c : Config) :
    List (Config × Act × Config) → Config → Prop
  | nil : Run lo hi thunk c [] c
  | snoc {tr : List (Config × Act × Config)} {c₁ c₂ : Config} {a : Act}
      (h : Run lo hi thunk c tr c₁) (hs : Step lo hi thunk c₁ a c₂) :
      Run lo hi thunk c (tr ++ [(c₁, a, c₂)]) c₂

variable {lo hi : ℕ} {thunk : Word} {c c' : Config} {a : Act} {tr : List (Config × Act × Config)}

/-! ## Steps -/

theorem Inv.of_boots (h : Boots hi c) : Inv lo hi c := by
  refine ⟨?_, ?_, ?_⟩
  · rw [h.opens]
    exact ⟨h.spm, h.msp⟩
  · rw [h.opens]
    trivial
  · rw [h.opens]
    nofun

theorem spm_not_service {s : Cpu} (h : Spm s) : ¬ Service s := fun h' => by
  have := h.spsel.symm.trans h'.spsel
  cases this

/-- An `svc` with any number but SVC_PSA_CALL_RETURN keeps the brackets, and one of a service does
what it may. -/
theorem inv_svc {dispatch : Cpu → Cpu} (h : Inv lo hi c) (hr : Room lo hi c.cpu)
    (hd : Dispatches c.opens c.cpu dispatch) (hn : svcNumber c.cpu ≠ svcPsaCallReturn) :
    Inv lo hi ⟨afterSvc thunk dispatch c.cpu, opensAfter c.cpu c.opens⟩ ∧
      (Service c.cpu → ServiceOk thunk c (svcNumber c.cpu)
        ⟨afterSvc thunk dispatch c.cpu, opensAfter c.cpu c.opens⟩) := by
  by_cases h4 : svcNumber c.cpu = svcPsaCall
  · have hinv := inv_psaCall thunk dispatch h hr h4
    obtain ⟨hmsp, hpc⟩ := psaCall_handles thunk dispatch h.fits.thread h4
    simp only [afterSvc, opensAfter, h4, if_true]
    refine ⟨hinv, fun hs => ⟨rfl, hinv.fits.1, ?_, hpc⟩⟩
    rw [hmsp, hs.entry_msp]
  have hafter : afterSvc thunk dispatch c.cpu = supervisorCall thunk dispatch c.cpu := if_neg h4
  rw [hafter]
  by_cases h3 : svcNumber c.cpu = svcStartProcess
  · rcases h.fits.mode with hs | hs
    · have hop : opensAfter c.cpu c.opens = .start c.cpu :: c.opens := by
        simp [opensAfter, h3, hs.nPriv]
      rw [hop]
      exact ⟨inv_startProcess h hr hs h3, fun hs' => absurd hs' (spm_not_service hs)⟩
    · have hop : opensAfter c.cpu c.opens = c.opens := by
        simp [opensAfter, h3, hs.nPriv]
      obtain ⟨hinv, hmsp, hsvc⟩ :=
        inv_startProcess_service thunk dispatch h hr hs h3
      rw [hop, h3]
      exact ⟨hinv, fun _ => ⟨hsvc, hmsp⟩⟩
  by_cases h0 : svcNumber c.cpu = svcProcessExit
  · rcases h.fits.mode with hs | hs
    · have hop : opensAfter c.cpu c.opens = c.opens := by
        simp [opensAfter, h0, hs.nPriv]
      rw [hop]
      exact ⟨inv_processExit_spm h hr hs h0, fun hs' => absurd hs' (spm_not_service hs)⟩
    · have hop : opensAfter c.cpu c.opens = c.opens.tail := by
        simp [opensAfter, h0, hs.nPriv]
      obtain ⟨s, os, ho, hinv, hmsp, hpc, hspm⟩ :=
        inv_processExit thunk dispatch h hr hs h0
      rw [hop, h0, ho]
      exact ⟨hinv, fun _ => ⟨s, ho, hspm, hmsp, hpc⟩⟩
  · have hop : opensAfter c.cpu c.opens = c.opens := by
      simp only [opensAfter, h4, hn, h3, h0, if_false, false_and]
    obtain ⟨hinv, hmsp, hsvc⟩ := inv_dispatch thunk h hr hd h3 h0 h4 hn
    rw [hop]
    refine ⟨hinv, fun hs => ?_⟩
    rw [ServiceOk, if_neg h0, if_neg h4]
    exact ⟨hsvc hs, hmsp⟩

/-- **Every step but a direct SVC_PSA_CALL_RETURN keeps the brackets.** -/
theorem inv_step (h : Inv lo hi c) (hst : Step lo hi thunk c a c')
    (ha : a ≠ .svc svcPsaCallReturn) : Inv lo hi c' := by
  cases hst with
  | spm t hs ht h' hk => exact ⟨ht, h.nested, fun o ho => (h.holds o ho).of_kept (hk o ho)⟩
  | service t hs h' hm hk =>
    refine ⟨h.fits.congr hm (fun h'' => absurd hs (spm_not_service h'')) fun _ => h', h.nested,
      fun o ho => (h.holds o ho).of_kept fun x hx => ?_⟩
    have hw := words_above h.fits h.nested o ho
    exact hk x (by bv_omega) (by bv_omega)
  | svc dispatch hr hd => exact (inv_svc h hr hd fun hn => ha (by rw [hn])).1
  | callReturn s opens dispatch p ho hs hm hn => exact inv_callReturn ⟨h, ho, hs, hm, hn⟩

theorem Open.words_call (s : Cpu) : (Open.call s).words.1 = (svcEntry s).msp - 16#32 := by
  simp only [Open.words]
  split_ifs <;> rfl

/-- An SVC_PSA_CALL_RETURN that `psa_call_thunk` does not issue pops words that no open SVC_PSA_CALL
pushed. -/
theorem not_consumes_of_direct (h : Inv lo hi c) (hr : Room lo hi c.cpu) :
    ¬ Consumes c.cpu c.opens := by
  rintro ⟨s, hs, he, -⟩
  have habove {t : Cpu} {os : List Open} (hf : Fits hi t os) (hn : Nested lo hi os)
      (hso : .call s ∈ os) : t.msp.toNat + 32 ≤ ((svcEntry s).msp - 16#32).toNat := by
    have hw := words_above hf hn _ hso
    rw [Open.words_call, Open.floor] at hw
    bv_omega
  rcases h.fits.mode with hm | hm
  · have hfr := hr.frame hm.usesPsp
    have hle := habove h.fits h.nested hs
    rw [hm.entry_msp] at he
    bv_omega
  · obtain ⟨s', os, ho, hmsp⟩ := hm.open_start h.fits
    have hn := h.nested
    rw [ho] at hn hs
    obtain ⟨hf', hr', hs', hn'⟩ : Fits hi s' os ∧ Room lo hi s' ∧
      (∀ s, Open.start s' = .start s → Spm s) ∧ Nested lo hi os := hn
    have hfr := hr'.frame (hs' s' rfl).usesPsp
    have hle := habove hf' hn' (by simpa using hs)
    rw [hm.entry_msp, hmsp] at he
    bv_omega

theorem stepOk_of_inv (h : Inv lo hi c) (hst : Step lo hi thunk c a c')
    (ha : a ≠ .svc svcPsaCallReturn) : StepOk thunk c a c' := by
  cases hst with
  | spm | service => trivial
  | svc dispatch hr hd =>
    have hn : svcNumber c.cpu ≠ svcPsaCallReturn := fun hn => ha (by rw [hn])
    exact ⟨fun hn' => absurd hn' hn, (inv_svc h hr hd hn).2⟩
  | callReturn s opens dispatch p ho hs hm hn =>
    have hat : AtReturn lo hi c s opens p := ⟨h, ho, hs, hm, hn⟩
    have hb : (svcEntry (thunkEnd c.cpu p)).msp + 32#32 = (svcEntry s).msp - 16#32 := by
      rw [(thunkEnd_spm hat).entry_msp, thunkEnd_frame hat]
      bv_omega
    refine ⟨s, by simp [ho], hb, ?_⟩
    rw [hb]
    exact saved_entered hat

/-! ## Runs -/

theorem inv_run (h : Inv lo hi c) (hrun : Run lo hi thunk c tr c')
    (ht : ∀ e ∈ tr, e.2.1 ≠ .svc svcPsaCallReturn) : Inv lo hi c' := by
  induction hrun with
  | nil => exact h
  | snoc hrun hs ih =>
    have hinv := ih fun e he => ht e (List.mem_append_left _ he)
    exact inv_step hinv hs (ht _ (List.mem_append_right _ List.mem_cons_self))

/-- **In a run from boot every step is as it should be iff no SVC_PSA_CALL_RETURN comes from
elsewhere than the end of `psa_call_thunk`.** -/
theorem stepOk_iff (hb : Boots hi c) (hrun : Run lo hi thunk c tr c') :
    (∀ e ∈ tr, StepOk thunk e.1 e.2.1 e.2.2) ↔ ∀ e ∈ tr, e.2.1 ≠ .svc svcPsaCallReturn := by
  induction hrun with
  | nil => simp
  | snoc hrun hs ih =>
    simp only [List.forall_mem_append, List.forall_mem_singleton]
    rw [ih]
    refine and_congr_right fun htr => ?_
    have hinv := inv_run (.of_boots hb) hrun htr
    refine ⟨fun hok ha => ?_, stepOk_of_inv hinv hs⟩
    cases hs with
    | spm | service | callReturn => cases ha
    | svc dispatch hr hd => exact not_consumes_of_direct hinv hr (hok.1 (by injection ha))

/-! ## A service that issues SVC_PSA_CALL_RETURN -/

namespace Forged

/-- The SPM starts a service whose first instruction is `svc 7`. -/
def code : WordMemory := fun x =>
  if x = 0x1000 then 3 else if x = 0x1001 then 0xDF else if x = 0x3000 then 7
  else if x = 0x3001 then 0xDF else if x = 0x20003019 then 0x30 else 0

/-- What the SPM has on its stack above MSP. -/
def spmStack : List Word := [0x20003000, 0, 0, 0xFFFFFFFD]

def boot : Config where
  cpu :=
    { reg _ := 0, pc := 0x1000, xpsr := 0x1000000, msp := 0x20001000, psp := 0x20003000
      psplim := 0x20002800, nPriv := false, spsel := false, handler := false, z := false
      mem := code.setWords 0x20001000 spmStack }
  opens := []

def started : Config := ⟨afterSvc 0x5000 id boot.cpu, opensAfter boot.cpu boot.opens⟩

def forged : Config := ⟨afterSvc 0x5000 id started.cpu, opensAfter started.cpu started.opens⟩

/-- The steps of the run. -/
def trace : List (Config × Act × Config) :=
  [(boot, .svc (svcNumber boot.cpu), started), (started, .svc (svcNumber started.cpu), forged)]

theorem boots : Boots 0x20002000 boot := ⟨rfl, ⟨rfl, rfl, rfl, by decide⟩, by decide⟩

theorem svcNumber_started : svcNumber started.cpu = svcPsaCallReturn := by decide

theorem opens_started : started.opens = [.start boot.cpu] := by
  change opensAfter boot.cpu [] = _
  rw [opensAfter, if_neg (by decide), if_neg (by decide), if_pos (by decide)]

theorem dispatches (opens : List Open) (s : Cpu) : Dispatches opens s id :=
  ⟨rfl, rfl, rfl, fun _ _ _ _ => rfl, fun _ _ _ => rfl⟩

theorem run : Run 0x20000000 0x20002000 0x5000 boot trace forged := by
  have h : Run 0x20000000 0x20002000 0x5000 boot
      [(boot, .svc (svcNumber boot.cpu), started)] started :=
    .snoc .nil (.svc boot id ⟨by decide, nofun⟩ (dispatches _ _))
  exact .snoc h (.svc started id ⟨by decide, fun _ => .inr (by decide)⟩ (dispatches _ _))

end Forged

theorem stepOk_iff_forged :
    (∀ e ∈ Forged.trace, StepOk 0x5000 e.1 e.2.1 e.2.2) ↔
      ∀ e ∈ Forged.trace, e.2.1 ≠ .svc svcPsaCallReturn :=
  stepOk_iff Forged.boots Forged.run

theorem not_stepOk_always : ¬ ∀ (lo hi : ℕ) (thunk : Word) (c c' : Config)
    (tr : List (Config × Act × Config)), Boots hi c → Run lo hi thunk c tr c' →
      ∀ e ∈ tr, StepOk thunk e.1 e.2.1 e.2.2 := by
  intro h
  obtain ⟨hs, -⟩ := h _ _ _ _ _ _ Forged.boots Forged.run
    (Forged.started, .svc (svcNumber Forged.started.cpu), Forged.forged) (by simp [Forged.trace])
  obtain ⟨s, hs, -⟩ := hs Forged.svcNumber_started
  rw [Forged.opens_started] at hs
  simp at hs

-- The service goes on after its `svc`, privileged and with MSP moved.
example : Forged.forged.cpu.nPriv = false ∧ Forged.forged.cpu.pc = 0x3002 ∧
    Forged.forged.cpu.msp = 0x20001010 := by decide

end RuSpe.SvcRun
