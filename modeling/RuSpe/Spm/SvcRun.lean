import RuSpe.Spm.ServiceRun

set_option autoImplicit false

/-!
# Runs of the SVC handler

The SPM and its services run in turn on one core. Every SVC_START_PROCESS of the SPM opens a
bracket that SVC_PROCESS_EXIT of the service closes, and every SVC_PSA_CALL opens one that the `svc`
at the end of `psa_call_thunk` closes. What an open bracket needs lies on MSP.

* `Open`, `Open.Holds`: an open bracket and its words on MSP;
* `Config`, `Step`: the core with its open brackets, and its steps;
* `Fits`, `Nested`, `Inv`: the brackets lie one below the other, and their words are there;
* `inv_startProcess`, `inv_processExit`, `inv_dispatch`, **`inv_psaCall`**: the steps keep this.
-/

namespace RuSpe.SvcRun

open Armv8m WordMemory

/-! ## Brackets -/

/-- An open bracket, with the core at the `svc` that opened it. -/
inductive Open
  | start (s : Cpu)
  | call (s : Cpu)

namespace Open

/-- The core at the `svc`. -/
def site : Open → Cpu
  | start s => s
  | call s => s

/-- MSP where the code inside the bracket begins: below the frame of a caller on MSP and, in a
psa_call, below the saved block and the frame of the thunk. -/
def floor : Open → Word
  | start s => (svcEntry s).msp
  | call s => (svcEntry s).msp - 48#32

/-- The block that SVC_PSA_CALL saves for `s`. -/
def saved (s : Cpu) : List Word :=
  [s.frame, (svcEntry s).control, s.psplim, (svcEntry s).reg .lr]

/-- What lies on MSP for the bracket. -/
def words : Open → Word × List Word
  | start s => (s.frame + 4#32, s.frameTail)
  | call s =>
    if s.spsel then ((svcEntry s).msp - 16#32, saved s)
    else ((svcEntry s).msp - 16#32, saved s ++ s.reg .r0 :: s.frameTail)

/-- The words of the bracket are there. -/
def Holds (m : WordMemory) (o : Open) : Prop := m.Holds o.words.1 o.words.2

/-- The bytes of the bracket are the same in both memories. -/
def Kept (m m' : WordMemory) (o : Open) : Prop := m.AgreeOn m' o.words.1 (4 * o.words.2.length)

end Open

/-! ## Steps -/

/-- The core and its open brackets, innermost first. -/
structure Config where
  cpu : Cpu
  opens : List Open

/-- The SPM runs: privileged Thread mode on MSP. -/
structure Spm (s : Cpu) : Prop where
  thread : s.handler = false
  nPriv : s.nPriv = false
  spsel : s.spsel = false
  aligned : s.msp.toNat % 4 = 0

/-- A service runs: unprivileged Thread mode on PSP. -/
structure Service (s : Cpu) : Prop where
  thread : s.handler = false
  nPriv : s.nPriv = true
  spsel : s.spsel = true

section

variable (lo hi : ℕ)

/-- The core runs inside the brackets: a service where SVC_START_PROCESS left MSP, the SPM anywhere
below the last bracket. -/
def Fits (s : Cpu) : List Open → Prop
  | [] => Spm s ∧ s.msp.toNat ≤ hi
  | .start s' :: _ => Service s ∧ s.msp = s'.frame
  | .call s' :: _ => Spm s ∧ s.msp.toNat ≤ (Open.call s').floor.toNat

/-- An `svc` can be stacked: MSP has room for what the handler and the thunk push, and the frame of
a service is on its own stack, outside of the stack of the SPM. -/
structure Room (s : Cpu) : Prop where
  msp : lo + 84 ≤ s.msp.toNat
  psp : s.spsel = true → s.frame.toNat + 32 ≤ lo ∨ hi ≤ s.frame.toNat ∧ s.frame.toNat + 32 ≤ 2 ^ 32

/-- `svc_handler_dispatch` at the handler state of `s`: it returns as it was called, and writes
neither an open bracket nor, on MSP, more of the frame than r0 to r3. -/
structure Dispatches (opens : List Open) (s : Cpu) (dispatch : Cpu → Cpu) : Prop where
  lr : (dispatch (svcEntered s)).reg .lr = (svcEntered s).reg .lr
  nPriv : (dispatch (svcEntered s)).nPriv = s.nPriv
  msp : (dispatch (svcEntered s)).msp = (svcEntered s).msp
  kept : ∀ o ∈ opens, o.Kept (svcEntered s).mem (dispatch (svcEntered s)).mem
  xpsr : s.spsel = false →
    (svcEntered s).mem.AgreeOn (dispatch (svcEntered s)).mem (s.frame + 28#32) 4

/-- What a step does. -/
inductive Act
  | run
  | svc (n : BitVec 8)
  | callReturn (p : Word)
  deriving DecidableEq

/-- The core after the `svc` in `s`. SVC_PSA_CALL goes on up to the call of `handle_svc`. -/
def afterSvc (thunk : Word) (dispatch : Cpu → Cpu) (s : Cpu) : Cpu :=
  if svcNumber s = svcPsaCall then exec psaCallThunk (supervisorCall thunk dispatch s)
  else supervisorCall thunk dispatch s

/-- The brackets after the `svc` in `s`. -/
def opensAfter (s : Cpu) (opens : List Open) : List Open :=
  if svcNumber s = svcPsaCall then .call s :: opens
  else if svcNumber s = svcPsaCallReturn then opens.tail
  else if svcNumber s = svcStartProcess ∧ s.nPriv = false then .start s :: opens
  else if svcNumber s = svcProcessExit ∧ s.nPriv = true then opens.tail
  else opens

/-- The core at the `svc` of `psa_call_thunk`, which is at `p`, once `handle_svc` returned in `s`. -/
def thunkEnd (s : Cpu) (p : Word) : Cpu := { exec psaCallThunkEnd s with pc := p }

/-- One step. The SPM keeps the brackets, a service keeps the stack of the SPM. -/
inductive Step (thunk : Word) : Config → Act → Config → Prop
  | spm (c : Config) (t : Cpu) (hs : Spm c.cpu) (ht : Fits hi t c.opens) (h' : Spm t)
      (hk : ∀ o ∈ c.opens, o.Kept c.cpu.mem t.mem) : Step thunk c .run ⟨t, c.opens⟩
  | service (c : Config) (t : Cpu) (hs : Service c.cpu) (h' : Service t) (hm : t.msp = c.cpu.msp)
      (hk : ∀ x : Word, lo ≤ x.toNat → x.toNat < hi → t.mem x = c.cpu.mem x) :
      Step thunk c .run ⟨t, c.opens⟩
  | svc (c : Config) (dispatch : Cpu → Cpu) (hr : Room lo hi c.cpu)
      (hd : Dispatches c.opens c.cpu dispatch) :
      Step thunk c (.svc (svcNumber c.cpu))
        ⟨afterSvc thunk dispatch c.cpu, opensAfter c.cpu c.opens⟩
  | callReturn (c : Config) (s : Cpu) (opens : List Open) (dispatch : Cpu → Cpu) (p : Word)
      (ho : c.opens = .call s :: opens) (hs : Spm c.cpu) (hm : c.cpu.msp = (Open.call s).floor)
      (hn : svcNumber (thunkEnd c.cpu p) = svcPsaCallReturn) :
      Step thunk c (.callReturn p) ⟨supervisorCall thunk dispatch (thunkEnd c.cpu p), opens⟩

/-- The brackets lie one below the other. -/
def Nested : List Open → Prop
  | [] => True
  | o :: os => Fits hi o.site os ∧ Room lo hi o.site ∧ (∀ s, o = .start s → Spm s) ∧ Nested os

/-! ## Where the brackets lie -/

variable {lo hi} {s t : Cpu} {o : Open} {os : List Open} {m m' : WordMemory}

theorem Room.frame (hr : Room lo hi s) (hp : s.usesPsp = false) :
    lo + 48 ≤ s.frame.toNat ∧ s.frame.toNat + 32 ≤ s.msp.toNat := by
  have h1 := hr.msp
  have hsp : s.sp = s.msp := by simp [Cpu.sp, hp]
  have hb := framePtr_bounds (show 36 ≤ s.msp.toNat by omega)
  rw [Cpu.frame, hsp]
  omega

/-- Where the handler finds MSP. -/
theorem Room.entry (hr : Room lo hi s) :
    lo + 48 ≤ (svcEntry s).msp.toNat ∧ (svcEntry s).msp.toNat ≤ s.msp.toNat := by
  rw [svcEntry_msp]
  cases hp : s.usesPsp with
  | true =>
    have := hr.msp
    simp only [if_true]
    omega
  | false =>
    have := hr.frame hp
    simp only [Bool.false_eq_true, if_false]
    omega

theorem Spm.usesPsp (h : Spm s) : s.usesPsp = false := by simp [Cpu.usesPsp, h.spsel]

theorem Spm.sp_eq (h : Spm s) : s.sp = s.msp := by simp [Cpu.sp, h.usesPsp]

theorem Spm.entry_msp (h : Spm s) : (svcEntry s).msp = s.frame := by
  simp [svcEntry_msp, h.usesPsp]

/-- For a caller on MSP the saved block and the frame above it are there. -/
theorem Spm.holds_call {m : WordMemory} (h : Spm s) : (Open.call s).Holds m ↔
    m.Holds (s.frame - 16#32) (Open.saved s) ∧ m.Holds s.frame (s.reg .r0 :: s.frameTail) := by
  have hend : s.frame - 16#32 + BitVec.ofNat 32 (4 * (Open.saved s).length) = s.frame :=
    BitVec.sub_add_cancel _ _
  simp only [Open.Holds, Open.words, h.spsel, Bool.false_eq_true, if_false, holds_append,
    h.entry_msp, hend]

theorem Service.usesPsp (h : Service s) : s.usesPsp = true := by
  simp [Cpu.usesPsp, h.spsel, h.thread]

theorem Service.entry_msp (h : Service s) : (svcEntry s).msp = s.msp := by
  simp [svcEntry_msp, h.usesPsp]

theorem Fits.mode (h : Fits hi s os) : Spm s ∨ Service s := by
  cases os with
  | nil => exact .inl h.1
  | cons o os =>
    cases o with
    | start s' => exact .inr h.1
    | call s' => exact .inl h.1

theorem Fits.thread (h : Fits hi s os) : s.handler = false := by
  rcases h.mode with h | h
  · exact h.thread
  · exact h.thread

/-- The handler finds MSP aligned to eight bytes. -/
theorem entry_aligned (h : Fits hi s os) (hn : Nested lo hi os) :
    (svcEntry s).msp.toNat % 8 = 0 := by
  have hspm {s : Cpu} (h : Spm s) : s.frame.toNat % 8 = 0 := by
    rw [Cpu.frame, h.sp_eq]
    exact framePtr_aligned h.aligned
  rcases h.mode with hs | hs
  · rw [hs.entry_msp]
    exact hspm hs
  · cases os with
    | nil => exact absurd h.1.spsel (by simp [hs.spsel])
    | cons o os =>
      cases o with
      | start s' =>
        rw [hs.entry_msp, h.2]
        exact hspm (hn.2.2.1 s' rfl)
      | call s' => exact absurd h.1.spsel (by simp [hs.spsel])

/-- The words of a bracket lie between its floor and MSP at its `svc`. -/
theorem words_within (hf : Fits hi o.site os) (hr : Room lo hi o.site)
    (hs : ∀ s, o = .start s → Spm s) :
    lo ≤ o.floor.toNat ∧ o.floor.toNat ≤ o.words.1.toNat ∧
      o.words.1.toNat + 4 * o.words.2.length ≤ o.site.msp.toNat := by
  have he := hr.entry
  cases o with
  | start s =>
    have hspm := hs s rfl
    have hfr := hr.frame hspm.usesPsp
    simp only [Open.site, Open.floor, Open.words, Cpu.frameTail, List.length_cons,
      List.length_nil, hspm.entry_msp] at *
    bv_omega
  | call s =>
    simp only [Open.site, Open.floor, Open.words] at *
    rcases hf.mode with hspm | hsvc
    · have hfr := hr.frame hspm.usesPsp
      simp only [hspm.spsel, Bool.false_eq_true, if_false, Open.saved, Cpu.frameTail,
        List.cons_append, List.nil_append, List.length_cons, List.length_nil,
        hspm.entry_msp] at *
      bv_omega
    · simp only [hsvc.spsel, if_true, Open.saved, List.length_cons, List.length_nil,
        hsvc.entry_msp] at *
      bv_omega

theorem Fits.msp_le (h : Fits hi s (o :: os)) (hr : Room lo hi o.site)
    (hs : ∀ s, o = .start s → Spm s) : s.msp.toNat ≤ o.floor.toNat := by
  cases o with
  | start s' => 
    rw [h.2, Open.floor, (hs s' rfl).entry_msp]
  | call s' => exact h.2

/-- Every bracket lies above MSP and inside the stack. -/
theorem words_above (h : Fits hi s os) (hn : Nested lo hi os) :
    ∀ o ∈ os, s.msp.toNat ≤ o.floor.toNat ∧ o.floor.toNat ≤ o.words.1.toNat ∧
      lo ≤ o.words.1.toNat ∧ o.words.1.toNat + 4 * o.words.2.length ≤ hi ∧
        o.words.1.toNat + 4 * o.words.2.length < 2 ^ 32 := by
  induction os generalizing s with
  | nil => simp
  | cons o os ih =>
    obtain ⟨hf, hr, hs, hn⟩ := hn
    have hw := words_within hf hr hs
    have hle := h.msp_le hr hs
    have hhi : o.site.msp.toNat ≤ hi ∧ ∀ o' ∈ os, o.site.msp.toNat ≤ o'.floor.toNat ∧
        o'.floor.toNat ≤ o'.words.1.toNat ∧ lo ≤ o'.words.1.toNat ∧
          o'.words.1.toNat + 4 * o'.words.2.length ≤ hi ∧
            o'.words.1.toNat + 4 * o'.words.2.length < 2 ^ 32 := by
      refine ⟨?_, ih hf hn⟩
      cases os with
      | nil => exact hf.2
      | cons o' os =>
        have := ih hf hn o' List.mem_cons_self
        omega
    intro o' ho'
    rcases List.mem_cons.mp ho' with rfl | ho'
    · omega
    · have := hhi.2 o' ho'
      omega

/-! ## What the steps keep -/

variable (hi) in
/-- The stack of the SPM from `a` upward is the same in both memories. -/
def KeptFrom (a : Word) (m m' : WordMemory) : Prop :=
  ∀ x : Word, a.toNat ≤ x.toNat → x.toNat < hi → m' x = m x

theorem KeptFrom.trans {m'' : WordMemory} {a b : Word} (h : KeptFrom hi a m m')
    (h' : KeptFrom hi b m' m'') (hab : b.toNat ≤ a.toNat) : KeptFrom hi a m m'' :=
  fun x ha hx => (h' x (by omega) hx).trans (h x ha hx)

theorem KeptFrom.kept (h : KeptFrom hi s.msp m m') (hf : Fits hi s os) (hn : Nested lo hi os) :
    ∀ o ∈ os, o.Kept m m' := by
  intro o ho x hx
  have hw := words_above hf hn o ho
  refine h x ?_ ?_
  · bv_omega
  · bv_omega

theorem Open.Holds.of_kept (h : o.Holds m) (hk : o.Kept m m') : o.Holds m' := by
  refine WordMemory.Holds.of_agreeOn h hk ?_
  cases o with
  | start s => simp [Open.words, Cpu.frameTail]
  | call s =>
    simp only [Open.words]
    split_ifs <;> simp [Open.saved, Cpu.frameTail]

/-- Words written below `a` or outside of the stack keep the stack from `a` upward. -/
theorem keptFrom_setWords {a b : Word} {ws : List Word} (hl : 4 * ws.length < 2 ^ 32)
    (h : b.toNat + 4 * ws.length ≤ a.toNat ∨ b.toNat + 4 * ws.length ≤ 2 ^ 32 ∧ hi ≤ b.toNat) :
    KeptFrom hi a m (m.setWords b ws) := by
  intro x ha hx
  refine setWords_of_le hl ?_
  bv_omega

theorem keptFrom_set {a b w : Word} (h : b.toNat + 4 ≤ a.toNat) : KeptFrom hi a m (m.set b w) := by
  have hw : KeptFrom hi a m (m.setWords b [w]) := keptFrom_setWords (by simp) (.inl h)
  exact hw

theorem keptFrom_entry (hr : Room lo hi s) (hm : Spm s ∨ Service s) :
    KeptFrom hi s.msp s.mem (svcEntry s).mem := by
  refine keptFrom_setWords (by simp [Cpu.frameTail]) ?_
  simp only [Cpu.frameTail, List.length_cons, List.length_nil]
  rcases hm with h | h
  · have := hr.frame h.usesPsp
    omega
  · have := hr.psp h.spsel
    have := hr.msp
    omega

/-! ## One lemma for each kind of step -/

variable (lo hi) in
/-- The brackets are nested, the core runs inside them, and their words are on MSP. -/
structure Inv (c : Config) : Prop where
  fits : Fits hi c.cpu c.opens
  nested : Nested lo hi c.opens
  holds : ∀ o ∈ c.opens, o.Holds c.cpu.mem

variable {c : Config} {u : Cpu} {thunk : Word} {dispatch : Cpu → Cpu}

theorem Fits.congr (h : Fits hi s os) (hm : t.msp = s.msp) (h1 : Spm s → Spm t)
    (h2 : Service s → Service t) : Fits hi t os := by
  cases os with
  | nil => exact ⟨h1 h.1, hm ▸ h.2⟩
  | cons o os =>
    cases o with
    | start s' => exact ⟨h2 h.1, hm.trans h.2⟩
    | call s' => exact ⟨h1 h.1, hm ▸ h.2⟩

/-- A step that keeps the stack from MSP upward keeps the brackets. -/
theorem Inv.holds_of_keptFrom (h : Inv lo hi c) (hk : KeptFrom hi c.cpu.msp c.cpu.mem m) :
    ∀ o ∈ c.opens, o.Holds m :=
  fun o ho => (h.holds o ho).of_kept (hk.kept h.fits h.nested o ho)

theorem Service.open_start (hs : Service s) (h : Fits hi s os) :
    ∃ s' os', os = .start s' :: os' ∧ s.msp = s'.frame := by
  cases os with
  | nil => exact absurd h.1.spsel (by simp [hs.spsel])
  | cons o os =>
    cases o with
    | start s' => exact ⟨s', os, rfl, h.2⟩
    | call s' => exact absurd h.1.spsel (by simp [hs.spsel])

section

variable (h : Inv lo hi c) (hr : Room lo hi c.cpu)
include h hr

/-- SVC_START_PROCESS of the SPM. -/
theorem inv_startProcess (hs : Spm c.cpu) (hn : svcNumber c.cpu = svcStartProcess) :
    Inv lo hi ⟨supervisorCall thunk dispatch c.cpu, .start c.cpu :: c.opens⟩ := by
  have ha : AtSvcCall c.cpu := ⟨hs.thread, hs.nPriv, hs.spsel, hn⟩
  obtain ⟨hh, hp, hsel⟩ := started_mode thunk dispatch ha
  refine ⟨⟨⟨hh, hp, hsel⟩, started_msp ha⟩, ⟨h.fits, hr, ?_, h.nested⟩, fun o ho => ?_⟩
  · rintro s' hs'
    cases hs'
    exact hs
  · simp only [started_mem ha]
    rcases List.mem_cons.mp ho with rfl | ho
    · exact holds_svcEntry.2
    · exact h.holds_of_keptFrom (keptFrom_entry hr (.inl hs)) o ho

variable (thunk dispatch) in
/-- SVC_START_PROCESS of a service goes back to it. -/
theorem inv_startProcess_service (hs : Service c.cpu) (hn : svcNumber c.cpu = svcStartProcess) :
    Inv lo hi ⟨supervisorCall thunk dispatch c.cpu, c.opens⟩ ∧
      (supervisorCall thunk dispatch c.cpu).msp = c.cpu.msp ∧
      Service (supervisorCall thunk dispatch c.cpu) := by
  have hmsp : (supervisorCall thunk dispatch c.cpu).msp = c.cpu.msp := by
    rw [startProcess_returns hs.thread hn, exec_startProcess]
    simp [exceptionReturn, hs.entry_msp]
  have hsvc : Service (supervisorCall thunk dispatch c.cpu) := by
    rw [startProcess_returns hs.thread hn, exec_startProcess]
    exact ⟨by simp, by simp, by simp⟩
  have hmem : (supervisorCall thunk dispatch c.cpu).mem = (svcEntry c.cpu).mem := by
    rw [startProcess_returns hs.thread hn, exec_startProcess]
    simp
  refine ⟨⟨h.fits.congr hmsp (fun h' => ?_) fun _ => hsvc, h.nested, ?_⟩, hmsp, hsvc⟩
  · exact absurd h'.spsel (by simp [hs.spsel])
  · simp only [hmem]
    exact h.holds_of_keptFrom (keptFrom_entry hr (.inr hs))

variable (thunk dispatch) in
/-- SVC_PROCESS_EXIT of a service closes the bracket that started it. -/
theorem inv_processExit (hs : Service c.cpu) (hn : svcNumber c.cpu = svcProcessExit) :
    ∃ s' os, c.opens = .start s' :: os ∧ Inv lo hi ⟨supervisorCall thunk dispatch c.cpu, os⟩ ∧
      (supervisorCall thunk dispatch c.cpu).msp = s'.msp ∧
      (supervisorCall thunk dispatch c.cpu).pc = s'.pc + 2#32 ∧
      Spm (supervisorCall thunk dispatch c.cpu) := by
  obtain ⟨s', os, ho, hm⟩ := hs.open_start h.fits
  have hnest := h.nested
  rw [ho] at hnest
  obtain ⟨hf', hr', hs', hn'⟩ : Fits hi s' os ∧ Room lo hi s' ∧
    (∀ s, Open.start s' = .start s → Spm s) ∧ Nested lo hi os := hnest
  have hspm : Spm s' := hs' s' rfl
  have hfr := hr'.frame hspm.usesPsp
  have hkeep := keptFrom_entry hr (.inr hs)
  have hmem : (exec processExit (svcEntered c.cpu)).mem =
      (svcEntry c.cpu).mem.set s'.frame (c.cpu.reg .r0) := by
    rw [exec_processExit]
    simp [hs.entry_msp, stacked_r0, hm]
  have hold : (exec processExit (svcEntered c.cpu)).mem.Holds (s'.frame + 4#32) s'.frameTail := by
    rw [hmem]
    have he : (svcEntry c.cpu).mem.Holds (s'.frame + 4#32) s'.frameTail :=
      h.holds_of_keptFrom hkeep (.start s') (by simp [ho])
    refine he.of_agreeOn (set_agreeOn fun x hx hx' => ?_) (by simp [Cpu.frameTail])
    simp only [Cpu.frameTail, List.length_cons, List.length_nil] at hx'
    bv_omega
  have hfp : (if false = true then (exec processExit (svcEntered c.cpu)).psp
      else (exec processExit (svcEntered c.cpu)).msp) = s'.frame := by
    rw [exec_processExit]
    simp [hs.entry_msp, hm]
  obtain ⟨-, -, hpc, hmsp, -⟩ := return_of_holds hfp hold
  rw [← processExit_returns thunk dispatch hs.thread hn] at hpc hmsp
  simp only [Bool.false_eq_true, if_false, hspm.sp_eq] at hmsp
  have hu : Spm (supervisorCall thunk dispatch c.cpu) := by
    refine ⟨?_, ?_, ?_, hmsp ▸ hspm.aligned⟩
    · rw [processExit_returns thunk dispatch hs.thread hn]
      simp
    · rw [processExit_returns thunk dispatch hs.thread hn, exec_processExit]
      simp
    · rw [processExit_returns thunk dispatch hs.thread hn]
      simp
  refine ⟨s', os, ho, ⟨hf'.congr hmsp (fun _ => hu) fun hc => ?_, hn', ?_⟩, hmsp, hpc, hu⟩
  · exact absurd hc.spsel (by simp [hspm.spsel])
  · intro o hmo
    have hk : KeptFrom hi s'.msp c.cpu.mem (exec processExit (svcEntered c.cpu)).mem := by
      rw [hmem]
      refine KeptFrom.trans (b := s'.msp) (fun x hx => hkeep x ?_) ?_ le_rfl
      · rw [hm]
        omega
      · exact keptFrom_set (by omega)
    have hold := (h.holds o (by simp [ho, hmo])).of_kept (hk.kept hf' hn' o hmo)
    simpa only [processExit_returns thunk dispatch hs.thread hn, exceptionReturn_mem] using hold

/-- SVC_PROCESS_EXIT of the SPM goes back to it. -/
theorem inv_processExit_spm (hs : Spm c.cpu) (hn : svcNumber c.cpu = svcProcessExit) :
    Inv lo hi ⟨supervisorCall thunk dispatch c.cpu, c.opens⟩ := by
  have hfr := hr.frame hs.usesPsp
  have hmem : (exec processExit (svcEntered c.cpu)).mem =
      (svcEntry c.cpu).mem.set c.cpu.frame (c.cpu.reg .r0) := by
    rw [exec_processExit]
    simp [hs.entry_msp, stacked_r0]
  have hold : (exec processExit (svcEntered c.cpu)).mem.Holds (c.cpu.frame + 4#32)
      c.cpu.frameTail := by
    rw [hmem]
    refine holds_svcEntry.2.of_agreeOn (set_agreeOn fun x hx hx' => ?_) (by simp [Cpu.frameTail])
    simp only [Cpu.frameTail, List.length_cons, List.length_nil] at hx'
    bv_omega
  have hfp : (if false = true then (exec processExit (svcEntered c.cpu)).psp
      else (exec processExit (svcEntered c.cpu)).msp) = c.cpu.frame := by
    rw [exec_processExit]
    simp [hs.entry_msp]
  obtain ⟨-, -, -, hmsp, -⟩ := return_of_holds hfp hold
  rw [← processExit_returns thunk dispatch hs.thread hn] at hmsp
  simp only [Bool.false_eq_true, if_false, hs.sp_eq] at hmsp
  have hu : Spm (supervisorCall thunk dispatch c.cpu) := by
    refine ⟨?_, ?_, ?_, hmsp ▸ hs.aligned⟩
    · rw [processExit_returns thunk dispatch hs.thread hn]
      simp
    · rw [processExit_returns thunk dispatch hs.thread hn, exec_processExit]
      simp
    · rw [processExit_returns thunk dispatch hs.thread hn]
      simp
  refine ⟨h.fits.congr hmsp (fun _ => hu) fun hc => ?_, h.nested, ?_⟩
  · exact absurd hc.spsel (by simp [hs.spsel])
  · refine h.holds_of_keptFrom ?_
    rw [processExit_returns thunk dispatch hs.thread hn, exceptionReturn_mem, hmem]
    refine (keptFrom_entry hr (.inl hs)).trans (b := c.cpu.msp) ?_ le_rfl
    exact keptFrom_set (by omega)

variable (thunk) in
/-- The other numbers go to `svc_handler_dispatch` and back. -/
theorem inv_dispatch (hd : Dispatches c.opens c.cpu dispatch)
    (h3 : svcNumber c.cpu ≠ svcStartProcess) (h0 : svcNumber c.cpu ≠ svcProcessExit)
    (h4 : svcNumber c.cpu ≠ svcPsaCall) (h7 : svcNumber c.cpu ≠ svcPsaCallReturn) :
    Inv lo hi ⟨supervisorCall thunk dispatch c.cpu, c.opens⟩ ∧
      (supervisorCall thunk dispatch c.cpu).msp = c.cpu.msp ∧
      (Service c.cpu → Service (supervisorCall thunk dispatch c.cpu)) := by
  have hth := h.fits.thread
  have hret : supervisorCall thunk dispatch c.cpu =
      exceptionReturn (dispatch (svcEntered c.cpu)) c.cpu.spsel := by
    have hlr := hd.lr
    rw [supervisorCall_eq hth, if_neg h3, if_neg h0, if_neg h4, if_neg h7, bxLr, hlr]
    cases hsel : c.cpu.spsel
    · simp [hsel]
    · simp [hsel, excMsp, excPsp]
  have hkeep : KeptFrom hi c.cpu.msp c.cpu.mem (svcEntered c.cpu).mem :=
    keptFrom_entry hr h.fits.mode
  have hmsp : (supervisorCall thunk dispatch c.cpu).msp = c.cpu.msp := by
    rw [hret]
    rcases h.fits.mode with hs | hs
    · have hx : (dispatch (svcEntered c.cpu)).mem.word (c.cpu.frame + 28#32) =
          c.cpu.stackedXpsr := by
        rw [(hd.xpsr hs.spsel).word_eq]
        have hw := holds_svcEntry (s := c.cpu)
        simp only [Cpu.frameTail, holds_cons, BitVec.add_assoc, BitVec.reduceAdd] at hw
        exact hw.2.2.2.2.2.2.2.1
      have hf : (if false = true then (dispatch (svcEntered c.cpu)).psp
          else (dispatch (svcEntered c.cpu)).msp) = c.cpu.frame := by
        simp [hd.msp, hs.entry_msp]
      rw [hs.spsel, (return_sp hf hx).1]
      simp [hs.sp_eq]
    · rw [hs.spsel]
      simp [exceptionReturn, hd.msp, hs.entry_msp]
  have hsvc : Service c.cpu → Service (supervisorCall thunk dispatch c.cpu) := by
    intro hs
    rw [hret]
    exact ⟨by simp, by simp [hd.nPriv, hs.nPriv], by simp [hs.spsel]⟩
  have hspm : Spm c.cpu → Spm (supervisorCall thunk dispatch c.cpu) := by
    intro hs
    refine ⟨?_, ?_, ?_, hmsp ▸ hs.aligned⟩
    · simp [hret]
    · simp [hret, hd.nPriv, hs.nPriv]
    · simp [hret, hs.spsel]
  refine ⟨⟨h.fits.congr hmsp hspm hsvc, h.nested, fun o ho => ?_⟩, hmsp, hsvc⟩
  have hold := (h.holds_of_keptFrom hkeep o ho).of_kept (hd.kept o ho)
  simpa only [hret, exceptionReturn_mem] using hold

end

section

variable (thunk dispatch) in
/-- The core where SVC_PSA_CALL enters `psa_call_thunk`: the saved block is pushed, and the frame of
the thunk is gone from MSP. -/
theorem psaCall_enters (hth : s.handler = false) (hn : svcNumber s = svcPsaCall) :
    ∃ v0 v1 v2 v3 : Word, ∃ m : WordMemory,
      m = ((svcEntry s).mem.setWords ((svcEntry s).msp - 16#32) (Open.saved s)).setWords
        ((svcEntry s).msp - 48#32) ([v0, v1, v2, v3] ++ thunkFrame thunk) ∧
      (supervisorCall thunk dispatch s).mem = m ∧
      (supervisorCall thunk dispatch s).msp = (svcEntry s).msp - 16#32 ∧
      (supervisorCall thunk dispatch s).pc = thunk ∧
      (supervisorCall thunk dispatch s).nPriv = false ∧
      (supervisorCall thunk dispatch s).spsel = false ∧
      (supervisorCall thunk dispatch s).handler = false := by
  obtain ⟨v0, v1, v2, v3, hmem, hmsp, -, -, hnp, hlr, -⟩ :=
    exec_psaCall (svcEntered s) thunk
  have hret : supervisorCall thunk dispatch s =
      exceptionReturn (exec (psaCall thunk) (svcEntered s)) false := by
    rw [supervisorCall_psaCall hth hn, bxLr, hlr]
    rfl
  have hw : (exec (psaCall thunk) (svcEntered s)).mem.Holds ((svcEntry s).msp - 48#32)
      ([v0, v1, v2, v3] ++ thunkFrame thunk) := by
    rw [hmem]
    exact holds_setWords (by simp [thunkFrame])
  simp only [thunkFrame, List.cons_append, List.nil_append, holds_cons, BitVec.add_assoc,
    BitVec.reduceAdd] at hw
  obtain ⟨-, -, -, -, -, -, hpc, hx, -⟩ := hw
  refine ⟨v0, v1, v2, v3, _, rfl, ?_, ?_, ?_, ?_, ?_, ?_⟩
  · rw [hret, exceptionReturn_mem, hmem]
    rfl
  · rw [hret]
    simp only [exceptionReturn, hmsp, svcEntered_msp, Bool.false_eq_true, if_false, hx, unstacked]
    simp only [show (0x1000000#32 : Word)[9] = false by decide, Bool.false_eq_true, if_false]
    bv_omega
  · rw [hret]
    simp only [exceptionReturn, hmsp, svcEntered_msp, Bool.false_eq_true, if_false, hpc]
  · rw [hret, exceptionReturn_nPriv, hnp]
  · rw [hret, exceptionReturn_spsel]
  · rw [hret, exceptionReturn_handler]

variable (thunk dispatch) in
/-- The core at the call of `handle_svc`. -/
theorem psaCall_handles (hth : s.handler = false) (hn : svcNumber s = svcPsaCall) :
    (exec psaCallThunk (supervisorCall thunk dispatch s)).msp = (svcEntry s).msp - 48#32 ∧
      (exec psaCallThunk (supervisorCall thunk dispatch s)).pc = thunk := by
  obtain ⟨v0, v1, v2, v3, m, hm, hmem, hmsp, hpc, hnp, hsel, hh⟩ :=
    psaCall_enters thunk dispatch hth hn
  have hu : (supervisorCall thunk dispatch s).usesPsp = false := by simp [Cpu.usesPsp, hsel]
  rw [exec_psaCallThunk hu, hmsp]
  constructor
  · simp only [Cpu.setReg_msp, Cpu.storeWords_msp, Cpu.setSp_msp, hu, Bool.false_eq_true, if_false]
    bv_omega
  · rw [Cpu.setReg_pc, Cpu.setReg_pc, Cpu.storeWords_pc, Cpu.setSp_pc, hpc]

variable (h : Inv lo hi c) (hr : Room lo hi c.cpu)
include h hr

omit h in
/-- The saved block is there once it is pushed. -/
theorem callHolds (hf : Fits hi c.cpu c.opens) :
    (Open.call c.cpu).Holds ((svcEntry c.cpu).mem.setWords ((svcEntry c.cpu).msp - 16#32)
      (Open.saved c.cpu)) := by
  have hsaved : ((svcEntry c.cpu).mem.setWords ((svcEntry c.cpu).msp - 16#32)
      (Open.saved c.cpu)).Holds ((svcEntry c.cpu).msp - 16#32) (Open.saved c.cpu) :=
    holds_setWords (by simp [Open.saved])
  rcases hf.mode with hs | hs
  · have hfr := hr.frame hs.usesPsp
    have hframe : ((svcEntry c.cpu).mem.setWords ((svcEntry c.cpu).msp - 16#32)
        (Open.saved c.cpu)).Holds (svcEntry c.cpu).msp (c.cpu.reg .r0 :: c.cpu.frameTail) := by
      rw [hs.entry_msp]
      refine holds_svcEntry.of_agreeOn (fun x hx => setWords_of_le (by simp [Open.saved]) ?_)
        (by simp [Cpu.frameTail])
      simp only [Cpu.frameTail, Open.saved, List.length_cons, List.length_nil] at hx ⊢
      bv_omega
    rw [hs.entry_msp] at hsaved hframe ⊢
    exact hs.holds_call.mpr ⟨hsaved, hframe⟩
  · simpa only [Open.Holds, Open.words, hs.spsel, if_true] using hsaved

variable (thunk dispatch) in
/-- SVC_PSA_CALL opens a bracket and goes on in the SPM, inside the thunk. -/
theorem inv_psaCall (hn : svcNumber c.cpu = svcPsaCall) :
    Inv lo hi ⟨exec psaCallThunk (supervisorCall thunk dispatch c.cpu), .call c.cpu :: c.opens⟩ := by
  obtain ⟨v0, v1, v2, v3, m, hm, hmem, hmsp, hpc, hnp, hsel, hth⟩ :=
    psaCall_enters thunk dispatch h.fits.thread hn
  have he := hr.entry
  have hal := entry_aligned h.fits h.nested
  have hu : (supervisorCall thunk dispatch c.cpu).usesPsp = false := by simp [Cpu.usesPsp, hsel]
  rw [exec_psaCallThunk hu, hmsp]
  set f := (svcEntry c.cpu).msp - 48#32 with hf
  have hf' : (svcEntry c.cpu).msp - 16#32 - 32#32 = f := by bv_omega
  rw [hf']
  have hfn : f.toNat + 48 = (svcEntry c.cpu).msp.toNat := by bv_omega
  set ws := [(supervisorCall thunk dispatch c.cpu).reg .r0,
    (supervisorCall thunk dispatch c.cpu).reg .r1, (supervisorCall thunk dispatch c.cpu).reg .r2,
    (supervisorCall thunk dispatch c.cpu).reg .r3, 0#32, 0#32, 0#32, 0#32] with hws
  have hlen : 4 * ws.length = 32 := by simp [hws]
  -- What lies from the saved block upward is not written again.
  have htop : ∀ x : Word, ((svcEntry c.cpu).msp - 16#32).toNat ≤ x.toNat →
      m.setWords f ws x = ((svcEntry c.cpu).mem.setWords ((svcEntry c.cpu).msp - 16#32)
        (Open.saved c.cpu)) x := by
    intro x hx
    have h1 : (m.setWords f ws) x = m x := setWords_of_le (by omega) (by bv_omega)
    rw [h1, hm]
    refine setWords_of_le (by simp [thunkFrame]) ?_
    simp only [thunkFrame, List.cons_append, List.nil_append, List.length_cons, List.length_nil]
    bv_omega
  have hcall := words_within (o := .call c.cpu) h.fits hr fun a ha => by cases ha
  refine ⟨⟨⟨?_, ?_, ?_, ?_⟩, ?_⟩, ⟨h.fits, hr, fun a ha => (by cases ha), h.nested⟩, fun o ho => ?_⟩
  · rw [Cpu.setReg_handler, Cpu.setReg_handler, Cpu.storeWords_handler, Cpu.setSp_handler, hth]
  · rw [Cpu.setReg_nPriv, Cpu.setReg_nPriv, Cpu.storeWords_nPriv, Cpu.setSp_nPriv, hnp]
  · rw [Cpu.setReg_spsel, Cpu.setReg_spsel, Cpu.storeWords_spsel, Cpu.setSp_spsel, hsel]
  · simp only [Cpu.setReg_msp, Cpu.storeWords_msp, Cpu.setSp_msp, hu, Bool.false_eq_true, if_false]
    omega
  · simp [hu, Open.floor, ← hf]
  · simp only [Cpu.setReg_mem, Cpu.storeWords_mem, Cpu.setSp_mem, hmem]
    rcases List.mem_cons.mp ho with rfl | ho
    · refine (callHolds hr h.fits).of_kept fun x hx => htop x ?_
      have hb : (Open.call c.cpu).words.1 = (svcEntry c.cpu).msp - 16#32 := by
        simp only [Open.words]
        split_ifs <;> rfl
      rw [hb] at hx hcall
      bv_omega
    · refine h.holds_of_keptFrom ?_ o ho
      have hsave : KeptFrom hi c.cpu.msp (svcEntry c.cpu).mem
          ((svcEntry c.cpu).mem.setWords ((svcEntry c.cpu).msp - 16#32) (Open.saved c.cpu)) := by
        refine keptFrom_setWords (by simp [Open.saved]) (.inl ?_)
        simp only [Open.saved, List.length_cons, List.length_nil]
        bv_omega
      have hrest : KeptFrom hi c.cpu.msp ((svcEntry c.cpu).mem.setWords
          ((svcEntry c.cpu).msp - 16#32) (Open.saved c.cpu)) (m.setWords f ws) := by
        intro x hx _
        exact htop x (by bv_omega)
      exact ((keptFrom_entry hr h.fits.mode).trans hsave le_rfl).trans hrest le_rfl

end

end

end RuSpe.SvcRun
