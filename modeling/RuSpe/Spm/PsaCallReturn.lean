import RuSpe.Spm.SvcRun

set_option autoImplicit false

/-!
# The return from psa_call

`psa_call_thunk` ends with SVC_PSA_CALL_RETURN, which pops the block that SVC_PSA_CALL saved and
gives the answer to the caller.

* `Restores`: what the handler has restored for the caller when it returns;
* **`psaReturn_restores`**: at the end of the thunk it restores the caller of the open psa_call.
-/

namespace RuSpe.SvcRun

open Armv8m WordMemory

variable {lo hi : ℕ} {c : Config} {s : Cpu} {os : List Open} {p thunk : Word}
  {dispatch : Cpu → Cpu}

/-- The handler state `r` restores the caller that issued SVC_PSA_CALL in `s`, where `handle_svc`
left the frame of the thunk in `b`. -/
structure Restores (s b r : Cpu) : Prop where
  msp : r.msp = (svcEntry s).msp
  psplim : r.psplim = (svcEntry s).psplim
  control : r.control = (svcEntry s).control
  lr : r.reg .lr = (svcEntry s).reg .lr
  psp : s.spsel = true → r.psp = (svcEntry s).psp
  args : frameArgs r.mem s.frame = frameArgs b.mem b.msp
  writes : ∀ x : Word, 16 ≤ (x - s.frame).toNat → 32 ≤ (x - ((svcEntry s).msp - 48#32)).toNat →
    r.mem x = b.mem x

/-- The bracket at the end of the thunk. -/
structure AtReturn (lo hi : ℕ) (c : Config) (s : Cpu) (os : List Open) (p : Word) : Prop where
  inv : Inv lo hi c
  opens : c.opens = .call s :: os
  spm : Spm c.cpu
  msp : c.cpu.msp = (Open.call s).floor
  number : svcNumber (thunkEnd c.cpu p) = svcPsaCallReturn

section

variable (h : AtReturn lo hi c s os p)
include h

theorem AtReturn.nested : Fits hi s os ∧ Room lo hi s ∧ Nested lo hi os := by
  have hn := h.inv.nested
  rw [h.opens] at hn
  exact ⟨hn.1, hn.2.1, hn.2.2.2⟩

theorem thunkEnd_mem : (thunkEnd c.cpu p).mem = c.cpu.mem := by
  simp [thunkEnd, exec_psaCallThunkEnd h.spm.usesPsp]

theorem thunkEnd_msp : (thunkEnd c.cpu p).msp = (svcEntry s).msp - 16#32 := by
  simp only [thunkEnd, exec_psaCallThunkEnd h.spm.usesPsp, Cpu.setSp_msp, Cpu.usesPsp,
    Cpu.setReg_spsel, h.spm.spsel, Bool.false_and, Bool.false_eq_true, if_false, h.msp, Open.floor]
  bv_omega

theorem thunkEnd_spm : Spm (thunkEnd c.cpu p) := by
  obtain ⟨hf, hr, hn⟩ := h.nested
  have hal := entry_aligned hf hn
  have he := hr.entry
  refine ⟨?_, ?_, ?_, ?_⟩
  · simp [thunkEnd, exec_psaCallThunkEnd h.spm.usesPsp, h.spm.thread]
  · simp [thunkEnd, exec_psaCallThunkEnd h.spm.usesPsp, h.spm.nPriv]
  · simp [thunkEnd, exec_psaCallThunkEnd h.spm.usesPsp, h.spm.spsel]
  · rw [thunkEnd_msp h]
    bv_omega

theorem thunkEnd_frame : (thunkEnd c.cpu p).frame = (svcEntry s).msp - 48#32 := by
  obtain ⟨hf, hr, hn⟩ := h.nested
  have hal := entry_aligned hf hn
  have he := hr.entry
  rw [Cpu.frame, (thunkEnd_spm h).sp_eq, thunkEnd_msp h, framePtr_of_aligned (by bv_omega)]
  bv_omega

theorem thunkEnd_args : [(thunkEnd c.cpu p).reg .r0, (thunkEnd c.cpu p).reg .r1,
    (thunkEnd c.cpu p).reg .r2, (thunkEnd c.cpu p).reg .r3] = frameArgs c.cpu.mem c.cpu.msp := by
  simp [thunkEnd, exec_psaCallThunkEnd h.spm.usesPsp, frameArgs]

/-- Exception entry at the end of the thunk stacks its frame below the saved block. -/
theorem thunkEnd_keeps {x : Word} (hx : 32 ≤ (x - ((svcEntry s).msp - 48#32)).toNat) :
    (svcEntry (thunkEnd c.cpu p)).mem x = c.cpu.mem x := by
  rw [svcEntry_mem, thunkEnd_mem h, thunkEnd_frame h]
  exact setWords_of_le (by simp [Cpu.frameTail]) (by simpa [Cpu.frameTail] using hx)

theorem saved_holds : c.cpu.mem.Holds ((svcEntry s).msp - 16#32) (Open.saved s) := by
  have hh := h.inv.holds (.call s) (by simp [h.opens])
  simp only [Open.Holds, Open.words] at hh
  split_ifs at hh with hs
  · exact hh
  · exact (holds_append.mp hh).1

/-- The frame of the caller is apart from the saved block and from what is below it. -/
theorem frame_apart : Apart s.frame 32 ((svcEntry s).msp - 48#32) 48 := by
  obtain ⟨hf, hr, hn⟩ := h.nested
  have he := hr.entry
  rcases hf.mode with hs | hs
  · have hfr := hr.frame hs.usesPsp
    rw [hs.entry_msp] at he ⊢
    refine (Apart.of_le ?_ ?_).symm
    · bv_omega
    · have := s.msp.isLt
      omega
  · have hpsp := hr.psp hs.spsel
    have hw := words_above h.inv.fits h.inv.nested (.call s) (by simp [h.opens])
    simp only [Open.words, Open.floor, Open.saved, hs.spsel, if_true, List.length_cons,
      List.length_nil] at hw
    rcases hpsp with hpsp | hpsp
    · refine Apart.of_le ?_ ?_
      · bv_omega
      · bv_omega
    · refine (Apart.of_le ?_ hpsp.2).symm
      bv_omega

theorem saved_entered : (svcEntry (thunkEnd c.cpu p)).mem.Holds ((svcEntry s).msp - 16#32)
    (Open.saved s) := by
  refine (saved_holds h).of_agreeOn (fun x hx => thunkEnd_keeps h ?_) (by simp [Open.saved])
  simp only [Open.saved, List.length_cons, List.length_nil] at hx
  bv_omega

/-- **SVC_PSA_CALL_RETURN at the end of the thunk restores the caller of the open psa_call.** -/
theorem psaReturn_restores : Restores s c.cpu (exec psaReturn (svcEntered (thunkEnd c.cpu p))) := by
  have hspm := thunkEnd_spm h
  have hmsp : (svcEntered (thunkEnd c.cpu p)).msp = (svcEntry s).msp - 48#32 := by
    rw [svcEntered_msp, hspm.entry_msp, thunkEnd_frame h]
  have hap := frame_apart h
  have hblock : (svcEntered (thunkEnd c.cpu p)).mem.Holds ((svcEntry s).msp - 16#32)
      (Open.saved s) := saved_entered h
  have hargs : frameArgs (svcEntered (thunkEnd c.cpu p)).mem (svcEntered (thunkEnd c.cpu p)).msp =
      frameArgs c.cpu.mem c.cpu.msp := by
    have hw := holds_svcEntry (s := thunkEnd c.cpu p)
    simp only [Cpu.frameTail, holds_cons, BitVec.add_assoc, BitVec.reduceAdd] at hw
    obtain ⟨h0, h1, h2, h3, -⟩ := hw
    rw [← thunkEnd_args h, svcEntered_msp, hspm.entry_msp, svcEntered_mem, frameArgs, h0, h1, h2, h3]
  have hfp : (svcEntered (thunkEnd c.cpu p)).mem.word
      ((svcEntered (thunkEnd c.cpu p)).msp + 32#32) = s.frame := by
    rw [hmsp, show (svcEntry s).msp - 48#32 + 32#32 = (svcEntry s).msp - 16#32 by bv_omega]
    exact hblock.1
  obtain ⟨v0, v1, v2, v3, m, hm, hmem, hrmsp, hlim, hlr, hnp, hpsp, hv⟩ := exec_psaReturn hfp
  have hvs : [v0, v1, v2, v3] = frameArgs c.cpu.mem c.cpu.msp := by
    rw [hv, hargs]
    rw [hmsp]
    exact hap.mono (fun x hx => by omega) fun x hx => by omega
  -- The copy to the frame of the caller leaves the saved block alone.
  have hsaved : m.Holds ((svcEntry s).msp - 16#32) (Open.saved s) := by
    refine hblock.of_agreeOn ?_ (by simp [Open.saved])
    rw [hm]
    refine setWords_agreeOn (by simp) (hap.mono (fun x hx => ?_) fun x hx => ?_)
    · simp only [List.length_cons, List.length_nil] at hx
      omega
    · simp only [Open.saved, List.length_cons, List.length_nil] at hx
      bv_omega
  simp only [Open.saved, holds_cons, BitVec.add_assoc, BitVec.reduceAdd] at hsaved
  obtain ⟨-, hctl, hl, hexc, -⟩ := hsaved
  rw [hmsp, show (svcEntry s).msp - 48#32 + 40#32 = (svcEntry s).msp - 16#32 + 8#32 by bv_omega,
    hl] at hlim
  rw [hmsp, show (svcEntry s).msp - 48#32 + 36#32 = (svcEntry s).msp - 16#32 + 4#32 by bv_omega,
    hctl] at hnp
  have h44 : (svcEntry s).msp - 48#32 + 44#32 = (svcEntry s).msp - 16#32 + 12#32 := by bv_omega
  rw [hmsp, h44, hexc] at hlr hpsp
  refine ⟨?_, hlim, ?_, hlr, fun hs => ?_, ?_, fun x hx hx' => ?_⟩
  · rw [hrmsp, hmsp]
    bv_omega
  · have hsel := exec_psaReturn_spsel (h := svcEntered (thunkEnd c.cpu p)) rfl
    have hbit : (svcEntry s).control.getLsbD 0 = s.nPriv := Cpu.control_nPriv rfl
    rw [hbit] at hnp
    rw [Cpu.control, Cpu.control, hnp, hsel]
    rfl
  · have hth := h.nested.1.thread
    rw [hpsp, svcEntry_lr, if_pos hs, svcEntry_psp]
    simp [Cpu.usesPsp, hs, hth]
  · have hread : m.Holds s.frame (frameArgs c.cpu.mem c.cpu.msp) := by
      rw [hm, hvs]
      exact holds_setWords (by simp [frameArgs])
    simp only [frameArgs, holds_cons, BitVec.add_assoc, BitVec.reduceAdd] at hread
    obtain ⟨h0, h1, h2, h3, -⟩ := hread
    rw [hmem, frameArgs, h0, h1, h2, h3, frameArgs]
  · rw [hmem, hm, setWords_of_le (by simp) (by simpa using hx)]
    exact thunkEnd_keeps h hx'

/-- The return leaves the words above r3 of the frame of the caller alone. -/
theorem psaReturn_rest : c.cpu.mem.AgreeOn (exec psaReturn (svcEntered (thunkEnd c.cpu p))).mem
    (s.frame + 16#32) 16 := by
  intro x hx
  refine (psaReturn_restores h).writes x (by bv_omega) (Nat.le_of_not_lt fun hlt => ?_)
  exact frame_apart h x (by bv_omega) (by omega)

/-- The `svc` of the thunk goes back to the caller. -/
theorem callReturn_returns : supervisorCall thunk dispatch (thunkEnd c.cpu p) =
    exceptionReturn (exec psaReturn (svcEntered (thunkEnd c.cpu p))) s.spsel := by
  have hlr := (psaReturn_restores h).lr
  rw [svcEntry_lr] at hlr
  rw [supervisorCall_psaReturn (thunkEnd_spm h).thread h.number, bxLr, hlr]
  cases s.spsel
  · rfl
  · rfl

theorem callReturn_msp :
    (supervisorCall thunk dispatch (thunkEnd c.cpu p)).msp = s.msp := by
  have hres := psaReturn_restores h
  obtain ⟨hf, hr, hn⟩ := h.nested
  rw [callReturn_returns h]
  rcases hf.mode with hs | hs
  · have hx : (exec psaReturn (svcEntered (thunkEnd c.cpu p))).mem.word (s.frame + 28#32) =
        s.stackedXpsr := by
      have hk := (psaReturn_rest h).mono (b := s.frame + 28#32) (k := 4) fun x hx => by bv_omega
      rw [hk.word_eq]
      have hh := (hs.holds_call.mp (h.inv.holds (.call s) (by simp [h.opens]))).2
      simp only [Cpu.frameTail, holds_cons, BitVec.add_assoc, BitVec.reduceAdd] at hh
      exact hh.2.2.2.2.2.2.2.1
    have hfp : (if false = true then (exec psaReturn (svcEntered (thunkEnd c.cpu p))).psp
        else (exec psaReturn (svcEntered (thunkEnd c.cpu p))).msp) = s.frame := by
      simp [hres.msp, hs.entry_msp]
    rw [hs.spsel, (return_sp hfp hx).1]
    simp [hs.sp_eq]
  · rw [hs.spsel]
    simp [exceptionReturn, hres.msp, hs.entry_msp]

/-- SVC_PSA_CALL_RETURN at the end of the thunk closes the bracket of its psa_call. -/
theorem inv_callReturn :
    Inv lo hi ⟨supervisorCall thunk dispatch (thunkEnd c.cpu p), os⟩ := by
  have hres := psaReturn_restores h
  obtain ⟨hf, hr, hn⟩ := h.nested
  have he := hr.entry
  have hmsp : (supervisorCall thunk dispatch (thunkEnd c.cpu p)).msp = s.msp := callReturn_msp h
  have hsel := exec_psaReturn_spsel (h := svcEntered (thunkEnd c.cpu p)) rfl
  have hnp : (exec psaReturn (svcEntered (thunkEnd c.cpu p))).nPriv = s.nPriv := by
    rw [← Cpu.control_nPriv (hsel.trans rfl), hres.control]
    exact Cpu.control_nPriv rfl
  refine ⟨hf.congr hmsp (fun hs => ?_) fun hs => ?_, hn, fun o ho => ?_⟩
  · refine ⟨?_, ?_, ?_, hmsp ▸ hs.aligned⟩
    · rw [callReturn_returns h, exceptionReturn_handler]
    · rw [callReturn_returns h, exceptionReturn_nPriv, hnp, hs.nPriv]
    · rw [callReturn_returns h, exceptionReturn_spsel, hs.spsel]
  · refine ⟨?_, ?_, ?_⟩
    · rw [callReturn_returns h, exceptionReturn_handler]
    · rw [callReturn_returns h, exceptionReturn_nPriv, hnp, hs.nPriv]
    · rw [callReturn_returns h, exceptionReturn_spsel, hs.spsel]
  · have hk : KeptFrom hi s.msp c.cpu.mem (exec psaReturn (svcEntered (thunkEnd c.cpu p))).mem := by
      intro x hx hxhi
      refine hres.writes x ?_ (by bv_omega)
      rcases hf.mode with hs | hs
      · have hfr := hr.frame hs.usesPsp
        bv_omega
      · have hpsp := hr.psp hs.spsel
        have hroom := hr.msp
        bv_omega
    have hold := (h.inv.holds o (by simp [h.opens, ho])).of_kept (hk.kept hf hn o ho)
    simpa only [callReturn_returns h, exceptionReturn_mem] using hold

end

end RuSpe.SvcRun
