import RuSpe.Spm.ServiceSim

set_option autoImplicit false

/-!
# Watching a run

A run hands ranges of memory to three consumers: the closures of a service, the registers of an SVC
and the MPU. An observed SPM is an SPM with a log of these, and of the calls that begin and end. The
log does not take part in the run.

* `Event`, `Observed`: the log, newest event first;
* `MpuUse`: what programming the MPU uses, and the `SpmCall` instance that logs it;
* `observe`: a service run on an observed SPM; `Watches`, `observed_sim`;
* **`observe_run`**: it does what `Service.run` does.
-/

namespace RuSpe

/-- Something a run does with memory of a caller, or the begin or the end of a call. -/
inductive Event
  | called (req : SfnApi.Request)
  | entered (connection : Connection)
  | left
  /-- A closure of `access_invec` or `access_outvec` runs. -/
  | shown (msgHandle : ServiceHandle) (vec : Vec) (slice : Slice)
  /-- A closure of `access_invec_outvec` runs. -/
  | shownBoth (msgHandle : ServiceHandle) (invecIdx outvecIdx : ℕ) (invec outvec : Slice)
  /-- An `SVC_PSA_ACCESS_VEC` is answered. -/
  | answered (frame answer : SvcStackFrame)
  /-- A vector is used for a region of the MPU. -/
  | opened (vec : Vec) (slice : Slice)

/-- An SPM whose run is watched. -/
structure Observed (σ : Type) where
  spm : σ
  log : List Event

/-- The vectors that programming the MPU uses, in the state it is programmed in. -/
class MpuUse (σ : Type) where
  opened : σ → List (Vec × Slice)

namespace Observed

variable {σ ρ α : Type}

/-- Add an event to the log. -/
def note (e : Event) (s : Observed σ) : Observed σ := { s with log := e :: s.log }

/-- The result of an operation without the log. -/
def drop (x : α × Observed σ) : α × σ := (x.1, x.2.spm)

@[simp] theorem spm_note (e : Event) (s : Observed σ) : (s.note e).spm = s.spm := rfl

@[simp] theorem log_note (e : Event) (s : Observed σ) : (s.note e).log = e :: s.log := rfl

instance [ConnStore σ] : ConnStore (Observed σ) where
  tryLock f s :=
    let (r, t) := ConnStore.tryLock f s.spm
    (r, { s with spm := t })

variable [SpmCall σ] [MpuUse σ]

/-- The MPU is programmed. -/
def program (s : Observed σ) : Observed σ :=
  { s with log := (MpuUse.opened s.spm).map (fun x => .opened x.1 x.2) ++ s.log }

instance : SpmCall (Observed σ) where
  enter c s :=
    match SpmCall.enter c s.spm with
    | (.error e, t) => (.error e, { s with spm := t })
    | (.ok b, t) => (.ok b, (note (.entered c) { s with spm := t }).program)
  leave s := (note .left { s with spm := SpmCall.leave s.spm }).program
  mapVec isOutvec vecIdx base size s :=
    program { s with spm := SpmCall.mapVec isOutvec vecIdx base size s.spm }
  unmapVec isOutvec vecIdx s := program { s with spm := SpmCall.unmapVec isOutvec vecIdx s.spm }
  version handle s := SpmCall.version handle s.spm

end Observed

/-! ## Services under observation -/

section

variable {σ : Type} [SpmCall σ] [MpuUse σ]

/-- The event of an SVC that was answered. -/
def noteAnswer (svcNum : BitVec 8) (frame answer : SvcStackFrame) (s : Observed σ) : Observed σ :=
  if svcNum = svcPsaAccessVec then s.note (.answered frame answer) else s

omit [SpmCall σ] [MpuUse σ] in
theorem spm_noteAnswer (svcNum : BitVec 8) (frame answer : SvcStackFrame) (s : Observed σ) :
    (noteAnswer svcNum frame answer s).spm = s.spm := by
  rw [noteAnswer]
  split_ifs <;> rfl

/-- `Service.run`, with its events. -/
def observe : Service → Observed σ → Outcome × Observed σ
  | .done outcome, s => (outcome, s)
  | .accessInvec msgHandle invecIdx f next, s =>
    let (r, s) := SfnApi.accessInvec msgHandle invecIdx
      (fun slice s => observe (f slice) (s.note (.shown msgHandle ⟨false, invecIdx.toNat⟩ slice))) s
    observe (next r) s
  | .accessOutvec msgHandle outvecIdx f next, s =>
    let (r, s) := SfnApi.accessOutvec msgHandle outvecIdx
      (fun slice s =>
        let (outcome, s) :=
          observe (f slice) (s.note (.shown msgHandle ⟨true, outvecIdx.toNat⟩ slice))
        ((outcome, outcome.written), s)) s
    observe (next r) s
  | .accessInvecOutvec msgHandle invecIdx outvecIdx f next, s =>
    let (r, s) := SfnApi.accessInvecOutvec msgHandle invecIdx outvecIdx
      (fun invec outvec s =>
        let (outcome, s) := observe (f invec outvec)
          (s.note (.shownBoth msgHandle invecIdx.toNat outvecIdx.toNat invec outvec))
        ((outcome, outcome.written), s)) s
    observe (next r) s
  | .psaCall req initEntry callEntry next, s =>
    let (r, outVecs, s) := SfnApi.call req (fun s => (observe initEntry s).2)
      (fun msg s =>
        let (outcome, s) := observe (callEntry msg) s
        (outcome.status, s)) (s.note (.called req))
    observe (next r outVecs) s
  | .svc svcNum frame mem perm initEntry callEntry next, s =>
    let (answer, s) := svcHandlerDispatch svcNum frame
      (fun handle ctrlParam inVec outVec caller s =>
        let (r, _, s) := SfnApi.call ⟨mem, perm, handle, ctrlParam, inVec, outVec, caller⟩
          (fun s => (observe initEntry s).2)
          (fun msg s =>
            let (outcome, s) := observe (callEntry msg) s
            (outcome.status, s))
          (s.note (.called ⟨mem, perm, handle, ctrlParam, inVec, outVec, caller⟩))
        (r, s)) s
    observe (next answer) (noteAnswer svcNum frame answer s)

end

/-! ## Watching changes nothing -/

/-- The observed SPM, and the one inside it. -/
def Watches {σ : Type} (s : Observed σ) (t : σ) : Prop := s.spm = t

open Observed (drop)

theorem related_watches_iff {σ α : Type} {x : α × Observed σ} {y : α × σ} :
    Related Watches x y ↔ drop x = y :=
  ⟨fun h => Prod.ext h.answer h.state, fun h => ⟨congrArg Prod.fst h, congrArg Prod.snd h⟩⟩

section

variable {σ : Type} [SpmCall σ] [MpuUse σ]

theorem observed_sim : SpmSim (@Watches σ) where
  tryLock f s s' h := by
    obtain rfl := h
    exact ⟨rfl, rfl⟩
  enter c s s' h := by
    obtain rfl := h
    rw [related_watches_iff]
    rcases he : SpmCall.enter c s.spm with ⟨e | b, t⟩ <;> simp [SpmCall.enter, he, drop,
      Observed.program, Observed.note]
  leave h := by
    obtain rfl := h
    rfl
  mapVec o idx base size s s' h := by
    obtain rfl := h
    rfl
  unmapVec o idx s s' h := by
    obtain rfl := h
    rfl
  version handle s s' h := by
    obtain rfl := h
    rfl

/-- A call of a service whose entry points are watched. -/
theorem related_observedCall {initEntry : Service} {callEntry : PsaMsg → Service}
    (hi : ∀ (s : Observed σ) t, Watches s t →
      Related Watches (observe initEntry s) (initEntry.run t))
    (hc : ∀ msg (s : Observed σ) t, Watches s t →
      Related Watches (observe (callEntry msg) s) ((callEntry msg).run t))
    (req : SfnApi.Request) {s : Observed σ} {t : σ} (h : Watches s t) :
    (SfnApi.call req (fun s => (observe initEntry s).2)
        (fun msg s => ((observe (callEntry msg) s).1.status, (observe (callEntry msg) s).2))
        (s.note (.called req))).1 =
      (SfnApi.call req (fun s => (initEntry.run s).2)
        (fun msg s => (((callEntry msg).run s).1.status, ((callEntry msg).run s).2)) t).1 ∧
    Related Watches
      (SfnApi.call req (fun s => (observe initEntry s).2)
        (fun msg s => ((observe (callEntry msg) s).1.status, (observe (callEntry msg) s).2))
        (s.note (.called req))).2
      (SfnApi.call req (fun s => (initEntry.run s).2)
        (fun msg s => (((callEntry msg).run s).1.status, ((callEntry msg).run s).2)) t).2 := by
  have hnote : Watches (s.note (.called req)) t := h
  refine related_sfnCall observed_sim hnote (fun s t h => (hi s t h).state) (fun msg s t h => ?_) req
  have hr := hc msg s t h
  exact ⟨by rw [hr.answer], hr.state⟩

/-- A watched service answers like the service, whatever was logged before. -/
theorem related_observe (service : Service) {s : Observed σ} {t : σ} (h : Watches s t) :
    Related Watches (observe service s) (service.run t) := by
  induction service generalizing s t with
  | done outcome => exact ⟨rfl, h⟩
  | accessInvec mh idx f next ihf ihn =>
    rw [observe, Service.run, SfnApi.accessInvec, SfnApi.accessInvec]
    refine Related.andThen (fun r s => observe (next r) s) ?_ fun r s t h => ihn r h
    refine related_withValidatedConnection observed_sim.toLockSim h mh fun c s t h => ?_
    exact related_withMappedInvec h c idx fun slice => ihf slice h
  | accessOutvec mh idx f next ihf ihn =>
    rw [observe, Service.run, SfnApi.accessOutvec, SfnApi.accessOutvec]
    refine Related.andThen (fun r s => observe (next r) s) ?_ fun r s t h => ihn r h
    refine related_withValidatedConnection observed_sim.toLockSim h mh fun c s t h => ?_
    refine related_withMappedOutvec h c idx fun slice => ?_
    have hf := ihf slice (s := s.note (.shown mh ⟨true, idx.toNat⟩ slice)) h
    obtain ⟨outcome, u, v, hx, hy, hu⟩ := hf.split
    rw [hx, hy]
    exact ⟨rfl, hu⟩
  | accessInvecOutvec mh i j f next ihf ihn =>
    rw [observe, Service.run, SfnApi.accessInvecOutvec, SfnApi.accessInvecOutvec]
    refine Related.andThen (fun r s => observe (next r) s) ?_ fun r s t h => ihn r h
    refine related_withValidatedConnection observed_sim.toLockSim h mh fun c s t h => ?_
    refine related_withMappedInvecOutvec h c i j fun a b => ?_
    have hf := ihf a b (s := s.note (.shownBoth mh i.toNat j.toNat a b)) h
    obtain ⟨outcome, u, v, hx, hy, hu⟩ := hf.split
    rw [hx, hy]
    exact ⟨rfl, hu⟩
  | psaCall req initEntry callEntry next ihi ihc ihn =>
    obtain ⟨hr, ho, ht⟩ :=
      related_observedCall (fun _ _ => ihi) (fun msg _ _ => ihc msg) req h
    rw [observe, Service.run]
    dsimp only
    rw [hr, ho]
    exact ihn _ _ ht
  | svc svcNum frame mem perm initEntry callEntry next ihi ihc ihn =>
    rw [observe, Service.run]
    refine Related.andThen (fun answer s => observe (next answer) (noteAnswer svcNum frame answer s))
      ?_ fun answer s t h => ihn answer ((spm_noteAnswer svcNum frame answer s).trans h)
    refine related_svcHandlerDispatch observed_sim h svcNum frame fun handle cp iv ov caller => ?_
    obtain ⟨hr, -, ht⟩ := related_observedCall (fun _ _ => ihi) (fun msg _ _ => ihc msg)
      ⟨mem, perm, handle, cp, iv, ov, caller⟩ h
    exact ⟨hr, ht⟩

/-- **Observing a service does not change what it does.** -/
theorem observe_run (service : Service) (s : Observed σ) :
    drop (observe service s) = service.run s.spm :=
  related_watches_iff.mp (related_observe service rfl)

end

end RuSpe
