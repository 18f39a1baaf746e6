import RuSpe.Lib.GuardedSection
import RuSpe.Spm.LockTrace
import RuSpe.Spm.Version

set_option autoImplicit false

/-!
# The veneers

Non-secure code enters the SPM by three veneers, at any time. Each swaps `IN_SECURE_STATE`, runs its
body if the flag was clear, and clears it at the end.

* `Veneer`, `Veneer.body`, `Veneer.rejected`: what a veneer does and returns;
* `veneers`: the section behind the flag, whose steps are the steps of the SPM;
* `Exclusive`: what holds in a state of an interleaving;
* **`veneers_exclusive`**: it holds in all of them, for both SPMs.
-/

namespace RuSpe

open LockSteps Lockable GuardedSection LawfulConnStore

/-- `PSA_FRAMEWORK_VERSION`. -/
def psaFrameworkVersion : BitVec 32 := 0x0100

/-- The veneers with their arguments. A call comes with what is in the memory, who may access it,
and what the called service does. -/
inductive Veneer where
  | psaFrameworkVersion
  | psaVersion (serviceId : BitVec 32)
  | psaCall (mem : Memory) (perm : PermissionOracle) (handle : ServiceHandle)
      (ctrlParam : CtrlParam) (inVec outVec : Usize) (initEntry : Service)
      (callEntry : PsaMsg → Service)

/-- What a veneer returns. -/
inductive Answer where
  | version (version : BitVec 32)
  | status (status : ℤ)
  deriving DecidableEq

section

variable {σ : Type} [SpmCall σ]

/-- `psa_call_impl`. -/
def psaCallImpl (mem : Memory) (perm : PermissionOracle) (handle : ServiceHandle)
    (ctrlParam : CtrlParam) (inVec outVec : Usize) (initEntry : Service)
    (callEntry : PsaMsg → Service) (s : σ) : ℤ × σ :=
  let (r, _, s) := SfnApi.call ⟨mem, perm, handle, ctrlParam, inVec, outVec, .nsUnprivileged⟩
    (fun s => (initEntry.run s).2)
    (fun msg s => (((callEntry msg).run s).1.status, ((callEntry msg).run s).2)) s
  (intoPsaStatus r, s)

/-- A veneer between `enter_secure_state` and `exit_secure_state`. -/
def Veneer.body : Veneer → σ → Answer × σ
  | .psaFrameworkVersion, s => (.version RuSpe.psaFrameworkVersion, s)
  | .psaVersion serviceId, s => (.version (psaVersionImpl (some s) serviceId), s)
  | .psaCall mem perm handle ctrlParam inVec outVec initEntry callEntry, s =>
    let (status, s) := psaCallImpl mem perm handle ctrlParam inVec outVec initEntry callEntry s
    (.status status, s)

end

/-- A veneer when `enter_secure_state` fails. -/
def Veneer.rejected : Veneer → Answer
  | .psaFrameworkVersion => .version 0
  | .psaVersion _ => .version 0
  | .psaCall .. => .status (intoPsaStatus (.error .programmerError))

/-- The veneers around an SPM. The flag of the section is `IN_SECURE_STATE`. -/
def veneers (σ : Type) [SpmCall σ] [LockTrace σ] : Section Veneer (LockStep σ) σ Answer where
  steps v s := (v.body (⟨s, []⟩ : Traced σ)).2.log
  act := LockStep.act
  result v s := (v.body s).1
  rejected := Veneer.rejected

/-! ## Bodies -/

section

variable {σ : Type} [SpmCall σ] [LawfulSpm σ]

/-- Nobody uses the SPM. -/
structure Idle (s : σ) : Prop where
  good : Good s
  empty : (conns s).stack = []

theorem idle_body {s : σ} (h : Idle s) (v : Veneer) : Idle (v.body s).2 := by
  cases v with
  | psaFrameworkVersion => exact h
  | psaVersion serviceId => exact h
  | psaCall mem perm handle ctrlParam inVec outVec initEntry callEntry =>
    have hs := settled_sfnCall h.good
      ⟨mem, perm, handle, ctrlParam, inVec, outVec, .nsUnprivileged⟩
      (fun s => (initEntry.run s).2)
      (fun msg s => (((callEntry msg).run s).1.status, ((callEntry msg).run s).2))
      (fun t ht => settled_run initEntry t ht) fun msg t ht => settled_run (callEntry msg) t ht
    have hk := hs.kept
    rw [h.empty] at hk
    refine ⟨hs.good, ?_⟩
    generalize hst : (conns (SfnApi.call _ _ _ s).2.2).stack = st at hk
    cases hk
    exact hst

end

section

variable {σ : Type} [SpmCall σ] [LockTrace σ] [LawfulLockTrace σ]

/-- The steps of a body are bracketed and lead where the body leads. -/
theorem follows_body {s : σ} (h : locked s = false) (v : Veneer) :
    Traced.Follows s (v.body (⟨s, []⟩ : Traced σ)).2 (v.body s).2 := by
  have hstart := Traced.Follows.start h
  cases v with
  | psaFrameworkVersion => exact hstart
  | psaVersion serviceId => exact hstart
  | psaCall mem perm handle ctrlParam inVec outVec initEntry callEntry =>
    have sim := Traced.traced_sim s
    obtain ⟨-, hc⟩ := related_serviceCall sim hstart (fun _ _ => sim.run initEntry)
      (fun msg _ _ => sim.run (callEntry msg))
      ⟨mem, perm, handle, ctrlParam, inVec, outVec, .nsUnprivileged⟩
    exact hc.state

end

/-! ## Interleavings -/

section

variable {σ ι : Type} [SpmCall σ] [LawfulSpm σ] [LockTrace σ] [DecidableEq ι]

/-- What holds in a state of an interleaving. -/
structure Exclusive (x : State ι (LockStep σ) σ Answer) : Prop where
  /-- At most one body is active. -/
  unique : ∀ i j, (x.pc i).isSome = true → (x.pc j).isSome = true → i = j
  flag : x.flag = true ↔ ∃ i, (x.pc i).isSome = true
  /-- A rejected entry returns its error value and changes nothing. -/
  rejects : x.flag = true → ∀ i v, (veneers σ).enter i v x = (some v.rejected, x)
  /-- Any other entry starts the body. -/
  accepts : x.flag = false → ∀ i v, (veneers σ).enter i v x =
    (none, ⟨true, x.shared, Function.update x.pc i
      (some ⟨(veneers σ).steps v x.shared, (v.body x.shared).1⟩)⟩)
  /-- When a body is at its end, all of it was done in the state it found, where nobody used the SPM,
  and the next entry after its exit starts a body. -/
  ends : ∀ i r, x.pc i = some ⟨[], r⟩ →
    (∃ (v : Veneer) (s : σ), Idle s ∧ r = (v.body s).1 ∧ x.shared = (v.body s).2 ∧
      Idle x.shared) ∧
      ∀ j v, ((veneers σ).enter j v
        { x with flag := false, pc := Function.update x.pc i none }).1 = none
  /-- Every `try_lock` finds the lock free. -/
  free : ∀ i l r, x.pc i = some ⟨.acquire :: l, r⟩ → locked x.shared = false
  idle : x.flag = false → Idle x.shared

variable [LawfulLockTrace σ] {x : State ι (LockStep σ) σ Answer}

theorem idle_actAll (hfree : ∀ s : σ, Free s → locked s = false) {s : σ} (h : Idle s) (v : Veneer) :
    (veneers σ).actAll ((veneers σ).steps v s) s = (v.body s).2 :=
  (follows_body (hfree s h.good.free) v).traces.eq

theorem exclusive_of_inv (hfree : ∀ s : σ, Free s → locked s = false)
    (h : Inv (veneers σ) Idle x) : Exclusive x where
  unique := h.unique
  flag := h.flag
  rejects hf i v := enter_rejected hf i v
  accepts hf i v := enter_accepted hf i v
  ends i r hi := by
    obtain ⟨v, s, done, hs, hd, hsh, hr⟩ := h.undisturbed i _ hi
    rw [List.append_nil] at hd
    rw [← hd, idle_actAll hfree hs] at hsh
    refine ⟨⟨v, s, hs, hr, hsh, hsh ▸ idle_body hs v⟩, fun j w => ?_⟩
    rw [enter_accepted rfl]
  free i l r hi := by
    obtain ⟨v, s, done, hs, hd, hsh, -⟩ := h.undisturbed i _ hi
    have hb := (follows_body (hfree s hs.good.free) v).traces.brackets
    rw [show (v.body (⟨s, []⟩ : Traced σ)).2.log = done ++ .acquire :: l from hd] at hb
    rw [hsh]
    exact hb.of_append.1
  idle := h.idle

/-- From an SPM that nobody uses. -/
theorem exclusive_of_reachable (hfree : ∀ s : σ, Free s → locked s = false) {s₀ : σ}
    (h₀ : Idle s₀) (h : (veneers σ).Reachable s₀ x) : Exclusive x := by
  refine exclusive_of_inv hfree (inv_of_reachable h₀ (fun v s hs => ?_) h)
  rw [idle_actAll hfree hs]
  exact idle_body hs v

end

/-- **The veneers exclude each other, and no `try_lock` of either SPM fails**, in every state of every
interleaving of any contexts. -/
theorem veneers_exclusive {ι : Type} [DecidableEq ι] :
    (∀ (version : ServiceHandle → Option (BitVec 32)) (x : State ι (LockStep SpmFn) SpmFn Answer),
      (veneers SpmFn).Reachable (SpmFn.new version) x → Exclusive x) ∧
    (∀ (n : ℕ) (platform : IpcPlatform) (processes : Vector ServiceProcess n)
      (mpu : Vector Armv8Mpu.Region 8) (x : State ι (LockStep (SpmIpc n)) (SpmIpc n) Answer),
      (veneers (SpmIpc n)).Reachable (SpmIpc.new platform processes mpu) x → Exclusive x) :=
  ⟨fun _ _ h => exclusive_of_reachable (fun _ hf => hf) ⟨⟨rfl, ConnectionArray.wf_new⟩, rfl⟩ h,
    fun _ _ _ _ _ h =>
      exclusive_of_reachable (fun _ hf => hf) ⟨⟨rfl, ConnectionArray.wf_new⟩, rfl⟩ h⟩

/-- The first of two contexts called a service and is about to lock the SPM. -/
theorem veneers_exclusive_one_inside :
    let x := ((veneers SpmFn).enter (0 : Fin 2)
      (.psaCall (fun _ => 0) (fun _ _ _ _ => true) .crypto (.new 1 0 false 0 false) 0 0
        (.done ⟨.ok (), 0, 0⟩) fun _ => .done ⟨.ok (), 0, 0⟩)
      ⟨false, .new fun _ => none, fun _ => none⟩).2
    (∃ l r, x.pc 0 = some ⟨.acquire :: l, r⟩) ∧ Exclusive x :=
  ⟨⟨_, _, rfl⟩, veneers_exclusive.1 (fun _ => none) _ (.step .start (.enter 0 _ rfl))⟩

end RuSpe
