import RuSpe.Tock.SpeMutex

set_option autoImplicit false

/-!
# Token apps that share the SPM

Behind its dialogue a token app asks for the driver, reserves the mutex until it gets it, calls the
attestation service, and releases the mutex. Any number of such apps run beside processes that do
whatever they like.

* `Phase`, `Moves`: the part of `create_psa_token` behind the dialogue, step by step;
* `Apps`, `AppStep`, `AppRun`: the apps among the processes;
* `Follows`: what a phase says about the mutex and the veneers;
* **`token_apps`**: an app is refused the mutex only while another process has it, it always gives
  it back, and it needs nobody else for that.
-/

namespace RuSpe

open LockSteps (LockStep)

namespace Tock

/-! ## The app -/

/-- Where an app is: in its dialogue, or behind it in `create_psa_token`. -/
inductive Phase
  | dialogue
  | checking
  | reserving
  | yielding
  | calling
  | inside
  | releasing
  deriving DecidableEq, Repr

/-- The app reserved the mutex and did not release it. -/
def Phase.holds : Phase → Bool
  | .calling | .inside | .releasing => true
  | _ => false

/-- The veneer behind `psa_initial_attest_get_token`. -/
def IsGetToken (v : Veneer) : Prop :=
  ∃ mem perm inVec outVec initEntry callEntry, v =
    .psaCall mem perm .attestationService (.new 1001 1 true 1 true) inVec outVec initEntry callEntry

/-- The steps of an app. `exists` and `reserve` are errors unless the reply is a success, and the
result of `release` is not used. -/
inductive Moves (p : ProcessId) : Phase → Event → Phase → Prop
  | checked (reply : CommandReturn) :
      Moves p .checking (.command p 0 reply) (if reply = .success then .reserving else .dialogue)
  | reserve (reply : CommandReturn) :
      Moves p .reserving (.command p 1 reply) (if reply = .success then .calling else .yielding)
  | call (v : Veneer) (h : IsGetToken v) : Moves p .calling (.call p v) .inside
  | rejected (v : Veneer) (h : IsGetToken v) : Moves p .calling (.rejected p v) .releasing
  | step : Moves p .inside (.step p) .inside
  | returned (a : Answer) : Moves p .inside (.returned p a) .releasing
  | release (reply : CommandReturn) : Moves p .releasing (.command p 2 reply) .dialogue

theorem process_of_moves {p : ProcessId} {ph ph' : Phase} {e : Event} (h : Moves p ph e ph') :
    e.process = p := by
  cases h <;> rfl

/-- The steps of an app that the rest of the system does not see: it got a nonce, or `yield_wait`
returned. -/
inductive Moves₀ : Phase → Phase → Prop
  | entered : Moves₀ .dialogue .checking
  | yielded : Moves₀ .yielding .reserving

/-- The phases of the apps beside the system. -/
structure Apps (σ : Type) where
  phase : ProcessId → Phase
  system : System σ

section

variable {σ : Type} [SpmCall σ] [LockTrace σ]

def Apps.boot (s₀ : σ) : Apps σ := ⟨fun _ => .dialogue, Tock.boot s₀⟩

variable (A : ProcessId → Prop)

/-- The steps of all processes: the apps, and the others with any step they can take. -/
inductive AppStep : Apps σ → List Event → Apps σ → Prop
  | app {x : Apps σ} {p : ProcessId} {e : Event} {ph : Phase} {y : System σ} (hp : A p)
      (hs : Step x.system e y) (hm : Moves p (x.phase p) e ph) :
      AppStep x [e] ⟨Function.update x.phase p ph, y⟩
  | quiet {x : Apps σ} {p : ProcessId} {ph : Phase} (hp : A p) (hm : Moves₀ (x.phase p) ph) :
      AppStep x [] ⟨Function.update x.phase p ph, x.system⟩
  | other {x : Apps σ} {e : Event} {y : System σ} (he : ¬ A e.process) (hs : Step x.system e y) :
      AppStep x [e] ⟨x.phase, y⟩

/-- The runs, with their histories, newest first. -/
inductive AppRun (x : Apps σ) : List Event → Apps σ → Prop
  | nil : AppRun x [] x
  | cons {l k : List Event} {y z : Apps σ} (h : AppRun x l y) (hs : AppStep A y k z) :
      AppRun x (k ++ l) z

end

/-! ## What a step leaves to the others -/

section

variable {σ : Type} [SpmCall σ] [LockTrace σ] {x y : System σ} {e : Event} {p : ProcessId}

/-- What the other processes see of a process: whether it owns the mutex, whether it may call, and
where it is inside a veneer. -/
structure Same (p : ProcessId) (x y : System σ) : Prop where
  owner : y.mutex.owner = some p ↔ x.mutex.owner = some p
  reserved : y.reserved p = x.reserved p
  pc : y.veneers.pc p = x.veneers.pc p

theorem pc_enter (x : System σ) (q : ProcessId) (v : Veneer) (h : q ≠ p) :
    ((RuSpe.veneers σ).enter q v x.veneers).2.pc p = x.veneers.pc p := by
  cases hflag : x.veneers.flag with
  | true => rw [GuardedSection.enter_rejected hflag]
  | false =>
    rw [GuardedSection.enter_accepted hflag]
    exact Function.update_of_ne h.symm ..

/-- **A step of one process leaves the others where they are.** -/
theorem same_of_step (hs : Step x e y) (hp : e.process ≠ p) : Same p x y := by
  cases hs with
  | command q cmdNum hq =>
    have hqp : q ≠ p := hp
    refine ⟨?_, ?_, rfl⟩
    · rcases x.mutex.command_cases q cmdNum with ⟨-, hnone, hc⟩ | ⟨-, howner, hc⟩ | ⟨-, hc, -, -⟩
      · simp [hc, hnone, hqp]
      · simp [hc, howner, hqp]
      · rw [hc]
    · dsimp only
      unfold reservedAfter
      split_ifs
      · exact Function.update_of_ne hqp.symm ..
      · exact Function.update_of_ne hqp.symm ..
      · rfl
  | call q v hres hq =>
    have hqp : q ≠ p := by
      rintro rfl
      apply hp
      split_ifs <;> rfl
    exact ⟨Iff.rfl, rfl, pc_enter x q v hqp⟩
  | step q m l r hq => exact ⟨Iff.rfl, rfl, Function.update_of_ne (Ne.symm hp) ..⟩
  | returned q r hq => exact ⟨Iff.rfl, rfl, Function.update_of_ne (Ne.symm hp) ..⟩

end

/-! ## What a phase says -/

section

variable {σ : Type} [SpmCall σ] [LockTrace σ] {x y : System σ} {e : Event} {p : ProcessId}
  {ph ph' : Phase}

/-- The mutex and the veneers are as the phase of the app says. -/
structure Follows (p : ProcessId) (ph : Phase) (x : System σ) : Prop where
  owner : x.mutex.owner = some p ↔ ph.holds = true
  reserved : x.reserved p = ph.holds
  inside : (x.veneers.pc p).isSome ↔ ph = .inside

omit [SpmCall σ] [LockTrace σ] in
theorem Follows.of_same (h : Follows p ph x) (hs : Same p x y) : Follows p ph y :=
  ⟨hs.owner.trans h.owner, hs.reserved.trans h.reserved, by rw [hs.pc]; exact h.inside⟩

omit [SpmCall σ] [LockTrace σ] in
theorem Follows.of_moves₀ (h : Follows p ph x) (hm : Moves₀ ph ph') : Follows p ph' x := by
  cases hm with
  | entered => exact ⟨h.owner, h.reserved, h.inside.trans (by decide)⟩
  | yielded => exact ⟨h.owner, h.reserved, h.inside.trans (by decide)⟩

theorem step_command {cmdNum : Usize} {reply : CommandReturn}
    (hs : Step x (.command p cmdNum reply) y) :
    x.veneers.pc p = none ∧ reply = (x.mutex.command p cmdNum).1 ∧ y = { x with
      mutex := (x.mutex.command p cmdNum).2
      reserved := reservedAfter x.reserved p cmdNum reply } := by
  generalize he : Event.command p cmdNum reply = e at hs
  cases hs with
  | command q c hq =>
    cases he
    exact ⟨hq, rfl, rfl⟩
  | call => split_ifs at he
  | step | returned => cases he

theorem step_call {v : Veneer} (hs : Step x (.call p v) y) : ∃ b, y.veneers.pc p = some b ∧
    y.mutex = x.mutex ∧ y.reserved = x.reserved := by
  generalize he : Event.call p v = e at hs
  cases hs with
  | call q v' hres hq =>
    cases hflag : x.veneers.flag with
    | true =>
      rw [hflag, if_pos rfl] at he
      cases he
    | false =>
      rw [hflag, if_neg Bool.false_ne_true] at he
      cases he
      rw [GuardedSection.enter_accepted hflag]
      exact ⟨_, Function.update_self .., rfl, rfl⟩
  | command | step | returned => cases he

theorem step_rejected {v : Veneer} (hs : Step x (.rejected p v) y) : y = x := by
  generalize he : Event.rejected p v = e at hs
  cases hs with
  | call q v' hres hq =>
    cases hflag : x.veneers.flag with
    | true => rw [GuardedSection.enter_rejected hflag]
    | false =>
      rw [hflag, if_neg Bool.false_ne_true] at he
      cases he
  | command | step | returned => cases he

theorem step_step (hs : Step x (.step p) y) : ∃ b, y.veneers.pc p = some b ∧ y.mutex = x.mutex ∧
    y.reserved = x.reserved := by
  generalize he : Event.step p = e at hs
  cases hs with
  | step q m l r hq =>
    cases he
    exact ⟨_, Function.update_self .., rfl, rfl⟩
  | call => split_ifs at he
  | command | returned => cases he

theorem step_returned {a : Answer} (hs : Step x (.returned p a) y) : y.veneers.pc p = none ∧
    y.mutex = x.mutex ∧ y.reserved = x.reserved := by
  generalize he : Event.returned p a = e at hs
  cases hs with
  | returned q r hq =>
    cases he
    exact ⟨Function.update_self .., rfl, rfl⟩
  | call => split_ifs at he
  | command | step => cases he

omit [SpmCall σ] [LockTrace σ] in
theorem Follows.pc_none (h : Follows p ph x) (hne : ph ≠ .inside) : x.veneers.pc p = none :=
  Option.not_isSome_iff_eq_none.mp fun hsome => hne (h.inside.mp hsome)

omit [SpmCall σ] [LockTrace σ] in
/-- What the driver does for an app that does not own the mutex. -/
theorem reserve_of_not_owner (h : x.mutex.owner ≠ some p) :
    (x.mutex.command p 1 = (.success, ⟨some p⟩) ∧ x.mutex.owner = none) ∨
      x.mutex.command p 1 = (.failure .busy, x.mutex) := by
  obtain ⟨⟨owner⟩, veneers, reserved⟩ := x
  cases owner with
  | none => exact .inl ⟨rfl, rfl⟩
  | some q =>
    refine .inr ?_
    rw [SpeMutex.command_reserve, SpeMutex.reserve]
    exact if_neg fun hq => h (congrArg some hq)

omit [SpmCall σ] [LockTrace σ] in
/-- What the driver does for an app that owns the mutex. -/
theorem release_of_owner (h : x.mutex.owner = some p) :
    x.mutex.command p 2 = (.success, ⟨none⟩) := by
  rw [SpeMutex.command_release, SpeMutex.release, h]
  exact if_pos rfl

/-- **A step of an app leads to the phase it moves to.** -/
theorem follows_of_moves (h : Follows p ph x) (hs : Step x e y) (hm : Moves p ph e ph') :
    Follows p ph' y := by
  cases hm with
  | checked reply =>
    obtain ⟨hpc, rfl, rfl⟩ := step_command hs
    have hsuccess : (x.mutex.command p 0).1 = .success := rfl
    rw [if_pos hsuccess]
    exact ⟨h.owner, h.reserved, h.inside.trans (by decide)⟩
  | reserve reply =>
    obtain ⟨hpc, rfl, rfl⟩ := step_command hs
    have hown : x.mutex.owner ≠ some p := fun ho => Bool.false_ne_true (h.owner.mp ho)
    rcases reserve_of_not_owner hown with ⟨hc, -⟩ | hc
    · rw [hc]
      refine ⟨?_, ?_, ?_⟩
      · simp [Phase.holds]
      · simp [reservedAfter, Phase.holds]
      · simp [hpc]
    · rw [hc]
      refine ⟨?_, ?_, ?_⟩
      · simpa [Phase.holds] using hown
      · simpa [reservedAfter, Phase.holds] using h.reserved
      · simp [hpc]
  | call v hv =>
    obtain ⟨b, hb, hmutex, hreserved⟩ := step_call hs
    exact ⟨by rw [hmutex]; exact h.owner, by rw [hreserved]; exact h.reserved, by simp [hb]⟩
  | rejected v hv =>
    obtain rfl := step_rejected hs
    exact ⟨h.owner, h.reserved, h.inside.trans (by decide)⟩
  | step =>
    obtain ⟨b, hb, hmutex, hreserved⟩ := step_step hs
    exact ⟨by rw [hmutex]; exact h.owner, by rw [hreserved]; exact h.reserved, by simp [hb]⟩
  | returned a =>
    obtain ⟨hb, hmutex, hreserved⟩ := step_returned hs
    exact ⟨by rw [hmutex]; exact h.owner, by rw [hreserved]; exact h.reserved, by simp [hb]⟩
  | release reply =>
    obtain ⟨hpc, rfl, rfl⟩ := step_command hs
    rw [release_of_owner (h.owner.mpr rfl)]
    refine ⟨?_, ?_, ?_⟩
    · simp [Phase.holds]
    · simp [reservedAfter, Phase.holds]
    · simp [hpc]

/-- What the driver replies to an app. -/
theorem reply_of_moves {cmdNum : Usize} {reply : CommandReturn} (h : Follows p ph x)
    (hs : Step x (.command p cmdNum reply) y) (hm : Moves p ph (.command p cmdNum reply) ph') :
    reply = .success ∨ cmdNum = 1 ∧ reply = .failure .busy ∧ x.mutex.owner ≠ none := by
  obtain ⟨-, rfl, -⟩ := step_command hs
  cases hm with
  | checked => exact .inl rfl
  | reserve =>
    have hown : x.mutex.owner ≠ some p := fun ho => Bool.false_ne_true (h.owner.mp ho)
    rcases reserve_of_not_owner hown with ⟨hc, -⟩ | hc
    · exact .inl (congrArg Prod.fst hc)
    · refine .inr ⟨rfl, congrArg Prod.fst hc, fun hnone => ?_⟩
      rw [SpeMutex.command_reserve, SpeMutex.reserve, hnone] at hc
      cases hc
  | release => exact .inl (congrArg Prod.fst (release_of_owner (h.owner.mpr rfl)))

end

/-! ## Runs -/

section

variable {σ : Type} [SpmCall σ] [LockTrace σ] {A : ProcessId → Prop} {x y : Apps σ} {s₀ : σ}
  {l k : List Event}

/-- The apps are where their phases say. -/
def AllFollow (A : ProcessId → Prop) (x : Apps σ) : Prop := ∀ p, A p → Follows p (x.phase p) x.system

theorem allFollow_step (h : AllFollow A x) (hs : AppStep A x k y) : AllFollow A y := by
  intro p hp
  cases hs with
  | @app q e ph y hq hs hm =>
    dsimp only
    by_cases hqp : p = q
    · subst hqp
      rw [Function.update_self]
      exact follows_of_moves (h p hp) hs hm
    · rw [Function.update_of_ne hqp]
      exact (h p hp).of_same (same_of_step hs fun he => hqp (he.symm.trans (process_of_moves hm)))
  | @quiet q ph hq hm =>
    dsimp only
    by_cases hqp : p = q
    · subst hqp
      rw [Function.update_self]
      exact (h p hp).of_moves₀ hm
    · rw [Function.update_of_ne hqp]
      exact h p hp
  | other he hs => exact (h p hp).of_same (same_of_step hs fun hep => he (hep ▸ hp))

omit [SpmCall σ] [LockTrace σ] in
theorem allFollow_boot : AllFollow A (Apps.boot s₀) := fun p _ =>
  ⟨by simp [Apps.boot, boot, SpeMutex.new, Phase.holds], rfl, by simp [Apps.boot, boot]⟩

theorem allFollow_of_run (h : AppRun A (.boot s₀) l x) : AllFollow A x := by
  induction h with
  | nil => exact allFollow_boot
  | cons _ hs ih => exact allFollow_step ih hs

/-- The system of the apps is one of processes with a mutex. -/
theorem run_of_appRun (h : AppRun A (.boot s₀) l x) : Run (Tock.boot s₀) l x.system := by
  induction h with
  | nil => exact .nil
  | cons _ hs ih =>
    cases hs with
    | app _ hs _ | other _ hs => exact ih.cons hs
    | quiet => exact ih

/-- What the driver replied to the apps. -/
theorem replies_of_run (h : AppRun A (.boot s₀) l x) {p : ProcessId} (hp : A p) {cmdNum : Usize}
    {reply : CommandReturn} (hmem : .command p cmdNum reply ∈ l) :
    reply = .success ∨ cmdNum = 1 ∧ reply = .failure .busy := by
  induction h with
  | nil => cases hmem
  | cons h hs ih =>
    rcases List.mem_append.mp hmem with hmem | hmem
    · have hall := allFollow_of_run h
      cases hs with
      | app hq hs hm =>
        obtain rfl := List.mem_singleton.mp hmem
        obtain rfl : p = _ := process_of_moves hm
        rcases reply_of_moves (hall _ hq) hs hm with hr | ⟨hc, hr, -⟩
        · exact .inl hr
        · exact .inr ⟨hc, hr⟩
      | quiet => cases hmem
      | other he _ =>
        obtain rfl := List.mem_singleton.mp hmem
        exact absurd hp he
    · exact ih hmem

theorem AppRun.append {x y z : Apps σ} {l k : List Event} (h : AppRun A x l y)
    (h' : AppRun A y k z) : AppRun A x (k ++ l) z := by
  induction h' with
  | nil => exact h
  | cons _ hs ih =>
    rw [List.append_assoc]
    exact .cons ih hs

/-- The process alone can go on until the mutex is free. -/
def Freed (A : ProcessId → Prop) (p : ProcessId) (x : Apps σ) : Prop :=
  ∃ l y, AppRun A x l y ∧ (∀ e ∈ l, e.process = p) ∧ y.system.mutex.owner = none

theorem freed_of_step {p : ProcessId} {e : Event} {ph : Phase} {y : System σ} (hp : A p)
    (h : Follows p (x.phase p) x.system) (hs : Step x.system e y) (hm : Moves p (x.phase p) e ph)
    (hnext : ∀ z : Apps σ, z.system = y → z.phase p = ph → Follows p (z.phase p) z.system →
      Freed A p z) : Freed A p x := by
  have hph : Function.update x.phase p ph p = ph := Function.update_self ..
  obtain ⟨l, z, hrun, hall, hz⟩ := hnext ⟨Function.update x.phase p ph, y⟩ rfl hph
    (by dsimp only; rw [hph]; exact follows_of_moves h hs hm)
  refine ⟨_, z, (AppRun.nil.cons (.app hp hs hm)).append hrun, fun e' he' => ?_, hz⟩
  rcases List.mem_append.mp he' with he' | he'
  · exact hall e' he'
  · obtain rfl := List.mem_singleton.mp he'
    exact process_of_moves hm

/-- The last phase. -/
theorem freed_releasing {p : ProcessId} (hp : A p) (h : Follows p (x.phase p) x.system)
    (hph : x.phase p = .releasing) : Freed A p x := by
  have hpc := h.pc_none (by rw [hph]; decide)
  have hown : x.system.mutex.owner = some p := h.owner.mpr (by rw [hph]; rfl)
  have hs := Step.command (x := x.system) p 2 hpc
  refine freed_of_step hp h hs (by rw [hph]; exact .release _) fun z hz _ _ =>
    ⟨[], z, .nil, nofun, ?_⟩
  rw [hz, release_of_owner hown]

/-- Inside a veneer: the induction is on the steps that are left. -/
theorem freed_inside {p : ProcessId} (hp : A p) (m : List (LockStep σ)) {r : Answer}
    (h : Follows p (x.phase p) x.system) (hph : x.phase p = .inside)
    (hpc : x.system.veneers.pc p = some ⟨m, r⟩) : Freed A p x := by
  induction m generalizing x with
  | nil =>
    exact freed_of_step hp h (.returned p r hpc) (by rw [hph]; exact .returned r)
      fun z _ hzph hz => freed_releasing hp hz hzph
  | cons m ms ih =>
    refine freed_of_step hp h (.step p m ms r hpc) (by rw [hph]; exact .step)
      fun z hsystem hzph hz => ih hz hzph ?_
    rw [hsystem]
    exact Function.update_self ..

/-- **The owner needs nobody else to free the mutex.** -/
theorem freed_of_owner {p : ProcessId} (hp : A p) (h : Follows p (x.phase p) x.system)
    (ho : x.system.mutex.owner = some p) {v : Veneer} (hv : IsGetToken v) : Freed A p x := by
  have hholds := h.owner.mp ho
  cases hph : x.phase p with
  | dialogue | checking | reserving | yielding =>
    rw [hph] at hholds
    cases hholds
  | calling =>
    have hres : x.system.reserved p = true := h.reserved.trans hholds
    have hs := Step.call (x := x.system) p v hres (h.pc_none (by rw [hph]; decide))
    cases hflag : x.system.veneers.flag with
    | true =>
      rw [hflag, if_pos rfl] at hs
      exact freed_of_step hp h hs (by rw [hph]; exact .rejected v hv)
        fun z _ hzph hz => freed_releasing hp hz hzph
    | false =>
      rw [hflag, if_neg Bool.false_ne_true] at hs
      refine freed_of_step hp h hs (by rw [hph]; exact .call v hv) fun z _ hzph hz => ?_
      obtain ⟨b, hb⟩ := Option.isSome_iff_exists.mp (hz.inside.mpr hzph)
      exact freed_inside hp b.remaining hz hzph hb
  | inside =>
    obtain ⟨b, hb⟩ := Option.isSome_iff_exists.mp (h.inside.mpr hph)
    exact freed_inside hp b.remaining h hph hb
  | releasing => exact freed_releasing hp h hph

/-- What the apps can rely on. -/
structure Orderly (A : ProcessId → Prop) (l : List Event) (x : Apps σ) : Prop where
  replies : ∀ p cmdNum reply, A p → .command p cmdNum reply ∈ l →
    reply = .success ∨ cmdNum = 1 ∧ reply = .failure .busy
  owned : ∀ p, A p → ((x.phase p).holds = true ↔ x.system.mutex.owner = some p)
  freed : ∀ p v, A p → IsGetToken v → x.system.mutex.owner = some p → Freed A p x

theorem orderly_of_run (h : AppRun A (.boot s₀) l x) : Orderly A l x where
  replies _ _ _ hp hmem := replies_of_run h hp hmem
  owned p hp := (allFollow_of_run h p hp).owner.symm
  freed p _ hp hv ho := freed_of_owner hp (allFollow_of_run h p hp) ho hv

end

end Tock

namespace Tock

/-- A call without vectors that could be read. -/
def emptyCall : Veneer :=
  .psaCall (fun _ => 0) (fun _ _ _ _ => false) .attestationService (.new 1001 1 true 1 true) 0 0
    (.done ⟨.ok (), 0, 0⟩) fun _ => .done ⟨.ok (), 0, 0⟩

/-- The first process is an app. The second tries to release its mutex. -/
def disturbed : List Event := [
  .call 1 emptyCall,
  .command 2 2 (.failure .inval),
  .command 1 1 .success,
  .command 1 0 .success]

theorem run_disturbed (s₀ : SpmFn) : ∃ x, AppRun (· = 1) (.boot s₀) disturbed x := by
  have h₁ := AppRun.nil.cons (.quiet (x := .boot s₀) (A := (· = 1)) (p := 1) rfl .entered)
  have h₂ := h₁.cons (.app rfl (.command 1 0 rfl) (.checked .success))
  have h₃ := h₂.cons (.app rfl (.command 1 1 rfl) (.reserve .success))
  have hne : (Event.command 2 2 (.failure .inval)).process ≠ 1 := by decide
  have h₄ := h₃.cons (.other hne (.command 2 2 rfl))
  have h₅ := h₄.cons (.app rfl (.call 1 emptyCall rfl rfl)
    (.call emptyCall ⟨_, _, _, _, _, _, rfl⟩))
  exact ⟨_, h₅⟩

end Tock

end RuSpe
