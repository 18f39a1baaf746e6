import Mathlib.Tactic

set_option autoImplicit false

/-!
# A section behind a flag

Any number of contexts enter a section, at any time and in any order. An entry swaps a flag: if it
was set the entry is rejected, otherwise the context works through the steps of its body, between
steps of other contexts, and clears the flag at the end. The steps of a body are found from the
shared state at its entry.

* `Section`, `State`, `enter`, `Step`, `Reachable`;
* `Inv`, **`inv_of_reachable`**: at most one body is active, it is never disturbed, and between
  bodies a given property of the shared state holds.
-/

namespace GuardedSection

variable {ι ν μ σ ρ : Type}

/-- What can be asked for, and the bodies. -/
structure Section (ν μ σ ρ : Type) where
  steps : ν → σ → List μ
  act : μ → σ → σ
  result : ν → σ → ρ
  rejected : ν → ρ

/-- What is left of a body, and what it will return. -/
structure Body (μ ρ : Type) where
  remaining : List μ
  result : ρ

/-- The flag, the shared state, and the contexts with the bodies they are in. -/
structure State (ι μ σ ρ : Type) where
  flag : Bool
  shared : σ
  pc : ι → Option (Body μ ρ)

namespace Section

variable (S : Section ν μ σ ρ)

/-- Steps one after another. -/
def actAll (l : List μ) (s : σ) : σ := l.foldl (fun s m => S.act m s) s

@[simp] theorem actAll_nil (s : σ) : S.actAll [] s = s := rfl

@[simp] theorem actAll_cons (m : μ) (l : List μ) (s : σ) :
    S.actAll (m :: l) s = S.actAll l (S.act m s) := rfl

@[simp] theorem actAll_append (l l' : List μ) (s : σ) :
    S.actAll (l ++ l') s = S.actAll l' (S.actAll l s) := List.foldl_append

variable [DecidableEq ι]

/-- An entry: the swap, and what follows from its answer. A rejected entry returns at once. -/
def enter (i : ι) (v : ν) (x : State ι μ σ ρ) : Option ρ × State ι μ σ ρ :=
  let old := x.flag
  let x := { x with flag := true }
  if old then (some (S.rejected v), x)
  else
    (none, { x with pc := Function.update x.pc i (some ⟨S.steps v x.shared, S.result v x.shared⟩) })

/-- The steps of all contexts, with what is returned to whom. -/
inductive Step : State ι μ σ ρ → Option (ι × ρ) → State ι μ σ ρ → Prop
  | enter {x : State ι μ σ ρ} (i : ι) (v : ν) (hi : x.pc i = none) :
      Step x ((S.enter i v x).1.map (i, ·)) (S.enter i v x).2
  | act {x : State ι μ σ ρ} (i : ι) (m : μ) (l : List μ) (r : ρ) (hi : x.pc i = some ⟨m :: l, r⟩) :
      Step x none
        { x with shared := S.act m x.shared, pc := Function.update x.pc i (some ⟨l, r⟩) }
  | exit {x : State ι μ σ ρ} (i : ι) (r : ρ) (hi : x.pc i = some ⟨[], r⟩) :
      Step x (some (i, r)) { x with flag := false, pc := Function.update x.pc i none }

/-- The states of all interleavings. -/
inductive Reachable (s₀ : σ) : State ι μ σ ρ → Prop
  | start : Reachable s₀ ⟨false, s₀, fun _ => none⟩
  | step {x y : State ι μ σ ρ} {r : Option (ι × ρ)} (h : Reachable s₀ x) (hs : S.Step x r y) :
      Reachable s₀ y

end Section

/-! ## Entering -/

section

variable {S : Section ν μ σ ρ} [DecidableEq ι] {x : State ι μ σ ρ}

theorem enter_rejected (h : x.flag = true) (i : ι) (v : ν) :
    S.enter i v x = (some (S.rejected v), x) := by
  obtain ⟨flag, shared, pc⟩ := x
  obtain rfl : flag = true := h
  rfl

theorem enter_accepted (h : x.flag = false) (i : ι) (v : ν) :
    S.enter i v x = (none, ⟨true, x.shared,
      Function.update x.pc i (some ⟨S.steps v x.shared, S.result v x.shared⟩)⟩) := by
  rw [Section.enter, h]
  rfl

end

/-! ## The invariant -/

/-- What holds in all interleavings, for a property `Idle` of the shared state between bodies. The
active body has done a part of its steps, and nobody else has done anything since it entered. -/
structure Inv (S : Section ν μ σ ρ) (Idle : σ → Prop) (x : State ι μ σ ρ) : Prop where
  unique : ∀ i j, (x.pc i).isSome = true → (x.pc j).isSome = true → i = j
  flag : x.flag = true ↔ ∃ i, (x.pc i).isSome = true
  idle : x.flag = false → Idle x.shared
  undisturbed : ∀ i b, x.pc i = some b → ∃ v s done, Idle s ∧ S.steps v s = done ++ b.remaining ∧
    x.shared = S.actAll done s ∧ b.result = S.result v s

section

variable {S : Section ν μ σ ρ} {Idle : σ → Prop} {x y : State ι μ σ ρ}

theorem Inv.start {s₀ : σ} (h : Idle s₀) :
    Inv S Idle (⟨false, s₀, fun _ => none⟩ : State ι μ σ ρ) where
  unique _ _ hi := nomatch hi
  flag := ⟨nofun, fun ⟨_, hi⟩ => nomatch hi⟩
  idle _ := h
  undisturbed _ _ hi := nomatch hi

/-- While the flag is clear, nobody is inside. -/
theorem Inv.outside (h : Inv S Idle x) (hf : x.flag = false) (i : ι) : x.pc i = none := by
  by_contra hi
  have := h.flag.mpr ⟨i, Option.isSome_iff_ne_none.mpr hi⟩
  rw [hf] at this
  cases this

variable [DecidableEq ι]

/-- One context is inside, and its body goes on as it began. -/
theorem Inv.inside {i : ι} {pc : ι → Option (Body μ ρ)} {b : Body μ ρ} {v : ν} {s t : σ}
    {done : List μ} (hpc : ∀ j, j ≠ i → pc j = none) (hs : Idle s)
    (hd : S.steps v s = done ++ b.remaining) (ht : t = S.actAll done s)
    (hr : b.result = S.result v s) :
    Inv S Idle ⟨true, t, Function.update pc i (some b)⟩ := by
  have hin : ∀ j, (Function.update pc i (some b) j).isSome = true → j = i := by
    intro j hj
    by_contra hne
    rw [Function.update_of_ne hne, hpc j hne] at hj
    cases hj
  refine ⟨fun j k hj hk => (hin j hj).trans (hin k hk).symm, ?_, nofun, fun j b' hj => ?_⟩
  · refine iff_of_true rfl ⟨i, ?_⟩
    dsimp only
    rw [Function.update_self]
    rfl
  · dsimp only at hj
    obtain rfl := hin j (by rw [hj]; rfl)
    rw [Function.update_self] at hj
    obtain rfl := Option.some.inj hj
    exact ⟨v, s, done, hs, hd, ht, hr⟩

theorem inv_step (hidle : ∀ v s, Idle s → Idle (S.actAll (S.steps v s) s)) {r : Option (ι × ρ)}
    (h : Inv S Idle x) (hs : S.Step x r y) : Inv S Idle y := by
  have hothers : ∀ {i b}, x.pc i = some b → ∀ j, j ≠ i → x.pc j = none := by
    intro i b hi j hne
    by_contra hj
    exact hne (h.unique j i (Option.isSome_iff_ne_none.mpr hj) (by rw [hi]; rfl))
  cases hs with
  | enter i v hi =>
    cases hf : x.flag with
    | true =>
      rw [enter_rejected hf]
      exact h
    | false =>
      rw [enter_accepted hf]
      exact .inside (fun j _ => h.outside hf j) (h.idle hf) (List.nil_append _).symm rfl rfl
  | act i m l b hi =>
    obtain ⟨v, s, done, hidl, hd, hsh, hres⟩ := h.undisturbed i _ hi
    have hf : x.flag = true := h.flag.mpr ⟨i, by rw [hi]; rfl⟩
    rw [hf]
    have hsteps : S.steps v s = (done ++ [m]) ++ l := by
      rw [hd, List.append_assoc]
      rfl
    refine .inside (hothers hi) hidl hsteps ?_ hres
    rw [hsh, Section.actAll_append]
    rfl
  | exit i b hi =>
    obtain ⟨v, s, done, hidl, hd, hsh, -⟩ := h.undisturbed i _ hi
    have hnone : ∀ j, Function.update x.pc i none j = none := by
      intro j
      by_cases hj : j = i
      · rw [hj, Function.update_self]
      · rw [Function.update_of_ne hj, hothers hi j hj]
    have hnot : ∀ j, ¬ (Function.update x.pc i none j).isSome = true := fun j hj => by
      rw [hnone j] at hj
      cases hj
    refine ⟨fun j _ hj _ => absurd hj (hnot j), iff_of_false nofun fun ⟨j, hj⟩ => hnot j hj,
      fun _ => ?_, fun j b' hj => ?_⟩
    · have hdone := hidle v s hidl
      rw [hd, List.append_nil] at hdone
      exact hsh.symm ▸ hdone
    · exact absurd (by rw [show Function.update x.pc i none j = some b' from hj]; rfl) (hnot j)

/-- **The invariant holds in all interleavings**, if bodies keep the property of the shared state. -/
theorem inv_of_reachable {s₀ : σ} (h₀ : Idle s₀)
    (hidle : ∀ v s, Idle s → Idle (S.actAll (S.steps v s) s)) (h : S.Reachable s₀ x) :
    Inv S Idle x := by
  induction h with
  | start => exact .start h₀
  | step _ hs ih => exact inv_step hidle ih hs

end

end GuardedSection
