import Mathlib.Tactic

set_option autoImplicit false

/-!
# A device that runs by itself

A device changes by events of its own, and software sees it only when it accesses it. A schedule
says which events happen before each access, so it stands for any timing between the two.

* `Clocked`, `tick`, `after`: the device at an access, and after a number of accesses;
* `rel_after`: what no event undoes stays;
* **`count_lt_iff`**: a counter of events is larger at a later access exactly if one happened in
  between.
-/

namespace Schedule

variable {ε δ : Type}

/-- A device, and the number of accesses so far. -/
structure Clocked (δ : Type) where
  dev : δ
  time : ℕ

/-- The events of a list, one after another. -/
def applyAll (apply : ε → δ → δ) (l : List ε) (d : δ) : δ := l.foldl (fun d e => apply e d) d

@[simp] theorem applyAll_nil (apply : ε → δ → δ) (d : δ) : applyAll apply [] d = d := rfl

@[simp] theorem applyAll_cons (apply : ε → δ → δ) (e : ε) (l : List ε) (d : δ) :
    applyAll apply (e :: l) d = applyAll apply l (apply e d) := rfl

section

variable (apply : ε → δ → δ) (hw : ℕ → List ε)

/-- The device as the next access sees it. -/
def tick (c : Clocked δ) : Clocked δ := ⟨applyAll apply (hw c.time) c.dev, c.time + 1⟩

/-- The device as the `n`-th access from now sees it. -/
def after (n : ℕ) (c : Clocked δ) : Clocked δ := (tick apply hw)^[n] c

end

variable {apply : ε → δ → δ} {hw : ℕ → List ε}

@[simp] theorem after_zero (c : Clocked δ) : after apply hw 0 c = c := rfl

theorem after_succ (n : ℕ) (c : Clocked δ) :
    after apply hw (n + 1) c = tick apply hw (after apply hw n c) :=
  Function.iterate_succ_apply' _ _ _

@[simp] theorem tick_after (n : ℕ) (c : Clocked δ) :
    tick apply hw (after apply hw n c) = after apply hw (n + 1) c := (after_succ n c).symm

theorem after_after (m n : ℕ) (c : Clocked δ) :
    after apply hw n (after apply hw m c) = after apply hw (m + n) c := by
  rw [after, after, after, Nat.add_comm, Function.iterate_add_apply]

theorem time_after (n : ℕ) (c : Clocked δ) : (after apply hw n c).time = c.time + n := by
  induction n with
  | zero => rfl
  | succ n ih => rw [after_succ, tick, ih, Nat.add_assoc]

theorem dev_after_succ (n : ℕ) (c : Clocked δ) : (after apply hw (n + 1) c).dev =
    applyAll apply (hw (c.time + n)) (after apply hw n c).dev := by
  rw [after_succ, tick, time_after]

/-! ## What stays -/

section

variable {R : δ → δ → Prop}

theorem rel_applyAll (hrefl : ∀ d, R d d) (htrans : ∀ a b c, R a b → R b c → R a c) {l : List ε}
    (h : ∀ e ∈ l, ∀ d, R d (apply e d)) (d : δ) : R d (applyAll apply l d) := by
  induction l generalizing d with
  | nil => exact hrefl d
  | cons e l ih =>
    rw [List.forall_mem_cons] at h
    exact htrans _ _ _ (h.1 d) (ih h.2 (apply e d))

/-- A preorder that each event of the schedule respects holds from any access to any later one. -/
theorem rel_after (hrefl : ∀ d, R d d) (htrans : ∀ a b c, R a b → R b c → R a c)
    (h : ∀ k, ∀ e ∈ hw k, ∀ d, R d (apply e d)) (c : Clocked δ) {m n : ℕ} (hmn : m ≤ n) :
    R (after apply hw m c).dev (after apply hw n c).dev := by
  induction n, hmn using Nat.le_induction with
  | base => exact hrefl _
  | succ n _ ih =>
    rw [dev_after_succ]
    exact htrans _ _ _ ih (rel_applyAll hrefl htrans (h _) _)

end

/-! ## Counters -/

section

variable {count : δ → ℕ} {counts : ε → Bool}

theorem count_applyAll (h : ∀ e d, count (apply e d) = count d + (counts e).toNat) (l : List ε)
    (d : δ) : count (applyAll apply l d) = count d + l.countP counts := by
  induction l generalizing d with
  | nil => rfl
  | cons e l ih =>
    rw [applyAll_cons, ih, h, List.countP_cons, Nat.add_assoc, Nat.add_comm (counts e).toNat]
    cases counts e <;> rfl

/-- **A counter grows between two accesses exactly if one of its events happens between them.** -/
theorem count_lt_iff (h : ∀ e d, count (apply e d) = count d + (counts e).toNat) (c : Clocked δ)
    {m n : ℕ} (hmn : m ≤ n) :
    count (after apply hw m c).dev < count (after apply hw n c).dev ↔
      ∃ k, m ≤ k ∧ k < n ∧ (hw (c.time + k)).any counts = true := by
  have hmono : ∀ {a b : ℕ}, a ≤ b →
      count (after apply hw a c).dev ≤ count (after apply hw b c).dev := fun hab =>
    rel_after (R := fun d d' => count d ≤ count d') (fun _ => le_rfl) (fun _ _ _ => le_trans)
      (fun _ e _ d => by rw [h]; exact Nat.le_add_right _ _) c hab
  induction hmn with
  | refl =>
    constructor
    · exact fun hlt => absurd hlt (lt_irrefl _)
    · rintro ⟨k, hk, hk', -⟩
      omega
  | @step n hmn ih =>
    have hstep : count (after apply hw m c).dev < count (after apply hw n c).dev +
        (hw (c.time + n)).countP counts ↔
        count (after apply hw m c).dev < count (after apply hw n c).dev ∨
          0 < (hw (c.time + n)).countP counts := by
      have := hmono hmn
      omega
    rw [Nat.succ_eq_add_one, dev_after_succ, count_applyAll h, hstep]
    refine (or_congr ih (List.countP_pos_iff.trans List.any_eq_true.symm)).trans ?_
    constructor
    · rintro (⟨k, hk, hkn, hany⟩ | hany)
      · exact ⟨k, hk, by omega, hany⟩
      · exact ⟨n, hmn, Nat.lt_succ_self n, hany⟩
    · rintro ⟨k, hk, hkn, hany⟩
      rcases Nat.lt_succ_iff_lt_or_eq.mp hkn with hlt | rfl
      · exact Or.inl ⟨k, hk, hlt, hany⟩
      · exact Or.inr hany

end

end Schedule
