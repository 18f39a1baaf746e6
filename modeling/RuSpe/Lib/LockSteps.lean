import Mathlib.Tactic

set_option autoImplicit false

/-!
# What code does around a lock

Code is taken apart into the steps that others can come between: it acquires the lock, works, and
releases it again. Work inside and outside of the lock looks the same.

* `Lockable`, `LockStep`, `LockStep.act`, `actAll`;
* `Brackets`: the lock is acquired only while it is free, and released after;
* **`Brackets.of_append`**: the lock is free wherever bracketed code acquires it;
* `Traces`: bracketed steps from one state to another.
-/

namespace LockSteps

/-- A state with a lock. -/
class Lockable (σ : Type) where
  locked : σ → Bool
  setLocked : Bool → σ → σ
  locked_setLocked : ∀ b s, locked (setLocked b s) = b

open Lockable (locked setLocked)

/-- A step of code that uses the lock. -/
inductive LockStep (σ : Type)
  | acquire
  | work (f : σ → σ)
  | release

variable {σ : Type} [Lockable σ]

/-- What the step does. Acquiring a lock that is held does nothing. -/
def LockStep.act : LockStep σ → σ → σ
  | .acquire, s => if locked s then s else setLocked true s
  | .work f, s => f s
  | .release, s => setLocked false s

/-- Steps one after another. -/
def actAll (l : List (LockStep σ)) (s : σ) : σ := l.foldl (fun s m => m.act s) s

theorem actAll_append (l l' : List (LockStep σ)) (s : σ) :
    actAll (l ++ l') s = actAll l' (actAll l s) := List.foldl_append

/-- From a lock in the given state the steps acquire it only while it is free, release it only while
it is held, leave it free at the end, and never touch it otherwise. -/
def Brackets : Bool → List (LockStep σ) → Prop
  | b, [] => b = false
  | b, .acquire :: l => b = false ∧ Brackets true l
  | b, .work f :: l => (∀ s, locked (f s) = locked s) ∧ Brackets b l
  | b, .release :: l => b = true ∧ Brackets false l

theorem Brackets.append {b : Bool} {l l' : List (LockStep σ)} (h : Brackets b l)
    (h' : Brackets false l') : Brackets b (l ++ l') := by
  induction l generalizing b with
  | nil =>
    obtain rfl : b = false := h
    exact h'
  | cons m l ih =>
    cases m with
    | acquire => exact ⟨h.1, ih h.2⟩
    | work f => exact ⟨h.1, ih h.2⟩
    | release => exact ⟨h.1, ih h.2⟩

/-- **What is left of bracketed code is bracketed**, from the state that its first part leads to. -/
theorem Brackets.of_append {l l' : List (LockStep σ)} {s : σ} (h : Brackets (locked s) (l ++ l')) :
    Brackets (locked (actAll l s)) l' := by
  induction l generalizing s with
  | nil => exact h
  | cons m l ih =>
    refine ih (s := m.act s) ?_
    cases m with
    | acquire =>
      obtain ⟨hb, h⟩ := h
      rw [LockStep.act, if_neg (by rw [hb]; exact Bool.false_ne_true), Lockable.locked_setLocked]
      exact h
    | work f =>
      rw [LockStep.act, h.1]
      exact h.2
    | release =>
      rw [LockStep.act, Lockable.locked_setLocked]
      exact h.2

/-- Bracketed steps that lead from `s` to `t`. -/
structure Traces (s : σ) (l : List (LockStep σ)) (t : σ) : Prop where
  brackets : Brackets (locked s) l
  eq : actAll l s = t
  free : locked t = false

theorem Traces.nil {s : σ} (h : locked s = false) : Traces s [] s := ⟨h, rfl, h⟩

theorem Traces.append {s t u : σ} {l l' : List (LockStep σ)} (h : Traces s l t)
    (h' : Traces t l' u) : Traces s (l ++ l') u where
  brackets := h.brackets.append (h.free ▸ h'.brackets)
  eq := by rw [actAll_append, h.eq, h'.eq]
  free := h'.free

/-- Work outside of the lock. -/
theorem Traces.work {s : σ} {f : σ → σ} (h : locked s = false)
    (hf : ∀ s, locked (f s) = locked s) : Traces s [.work f] (f s) :=
  ⟨⟨hf, h⟩, rfl, (hf s).trans h⟩

/-- The steps of `try_lock` with work `f`: if the lock is held, it is only tried. -/
def tryLock (f : σ → σ) (s : σ) : List (LockStep σ) :=
  if locked s then [.acquire] else [.acquire, .work f, .release]

theorem traces_tryLock {s : σ} {f : σ → σ} (h : locked s = false)
    (hf : ∀ s, locked (f s) = locked s) :
    Traces s (tryLock f s) (setLocked false (f (setLocked true s))) := by
  rw [tryLock, if_neg (by rw [h]; exact Bool.false_ne_true)]
  refine ⟨⟨h, hf, rfl, rfl⟩, ?_, Lockable.locked_setLocked _ _⟩
  simp only [actAll, List.foldl_cons, List.foldl_nil, LockStep.act, h, Bool.false_eq_true, if_false]

end LockSteps
