import Mathlib.Tactic

set_option autoImplicit false

/-!
# Objects that are called

A call changes the state of an object and returns a reply. Two descriptions of an object agree when
every call has the same reply in states that correspond, and leads to such states.

* `run`: the replies to calls in a row, and the state behind them;
* `Views`, **`Views.run`**: a view of the state that every call respects is respected by every run.
-/

namespace Calls

variable {κ ρ σ τ : Type}

/-- The replies to calls in a row, and the state behind them. -/
def run (step : κ → σ → ρ × σ) : List κ → σ → List ρ × σ
  | [], s => ([], s)
  | c :: cs, s =>
    let (r, s) := step c s
    let (rs, s) := run step cs s
    (r :: rs, s)

section

variable {step : κ → σ → ρ × σ}

@[simp] theorem run_nil (s : σ) : run step [] s = ([], s) := rfl

theorem run_cons (c : κ) (cs : List κ) (s : σ) :
    run step (c :: cs) s =
      ((step c s).1 :: (run step cs (step c s).2).1, (run step cs (step c s).2).2) := rfl

/-- Calls after others go on from the state behind these. -/
theorem run_append (cs cs' : List κ) (s : σ) :
    run step (cs ++ cs') s =
      ((run step cs s).1 ++ (run step cs' (run step cs s).2).1,
        (run step cs' (run step cs s).2).2) := by
  induction cs generalizing s with
  | nil => rfl
  | cons c cs ih => rw [List.cons_append, run_cons, run_cons, ih, List.cons_append]

end

/-- A call of the first object is a call of the second on what `view` shows of the state. -/
def Views (step : κ → σ → ρ × σ) (step' : κ → τ → ρ × τ) (view : σ → τ) : Prop :=
  ∀ c s, step' c (view s) = ((step c s).1, view (step c s).2)

/-- **So is a run.** -/
theorem Views.run {step : κ → σ → ρ × σ} {step' : κ → τ → ρ × τ} {view : σ → τ}
    (h : Views step step' view) (cs : List κ) (s : σ) :
    run step' cs (view s) = ((run step cs s).1, view (run step cs s).2) := by
  induction cs generalizing s with
  | nil => rfl
  | cons c cs ih => rw [run_cons, run_cons, h, ih]

end Calls
