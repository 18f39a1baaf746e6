import Mathlib.Tactic

set_option autoImplicit false

/-!
# Stacks whose top can be lent

A stack of values in which the top one may be handed out to a borrower. While it is lent its place
is marked, work above it may push and pop freely, and the borrower gives back a value for the same
place. `Kept R s t` says that all work since `s` is finished: the same places are there, the ones
below the top are untouched, and the top one changed only along `R`, and only if it was not lent.

* `LentStack`, `push`, `pop`, `lend`, `giveBack`;
* `Kept`, `Kept.refl`, `Kept.trans`, `Kept.length_eq`;
* **`Kept.pop_push`**: finished work above a push pops back to where it started;
* **`Kept.giveBack_lend`**: finished work during a loan leaves a place to give back to.
-/

namespace LentStack

/-- A place on the stack: its value, and whether the value is lent out. -/
structure Place (α : Type) where
  lent : Bool
  val : α
  deriving DecidableEq, Repr

end LentStack

/-- A stack of places, top first. -/
abbrev LentStack (α : Type) := List (LentStack.Place α)

namespace LentStack

variable {α : Type}

/-- Put `x` on top. -/
def push (x : α) (s : LentStack α) : LentStack α := ⟨false, x⟩ :: s

/-- Remove the top place. -/
def pop (s : LentStack α) : LentStack α := s.tail

/-- Hand out the top value, unless it is lent already. -/
def lend : LentStack α → Option (α × LentStack α)
  | ⟨false, x⟩ :: s => some (x, ⟨true, x⟩ :: s)
  | _ => none

/-- Put a value back into a lent top place. -/
def giveBack (y : α) : LentStack α → Option (LentStack α)
  | ⟨true, _⟩ :: s => some (⟨false, y⟩ :: s)
  | _ => none

/-- All work since `s` is finished in `t`, and changed the top value along `R` at most. -/
inductive Kept (R : α → α → Prop) : LentStack α → LentStack α → Prop
  | nil : Kept R [] []
  | cons (p q : Place α) (s : LentStack α) (hl : q.lent = p.lent)
      (hv : p.lent = true → q.val = p.val) (hr : R p.val q.val) : Kept R (p :: s) (q :: s)

namespace Kept

variable {R : α → α → Prop} {s t u : LentStack α}

@[refl] theorem refl [Std.Refl R] (s : LentStack α) : Kept R s s := by
  cases s with
  | nil => exact .nil
  | cons p s => exact .cons p p s rfl (fun _ => rfl) (Std.Refl.refl p.val)

theorem trans [IsTrans α R] (h : Kept R s t) (h' : Kept R t u) : Kept R s u := by
  cases h with
  | nil => exact h'
  | cons p q r hl hv hr =>
    cases h' with
    | cons _ q' _ hl' hv' hr' =>
      refine .cons p q' r (hl'.trans hl) (fun h => ?_) (IsTrans.trans _ _ _ hr hr')
      exact (hv' (hl.trans h)).trans (hv h)

theorem length_eq (h : Kept R s t) : t.length = s.length := by
  cases h <;> rfl

theorem tail_eq (h : Kept R s t) : t.tail = s.tail := by
  cases h <;> rfl

/-- **Finished work above a push pops back to where it started.** -/
theorem pop_push {x : α} (h : Kept R (push x s) t) : pop t = s := h.tail_eq

/-- A lent top place stays lent, with the value it had. -/
theorem of_lent {x : α} (h : Kept R (⟨true, x⟩ :: s) t) : t = ⟨true, x⟩ :: s := by
  cases h with
  | cons _ q _ hl hv _ =>
    obtain ⟨l, v⟩ := q
    obtain rfl : l = true := hl
    obtain rfl : v = x := hv rfl
    rfl

/-- **Finished work during a loan leaves a place to give back to.** -/
theorem giveBack_lend {x y : α} (hs : lend s = some (x, u)) (h : Kept R u t) (hxy : R x y) :
    ∃ w, giveBack y t = some w ∧ Kept R s w := by
  match s, hs with
  | ⟨false, x⟩ :: r, rfl =>
    obtain rfl := h.of_lent
    exact ⟨_, rfl, .cons _ _ r rfl (fun h => Bool.noConfusion h) hxy⟩

end Kept

/-- **The value that is lent is the one pushed last and not popped since**, as finished work left
it: under it lies exactly the stack it was pushed on. -/
theorem lend_of_kept_push {R : α → α → Prop} {x y : α} {s t u : LentStack α}
    (h : Kept R (push x s) t) (hl : lend t = some (y, u)) :
    t = push y s ∧ pop u = s ∧ R x y := by
  cases h with
  | cons _ q _ hq _ hr =>
    obtain ⟨l, v⟩ := q
    obtain rfl : l = false := hq
    cases hl
    exact ⟨rfl, rfl, hr⟩

/-- Nothing is lent while the top place is. -/
theorem lend_of_kept_lent {R : α → α → Prop} {x : α} {s t u : LentStack α}
    (hs : lend s = some (x, u)) (h : Kept R u t) : lend t = none := by
  match s, hs with
  | ⟨false, x⟩ :: r, rfl =>
    obtain rfl := h.of_lent
    rfl

end LentStack
