import Mathlib.Tactic

set_option autoImplicit false

/-!
# First come, first served

Requests come one after another. One finds a place if it is acceptable, fewer than `capacity` found
one before it, and it clashes with none of these. Otherwise it is dropped.

* `Rules`, `Rules.add`, `Rules.place`;
* `foldl_add_induction`, `pairwise_place`: what found a place;
* **`place_eq_self`**: few requests that fit and do not clash all find one.
-/

namespace FirstFit

variable {α : Type}

/-- When a request finds a place; `clash a b` for a new request `a` and an earlier one `b`. -/
structure Rules (α : Type) where
  capacity : ℕ
  fits : α → Bool
  clash : α → α → Bool

namespace Rules

variable (R : Rules α)

/-- The request `a` finds a place beside those in `placed`. -/
def Admits (placed : List α) (a : α) : Prop :=
  R.fits a = true ∧ placed.length < R.capacity ∧ ∀ b ∈ placed, R.clash a b = false

instance (placed : List α) (a : α) : Decidable (R.Admits placed a) :=
  inferInstanceAs (Decidable (_ ∧ _ ∧ _))

/-- One request. -/
def add (placed : List α) (a : α) : List α := if R.Admits placed a then placed ++ [a] else placed

/-- The requests that find a place. -/
def place (l : List α) : List α := l.foldl R.add []

end Rules

variable {R : Rules α} {placed l : List α} {a : α}

theorem add_of_admits (h : R.Admits placed a) : R.add placed a = placed ++ [a] := if_pos h

theorem add_of_not_admits (h : ¬ R.Admits placed a) : R.add placed a = placed := if_neg h

/-- A property of what was placed that one request keeps. -/
theorem foldl_add_induction {P : List α → Prop} (h₀ : P placed)
    (hstep : ∀ placed a, P placed → R.Admits placed a → P (placed ++ [a])) :
    P (l.foldl R.add placed) := by
  induction l generalizing placed with
  | nil => exact h₀
  | cons a l ih =>
    refine ih ?_
    by_cases ha : R.Admits placed a
    · rw [add_of_admits ha]
      exact hstep placed a h₀ ha
    · rw [add_of_not_admits ha]
      exact h₀

/-- What was placed does not clash. -/
theorem pairwise_place : (R.place l).Pairwise fun b a => R.clash a b = false := by
  refine foldl_add_induction (P := List.Pairwise fun b a => R.clash a b = false) .nil ?_
  intro placed a h ha
  refine List.pairwise_append.mpr ⟨h, List.pairwise_singleton _ a, fun b hb c hc => ?_⟩
  rw [List.mem_singleton.mp hc]
  exact ha.2.2 b hb

/-- Only requests find a place. -/
theorem mem_of_mem_place : ∀ a ∈ R.place l, a ∈ l := by
  suffices h : ∀ placed, ∀ a ∈ l.foldl R.add placed, a ∈ placed ∨ a ∈ l by
    intro a ha
    exact (h [] a ha).resolve_left List.not_mem_nil
  induction l with
  | nil => exact fun placed a ha => .inl ha
  | cons b l ih =>
    intro placed a ha
    rcases ih (R.add placed b) a ha with ha | ha
    · by_cases hb : R.Admits placed b
      · rw [add_of_admits hb] at ha
        rcases List.mem_append.mp ha with ha | ha
        · exact .inl ha
        · rw [List.mem_singleton.mp ha]
          exact .inr List.mem_cons_self
      · rw [add_of_not_admits hb] at ha
        exact .inl ha
    · exact .inr (List.mem_cons_of_mem b ha)

/-- Requests that fit and clash neither with each other nor with what was placed, and for which
there is room, are all placed. -/
theorem foldl_add_eq (hf : ∀ a ∈ l, R.fits a = true) (hn : placed.length + l.length ≤ R.capacity)
    (hp : ∀ b ∈ placed, ∀ a ∈ l, R.clash a b = false)
    (hl : l.Pairwise fun b a => R.clash a b = false) : l.foldl R.add placed = placed ++ l := by
  induction l generalizing placed with
  | nil => rw [List.append_nil, List.foldl_nil]
  | cons a l ih =>
    rw [List.length_cons] at hn
    obtain ⟨ha, hl⟩ := List.pairwise_cons.mp hl
    have hadm : R.Admits placed a :=
      ⟨hf a List.mem_cons_self, by omega, fun b hb => hp b hb a List.mem_cons_self⟩
    rw [List.foldl_cons, add_of_admits hadm, ih]
    · rw [List.append_assoc, List.singleton_append]
    · exact fun b hb => hf b (List.mem_cons_of_mem a hb)
    · rw [List.length_append, List.length_singleton]
      omega
    · intro b hb c hc
      rcases List.mem_append.mp hb with hb | hb
      · exact hp b hb c (List.mem_cons_of_mem a hc)
      · rw [List.mem_singleton.mp hb]
        exact ha c hc
    · exact hl

/-- **Few requests that fit and do not clash all find a place.** -/
theorem place_eq_self (hf : ∀ a ∈ l, R.fits a = true) (hn : l.length ≤ R.capacity)
    (hl : l.Pairwise fun b a => R.clash a b = false) : R.place l = l :=
  foldl_add_eq hf (by rwa [List.length_nil, Nat.zero_add]) (fun _ hb => nomatch hb) hl

end FirstFit
