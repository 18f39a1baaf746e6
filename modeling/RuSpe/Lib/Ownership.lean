import Mathlib.Tactic
import Mathlib.Order.CompletePartialOrder

set_option autoImplicit false

/-!
# Objects that own blocks

A call gets some objects, and allocates and frees blocks. What it does with blocks that its objects
do not own is nothing.

* `Into`: from one set of live blocks to another, only what the objects own has changed;
* `Into.trans`, `Into.frame`: one call after another, and objects that a call does not get;
* **`Into.same_iff`**: when the calls have left nothing behind.
-/

namespace Ownership

variable {β : Type} {live live' live'' owned owned' owned'' : Set β}

/-- The blocks in `live` became those in `live'`, through objects that owned `owned` and own
`owned'` now. -/
def Into (live owned live' owned' : Set β) : Prop := live' \ owned' = live \ owned

theorem Into.refl (live owned : Set β) : Into live owned live owned := rfl

theorem Into.trans (h : Into live owned live' owned') (h' : Into live' owned' live'' owned'') :
    Into live owned live'' owned'' :=
  Eq.trans h' h

/-- Other objects keep what they own. -/
theorem Into.frame (h : Into live owned live' owned') (rest : Set β) :
    Into live (owned ∪ rest) live' (owned' ∪ rest) := by
  unfold Into at h ⊢
  rw [← Set.sdiff_sdiff, h, Set.sdiff_sdiff]

/-- A new object, beside others. -/
theorem Into.new (h : Into live ∅ live' owned') (rest : Set β) :
    Into live rest live' (owned' ∪ rest) := by
  have hframe := h.frame rest
  rwa [Set.empty_union] at hframe

/-- The last object was released. -/
theorem Into.released (h : Into live ∅ live' owned') : live' \ owned' = live :=
  Eq.trans h Set.sdiff_empty

/-- **Calls leave nothing behind exactly if the objects own nothing live at the end.** -/
theorem Into.same_iff (h : Into live ∅ live' owned') : live' = live ↔ Disjoint live' owned' := by
  rw [← h.released, eq_comm, sdiff_eq_left]

end Ownership
