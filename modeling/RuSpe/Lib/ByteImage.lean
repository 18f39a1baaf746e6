import Mathlib.Tactic

set_option autoImplicit false

/-!
# An image of bytes

A file says for some addresses which byte is there. A byte that is set again replaces the old one.

* `Image`, `get`, `putAll`: the bytes, and bytes in a row that are set;
* `last`, `range`: the last address with a byte, and the bytes of addresses in a row;
* **`get_putAll`**: what an image says after bytes were set;
* **`last_eq_some_iff`**, `range_putAll_of_disjoint`.
-/

namespace ByteImage

/-- The bytes with their addresses, the newest first. -/
abbrev Image := List (ℕ × UInt8)

namespace Image

/-- The byte at an address. -/
def get (im : Image) (a : ℕ) : Option UInt8 := im.lookup a

/-- The last address with a byte. -/
def last (im : Image) : Option ℕ := (im.map Prod.fst).max?

/-- The bytes of `n` addresses from `start` on, with `pad` where there is none. -/
def range (im : Image) (pad : UInt8) (start n : ℕ) : List UInt8 :=
  (List.range n).map fun i => (im.get (start + i)).getD pad

/-- Bytes that are set from `a` on. -/
def putAll : Image → ℕ → List UInt8 → Image
  | im, _, [] => im
  | im, a, b :: bytes => putAll ((a, b) :: im) (a + 1) bytes

variable (im : Image)

theorem get_cons (a : ℕ) (b : UInt8) (x : ℕ) :
    get ((a, b) :: im) x = if x = a then some b else im.get x := by
  unfold get
  by_cases h : x = a
  · rw [if_pos h, h, List.lookup_cons_self]
  · have hne : (x == a) = false := beq_eq_false_iff_ne.mpr h
    rw [if_neg h, List.lookup_cons, hne]

/-- **What the image says after bytes were set.** -/
theorem get_putAll (a : ℕ) (bytes : List UInt8) (x : ℕ) :
    (im.putAll a bytes).get x =
      if a ≤ x ∧ x < a + bytes.length then bytes[x - a]? else im.get x := by
  induction bytes generalizing im a with
  | nil => rw [putAll, if_neg (by simp)]
  | cons b bytes ih =>
    rw [putAll, ih, get_cons, List.length_cons]
    by_cases hx : x = a
    · subst hx
      rw [if_neg (by omega), if_pos rfl, if_pos (by omega), Nat.sub_self]
      rfl
    · rw [if_neg hx]
      by_cases hin : a + 1 ≤ x ∧ x < a + 1 + bytes.length
      · have hsub : x - a = (x - (a + 1)) + 1 := by omega
        rw [if_pos hin, if_pos (by omega), hsub, List.getElem?_cons_succ]
      · rw [if_neg hin, if_neg (by omega)]

theorem get_putAll_inside {a i : ℕ} {bytes : List UInt8} (h : i < bytes.length) :
    (im.putAll a bytes).get (a + i) = bytes[i]? := by
  rw [get_putAll, if_pos (by omega), Nat.add_sub_cancel_left]

/-- Bytes that were set beside the addresses. -/
theorem range_putAll_of_disjoint {a start n : ℕ} {bytes : List UInt8}
    (h : start + n ≤ a ∨ a + bytes.length ≤ start) (pad : UInt8) :
    (im.putAll a bytes).range pad start n = im.range pad start n := by
  unfold range
  refine List.map_congr_left fun i hi => ?_
  have hi' := List.mem_range.mp hi
  rw [get_putAll, if_neg (by omega)]

theorem isSome_get {a : ℕ} : (im.get a).isSome ↔ a ∈ im.map Prod.fst := by
  induction im with
  | nil => simp [get]
  | cons p im ih =>
    obtain ⟨k, b⟩ := p
    rw [get_cons, List.map_cons, List.mem_cons, ← ih]
    by_cases h : a = k <;> simp [h]

/-- **The last address is the greatest that has a byte.** -/
theorem last_eq_some_iff {m : ℕ} :
    im.last = some m ↔ (im.get m).isSome ∧ ∀ a, (im.get a).isSome → a ≤ m := by
  rw [last, List.max?_eq_some_iff, isSome_get]
  refine and_congr_right fun _ => forall_congr' fun a => ?_
  rw [isSome_get]

theorem exists_last {a : ℕ} (h : (im.get a).isSome) : ∃ m, im.last = some m ∧ a ≤ m := by
  have hne : im.map Prod.fst ≠ [] := List.ne_nil_of_mem ((isSome_get im).mp h)
  obtain ⟨m, hm⟩ := Option.isSome_iff_exists.mp (List.isSome_max?_of_ne_nil hne)
  exact ⟨m, hm, ((last_eq_some_iff im).mp hm).2 a h⟩

end Image

end ByteImage
