import Mathlib.Tactic

set_option autoImplicit false

/-!
# Bit tables in words

Attributes of many objects are kept as bits of words: object `k` has bit `k % w` of word `k / w`.
A program that changes a run of bits may hold one word back and write it when it comes to the next.

* `bit`, **`ext_bit`**: the bits of a table, which say everything about it;
* `getLsbD_foldl_or`: a loop over the bits of one word;
* `assign`, **`bit_update_assign`**: one bit gets a value;
* `Held`, `Held.table`, `seek`, `setBit`: a table with one word held back;
* **`bit_mark`**, **`bit_markAll`**: what the table is when all is written.
-/

namespace BitTable

variable {w : ℕ}

/-- Bit `k` of a table. -/
def bit (t : ℕ → BitVec w) (k : ℕ) : Bool := (t (k / w)).getLsbD (k % w)

/-- A bit of a word, as programs ask for it. -/
theorem ushiftRight_and_one_ne_zero (x : BitVec w) (i : ℕ) :
    x >>> i &&& 1#w ≠ 0 ↔ x.getLsbD i = true := by
  rw [BitVec.and_one_eq_setWidth_ofBool_getLsbD, BitVec.getLsbD_ushiftRight, Nat.add_zero]
  rcases Nat.eq_zero_or_pos w with rfl | hw
  · simp
  · cases x.getLsbD i with
    | false => simp
    | true =>
      refine iff_of_true (fun h => ?_) rfl
      have hbit := congrArg (fun y : BitVec w => y.getLsbD 0) h
      simp [hw] at hbit

/-- A table is its bits. -/
theorem ext_bit [NeZero w] {t t' : ℕ → BitVec w} (h : ∀ k, bit t k = bit t' k) : t = t' := by
  have hw : 0 < w := Nat.pos_of_neZero w
  funext i
  apply BitVec.eq_of_getLsbD_eq
  intro j hj
  have hk := h (w * i + j)
  rw [bit, bit, Nat.mul_add_div hw, Nat.div_eq_of_lt hj, Nat.mul_add_mod, Nat.mod_eq_of_lt hj] at hk
  exact hk

theorem getLsbD_or_one_shiftLeft (x : BitVec w) {i j : ℕ} (hj : j < w) :
    (x ||| 1#w <<< i).getLsbD j = (x.getLsbD j || decide (j = i)) := by
  rw [BitVec.getLsbD_or, BitVec.getLsbD_shiftLeft, BitVec.getLsbD_one]
  by_cases hji : j = i
  · subst hji
    simp [hj, Nat.zero_lt_of_lt hj]
  · rcases Nat.lt_or_gt_of_ne hji with hlt | hgt
    · simp [hji, hlt]
    · simp [hji, Nat.sub_ne_zero_of_lt hgt]

/-- A loop sets the bits that it chooses. -/
theorem getLsbD_foldl_or {ι : Type} (p : ι → Prop) [DecidablePred p] (pos : ι → ℕ) (l : List ι)
    (x : BitVec w) {j : ℕ} (hj : j < w) :
    (l.foldl (fun x a => if p a then x ||| 1#w <<< pos a else x) x).getLsbD j =
      (x.getLsbD j || decide (∃ a ∈ l, p a ∧ j = pos a)) := by
  induction l generalizing x with
  | nil => simp
  | cons a l ih =>
    have hstep : (if p a then x ||| 1#w <<< pos a else x).getLsbD j =
        (x.getLsbD j || decide (p a ∧ j = pos a)) := by
      split_ifs with hp
      · rw [getLsbD_or_one_shiftLeft x hj, decide_eq_decide.mpr (and_iff_right hp)]
      · rw [decide_eq_false fun h => hp h.1, Bool.or_false]
    rw [List.foldl_cons, ih, hstep, Bool.or_assoc, ← Bool.decide_or]
    have hcons := List.exists_mem_cons_iff (fun a => p a ∧ j = pos a) a l
    exact congrArg _ (decide_eq_decide.mpr hcons.symm)

/-! ## Single bits -/

/-- Give bit `i` of a word the value `b`. -/
def assign (i : ℕ) (b : Bool) (x : BitVec w) : BitVec w :=
  x &&& ~~~(1#w <<< i) ||| (BitVec.ofBool b).setWidth w <<< i

theorem getLsbD_assign (x : BitVec w) (b : Bool) (i : ℕ) {j : ℕ} (hj : j < w) :
    (assign i b x).getLsbD j = if j = i then b else x.getLsbD j := by
  have hone : (1#w <<< i).getLsbD j = decide (j = i) := by
    have hor := getLsbD_or_one_shiftLeft (0#w) (i := i) hj
    rwa [BitVec.zero_or, BitVec.getLsbD_zero, Bool.false_or] at hor
  have hval : ((BitVec.ofBool b).setWidth w <<< i).getLsbD j = (decide (j = i) && b) := by
    cases b with
    | false => simp
    | true =>
      have htrue : (BitVec.ofBool true).setWidth w = 1#w := by
        apply BitVec.eq_of_getLsbD_eq
        intro k hk
        simp [BitVec.getLsbD_one, hk]
      rw [htrue, hone, Bool.and_true]
  rw [assign, BitVec.getLsbD_or, BitVec.getLsbD_and, BitVec.getLsbD_not, hone, hval]
  by_cases h : j = i <;> simp [h, hj]

/-- The positions of bit `j` and bit `k` are the same only if they are the same bit. -/
theorem div_mod_inj {j k : ℕ} (hdiv : j / w = k / w) (hmod : j % w = k % w) : j = k := by
  rw [← Nat.div_add_mod j w, ← Nat.div_add_mod k w, hdiv, hmod]

/-- **A table with one word rewritten, bit by bit.** -/
theorem bit_update (t : ℕ → BitVec w) (i : ℕ) (x : BitVec w) (j : ℕ) :
    bit (Function.update t i x) j = if j / w = i then x.getLsbD (j % w) else bit t j := by
  rw [bit, bit]
  split_ifs with h
  · rw [h, Function.update_self]
  · rw [Function.update_of_ne h]

/-- Assigning one bit of the table leaves the others alone. -/
theorem bit_update_assign [NeZero w] (t : ℕ → BitVec w) (k : ℕ) (b : Bool) (j : ℕ) :
    bit (Function.update t (k / w) (assign (k % w) b (t (k / w)))) j =
      if j = k then b else bit t j := by
  rw [bit_update]
  split_ifs with hdiv hk hk
  · rw [hk, getLsbD_assign _ _ _ (Nat.mod_lt k (Nat.pos_of_neZero w)), if_pos rfl]
  · rw [getLsbD_assign _ _ _ (Nat.mod_lt j (Nat.pos_of_neZero w)),
      if_neg fun hmod => hk (div_mod_inj hdiv hmod), ← hdiv]
    rfl
  · exact absurd (hk ▸ rfl) hdiv
  · rfl

/-- A table of which one word is held back. -/
structure Held (w : ℕ) where
  stored : ℕ → BitVec w
  idx : ℕ
  word : BitVec w

namespace Held

/-- The table with the word written. -/
def table (c : Held w) : ℕ → BitVec w := Function.update c.stored c.idx c.word

/-- Write the word and take word `i` instead, if it is another one. -/
def seek (i : ℕ) (c : Held w) : Held w := if i = c.idx then c else ⟨c.table, i, c.table i⟩

/-- Set a bit of the word. -/
def setBit (i : ℕ) (c : Held w) : Held w := { c with word := c.word ||| 1#w <<< i }

/-- Set bit `k` of the table. -/
def mark (c : Held w) (k : ℕ) : Held w := (c.seek (k / w)).setBit (k % w)

theorem table_seek (c : Held w) (i : ℕ) : (c.seek i).table = c.table := by
  unfold seek
  split
  · rfl
  · exact Function.update_eq_self i c.table

theorem idx_seek (c : Held w) (i : ℕ) : (c.seek i).idx = i := by
  unfold seek
  split
  · exact Eq.symm ‹_›
  · rfl

theorem table_setBit (c : Held w) (i : ℕ) :
    (c.setBit i).table = Function.update c.table c.idx (c.table c.idx ||| 1#w <<< i) := by
  unfold setBit table
  rw [Function.update_idem, Function.update_self]

/-- **A mark sets one bit, and no other changes.** -/
theorem bit_mark [NeZero w] (c : Held w) (k j : ℕ) :
    bit (c.mark k).table j = (bit c.table j || decide (j = k)) := by
  have hj : j % w < w := Nat.mod_lt j (Nat.pos_of_neZero w)
  rw [mark, table_setBit, table_seek, idx_seek, bit, bit]
  by_cases hdiv : j / w = k / w
  · have hiff : j = k ↔ j % w = k % w := by
      constructor
      · exact fun h => h ▸ rfl
      · intro hmod
        rw [← Nat.div_add_mod j w, ← Nat.div_add_mod k w, hdiv, hmod]
    rw [hdiv, Function.update_self, getLsbD_or_one_shiftLeft _ hj, decide_eq_decide.mpr hiff]
  · have hne : j ≠ k := fun h => hdiv (h ▸ rfl)
    rw [Function.update_of_ne hdiv, decide_eq_false hne, Bool.or_false]

/-- **Marks one after another set exactly their bits.** -/
theorem bit_markAll [NeZero w] (l : List ℕ) (c : Held w) (j : ℕ) :
    bit (l.foldl mark c).table j = (bit c.table j || decide (j ∈ l)) := by
  induction l generalizing c with
  | nil => simp
  | cons k l ih =>
    rw [List.foldl_cons, ih, bit_mark, Bool.or_assoc]
    simp [Bool.decide_or]

end Held

end BitTable
