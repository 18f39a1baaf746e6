import Mathlib.Tactic

set_option autoImplicit false

/-!
# Banks of registers

A bank is a row of registers of one width, which a driver goes over with a loop. An index behind the
last register is a panic. A register may hold the attributes of several objects side by side, each
in a slot of the same width.

* `upTo`, `upThrough`: what a loop over machine integers goes through;
* `Bank`, `word`, `modify`, `put`: a bank, and the rewriting of one register; `ext_word`;
* **`foldlM_modify`**, `foldlM_modify_toNat`: a loop rewrites its registers, each once, and no other;
* `fill`: the first registers are written;
* `slot`, `clear`, `store`: the slots of a word; **`slot_foldl_clear`**: a loop over them.
-/

namespace RegisterBank

variable {w n : ℕ}

/-! ## Loops over machine integers -/

/-- `a..b`. -/
def upTo (a b : BitVec w) : List (BitVec w) :=
  (List.range' a.toNat (b.toNat - a.toNat)).map (BitVec.ofNat w)

/-- `a..=b`. -/
def upThrough (a b : BitVec w) : List (BitVec w) :=
  (List.range' a.toNat (b.toNat + 1 - a.toNat)).map (BitVec.ofNat w)

theorem map_toNat_ofNat {l : List ℕ} (h : ∀ k ∈ l, k < 2 ^ w) :
    (l.map (BitVec.ofNat w)).map BitVec.toNat = l := by
  rw [List.map_map]
  refine (List.map_congr_left fun k hk => ?_).trans (List.map_id l)
  exact (BitVec.toNat_ofNat k w).trans (Nat.mod_eq_of_lt (h k hk))

theorem map_toNat_upTo (a b : BitVec w) :
    (upTo a b).map BitVec.toNat = List.range' a.toNat (b.toNat - a.toNat) := by
  refine map_toNat_ofNat fun k hk => ?_
  rw [List.mem_range'_1] at hk
  have hb := b.isLt
  omega

theorem map_toNat_upThrough (a b : BitVec w) :
    (upThrough a b).map BitVec.toNat = List.range' a.toNat (b.toNat + 1 - a.toNat) := by
  refine map_toNat_ofNat fun k hk => ?_
  rw [List.mem_range'_1] at hk
  have hb := b.isLt
  omega

theorem mem_upTo {a b k : BitVec w} : k ∈ upTo a b ↔ a ≤ k ∧ k < b := by
  rw [← List.mem_map_of_injective (f := BitVec.toNat) fun _ _ => BitVec.eq_of_toNat_eq,
    map_toNat_upTo, List.mem_range'_1, BitVec.le_def, BitVec.lt_def]
  omega

theorem mem_upThrough {a b k : BitVec w} : k ∈ upThrough a b ↔ a ≤ k ∧ k ≤ b := by
  rw [← List.mem_map_of_injective (f := BitVec.toNat) fun _ _ => BitVec.eq_of_toNat_eq,
    map_toNat_upThrough, List.mem_range'_1, BitVec.le_def, BitVec.le_def]
  omega

theorem nodup_upTo (a b : BitVec w) : (upTo a b).Nodup := by
  refine List.Nodup.of_map BitVec.toNat ?_
  rw [map_toNat_upTo]
  exact List.nodup_range'

theorem nodup_upThrough (a b : BitVec w) : (upThrough a b).Nodup := by
  refine List.Nodup.of_map BitVec.toNat ?_
  rw [map_toNat_upThrough]
  exact List.nodup_range'

/-! ## Registers -/

/-- The registers of a bank. -/
abbrev Bank (n w : ℕ) := Vector (BitVec w) n

/-- Register `i`. Behind the last one there is nothing. -/
def word (b : Bank n w) (i : ℕ) : BitVec w := b[i]?.getD 0

theorem word_replicate_zero (i : ℕ) : word (.replicate n 0 : Bank n w) i = 0 := by
  rw [word]
  rcases Nat.lt_or_ge i n with hi | hi
  · rw [Vector.getElem?_eq_getElem hi, Vector.getElem_replicate]
    rfl
  · rw [Vector.getElem?_eq_none hi]
    rfl

/-- A bank is its registers. -/
theorem ext_word {b b' : Bank n w} (h : ∀ i, word b i = word b' i) : b = b' := by
  refine Vector.ext fun i hi => ?_
  have hword := h i
  rwa [word, word, Vector.getElem?_eq_getElem hi, Vector.getElem?_eq_getElem hi] at hword

/-- Rewrite register `i`. There is no register at an index out of bounds. -/
def modify (f : BitVec w → BitVec w) (i : ℕ) (b : Bank n w) : Option (Bank n w) :=
  if h : i < n then some (b.set i (f b[i])) else none

theorem modify_of_lt (f : BitVec w → BitVec w) {i : ℕ} (b : Bank n w) (hi : i < n) :
    ∃ b', modify f i b = some b' ∧ word b' = Function.update (word b) i (f (word b i)) := by
  refine ⟨_, dif_pos hi, ?_⟩
  funext j
  rcases eq_or_ne j i with rfl | hj
  · rw [Function.update_self, word, word, Vector.getElem?_set_self hi, Vector.getElem?_eq_getElem hi]
    rfl
  · rw [Function.update_of_ne hj, word, word, Vector.getElem?_set_ne hi hj.symm]

/-- Write register `i`. A write behind the last register is ignored. -/
def put (i : ℕ) (v : BitVec w) (b : Bank n w) : Bank n w := b.setIfInBounds i v

theorem word_put {i : ℕ} (hi : i < n) (v : BitVec w) (b : Bank n w) :
    word (put i v b) = Function.update (word b) i v := by
  funext j
  rcases eq_or_ne j i with rfl | hj
  · rw [Function.update_self, word, put, Vector.getElem?_setIfInBounds_self_of_lt hi]
    rfl
  · rw [Function.update_of_ne hj, word, word, put, Vector.getElem?_setIfInBounds_ne hj.symm]

/-- **A loop over different registers rewrites each of them once, and no other.** -/
theorem foldlM_modify {ι : Type} {idx : ι → ℕ} (f : ι → BitVec w → BitVec w) {l : List ι}
    (hl : (l.map idx).Nodup) (hn : ∀ a ∈ l, idx a < n) (b : Bank n w) :
    ∃ b', l.foldlM (fun b a => modify (f a) (idx a) b) b = some b' ∧
      (∀ a ∈ l, word b' (idx a) = f a (word b (idx a))) ∧
      ∀ j ∉ l.map idx, word b' j = word b j := by
  induction l generalizing b with
  | nil => exact ⟨b, rfl, nofun, fun _ _ => rfl⟩
  | cons a l ih =>
    obtain ⟨ha, hl⟩ := List.nodup_cons.mp hl
    obtain ⟨b₁, h₁, hw₁⟩ := modify_of_lt (f a) b (hn a List.mem_cons_self)
    obtain ⟨b', h', hin, hout⟩ := ih hl (fun a' ha' => hn a' (List.mem_cons_of_mem a ha')) b₁
    refine ⟨b', ?_, fun a' ha' => ?_, fun j hj => ?_⟩
    · rw [List.foldlM_cons, h₁]
      exact h'
    · rcases List.mem_cons.mp ha' with rfl | ha'
      · rw [hout _ ha, hw₁, Function.update_self]
      · have hne : idx a' ≠ idx a := fun he => ha (he ▸ List.mem_map_of_mem ha')
        rw [hin a' ha', hw₁, Function.update_of_ne hne]
    · obtain ⟨hne, hj⟩ := not_or.mp (fun h => hj (List.mem_cons.mpr h))
      rw [hout j hj, hw₁, Function.update_of_ne hne]

/-- The loop over registers whose indices are machine integers, register by register. -/
theorem foldlM_modify_toNat {m : ℕ} (f : BitVec m → BitVec w → BitVec w) {l : List (BitVec m)}
    (hl : l.Nodup) (hn : ∀ a ∈ l, a.toNat < n) (b : Bank n w) :
    ∃ b', l.foldlM (fun b a => modify (f a) a.toNat b) b = some b' ∧
      ∀ j, word b' j =
        if j ∈ l.map BitVec.toNat then f (BitVec.ofNat m j) (word b j) else word b j := by
  have hmap : (l.map BitVec.toNat).Nodup := hl.map fun _ _ => BitVec.eq_of_toNat_eq
  obtain ⟨b', hok, hin, hout⟩ := foldlM_modify f hmap hn b
  refine ⟨b', hok, fun j => ?_⟩
  split_ifs with hj
  · obtain ⟨a, ha, rfl⟩ := List.mem_map.mp hj
    rw [hin a ha, BitVec.ofNat_toNat, BitVec.setWidth_eq]
  · exact hout j hj

/-- Write the first `m` registers, in order. -/
def fill (m : ℕ) (f : ℕ → BitVec w) (b : Bank n w) : Bank n w :=
  (List.range m).foldl (fun b i => put i (f i) b) b

theorem word_fill {m : ℕ} (hm : m ≤ n) (f : ℕ → BitVec w) (b : Bank n w) (j : ℕ) :
    word (fill m f b) j = if j < m then f j else word b j := by
  induction m with
  | zero => rfl
  | succ m ih =>
    have hlast : fill (m + 1) f b = put m (f m) (fill m f b) := by
      rw [fill, List.range_succ, List.foldl_append]
      rfl
    rw [hlast, word_put hm]
    rcases eq_or_ne j m with rfl | hj
    · rw [Function.update_self, if_pos (Nat.lt_succ_self j)]
    · rw [Function.update_of_ne hj, ih (Nat.le_of_succ_le hm)]
      exact if_congr (by omega) rfl rfl

/-! ## Slots -/

/-- Slot `i` of a word, when a slot has `s` bits. -/
def slot (s i : ℕ) (x : BitVec w) : BitVec s := x.extractLsb' (i * s) s

/-- The bits of slot `i`. -/
def slotMask (s i : ℕ) : BitVec w := (BitVec.allOnes s).setWidth w <<< (i * s)

/-- Empty slot `i`. -/
def clear (s i : ℕ) (x : BitVec w) : BitVec w := x &&& ~~~slotMask s i

theorem getLsbD_slot (s i k : ℕ) (x : BitVec w) :
    (slot s i x).getLsbD k = (decide (k < s) && x.getLsbD (i * s + k)) := by
  rw [slot, BitVec.getLsbD_extractLsb']

theorem getLsbD_slotMask {s p : ℕ} (hs : 0 < s) (hp : p < w) (i : ℕ) :
    (slotMask s i : BitVec w).getLsbD p = decide (p / s = i) := by
  have hiff : p / s = i ↔ i * s ≤ p ∧ p - i * s < s := by
    rw [Nat.div_eq_iff hs]
    omega
  rw [slotMask, BitVec.getLsbD_shiftLeft, BitVec.getLsbD_setWidth, BitVec.getLsbD_allOnes,
    decide_eq_decide.mpr hiff, Bool.decide_and]
  have hlt : p - i * s < w := by omega
  by_cases h : p < i * s
  · simp [h, not_le.mpr h]
  · simp [h, not_lt.mp h, hp, hlt]

/-- A word that consists of slots is its slots. -/
theorem ext_slot {s m : ℕ} (hw : w ≤ m * s) {x y : BitVec w}
    (h : ∀ i < m, slot s i x = slot s i y) : x = y := by
  apply BitVec.eq_of_getLsbD_eq
  intro p hp
  have hs : 0 < s := by
    rcases Nat.eq_zero_or_pos s with rfl | hs
    · omega
    · exact hs
  have hi : p / s < m := (Nat.div_lt_iff_lt_mul hs).mpr (hp.trans_le hw)
  have hbit := congrArg (fun z : BitVec s => z.getLsbD (p % s)) (h (p / s) hi)
  simp only [getLsbD_slot, Nat.mod_lt p hs, decide_true, Bool.true_and] at hbit
  rwa [Nat.mul_comm, Nat.div_add_mod] at hbit

/-- Emptying a slot leaves the others alone. -/
theorem slot_clear (s i j : ℕ) (x : BitVec w) :
    slot s j (clear s i x) = if j = i then 0 else slot s j x := by
  apply BitVec.eq_of_getLsbD_eq
  intro k hk
  have hs : 0 < s := Nat.zero_lt_of_lt hk
  have hdiv : (j * s + k) / s = j := by
    rw [Nat.mul_comm, Nat.mul_add_div hs, Nat.div_eq_of_lt hk, Nat.add_zero]
  rw [getLsbD_slot, clear, BitVec.getLsbD_and, BitVec.getLsbD_not]
  rcases Nat.lt_or_ge (j * s + k) w with hp | hp
  · rw [getLsbD_slotMask hs hp, hdiv]
    split_ifs with h
    · simp [h]
    · simp [h, hp, getLsbD_slot]
  · rw [BitVec.getLsbD_of_ge x _ hp]
    split_ifs
    · simp
    · simp [getLsbD_slot, BitVec.getLsbD_of_ge x _ hp]

/-- Put `v` into slot `i`. -/
def store (s i : ℕ) (v : BitVec s) (x : BitVec w) : BitVec w :=
  clear s i x ||| v.setWidth w <<< (i * s)

/-- A slot that was stored is read back, and the others are as they were. -/
theorem slot_store {s i : ℕ} (hi : i * s + s ≤ w) (j : ℕ) (v : BitVec s) (x : BitVec w) :
    slot s j (store s i v x) = if j = i then v else slot s j x := by
  have hor : slot s j (store s i v x) =
      slot s j (clear s i x) ||| slot s j (v.setWidth w <<< (i * s)) := by
    apply BitVec.eq_of_getLsbD_eq
    intro k hk
    rw [BitVec.getLsbD_or, getLsbD_slot, getLsbD_slot, getLsbD_slot, store, BitVec.getLsbD_or,
      Bool.and_or_distrib_left]
  have hv : slot s j (v.setWidth w <<< (i * s)) = if j = i then v else 0 := by
    apply BitVec.eq_of_getLsbD_eq
    intro k hk
    rw [getLsbD_slot, BitVec.getLsbD_shiftLeft, BitVec.getLsbD_setWidth]
    split_ifs with h
    · subst h
      have h1 : j * s + k < w := by omega
      have h2 : k < w := by omega
      simp [hk, h1, h2]
    · rcases Nat.lt_or_gt_of_ne h with hlt | hgt
      · have hle := Nat.mul_le_mul_right s hlt
        rw [Nat.succ_mul] at hle
        have h1 : j * s + k < i * s := by omega
        simp [h1]
      · have hle := Nat.mul_le_mul_right s hgt
        rw [Nat.succ_mul] at hle
        have h1 : s ≤ j * s + k - i * s := by omega
        simp [BitVec.getLsbD_of_ge v _ h1]
  rw [hor, slot_clear, hv]
  split_ifs
  · exact BitVec.zero_or
  · exact BitVec.or_zero

/-- **A loop empties the slots that it chooses.** -/
theorem slot_foldl_clear {ι : Type} (s j : ℕ) (idx : ι → ℕ) (p : ι → Prop) [DecidablePred p]
    (l : List ι) (x : BitVec w) :
    slot s j (l.foldl (fun x a => if p a then clear s (idx a) x else x) x) =
      if ∃ a ∈ l, p a ∧ idx a = j then 0 else slot s j x := by
  induction l generalizing x with
  | nil => simp
  | cons a l ih =>
    have hcons : (∃ a' ∈ a :: l, p a' ∧ idx a' = j) ↔
        (p a ∧ idx a = j) ∨ ∃ a' ∈ l, p a' ∧ idx a' = j := List.exists_mem_cons_iff ..
    rw [List.foldl_cons, ih, if_congr hcons rfl rfl]
    by_cases hl : ∃ a' ∈ l, p a' ∧ idx a' = j
    · rw [if_pos hl, if_pos (Or.inr hl)]
    · rw [if_neg hl]
      by_cases ha : p a ∧ idx a = j
      · rw [if_pos ha.1, if_pos (Or.inl ha), slot_clear, if_pos ha.2.symm]
      · rw [if_neg (not_or.mpr ⟨ha, hl⟩)]
        split_ifs with hp
        · rw [slot_clear, if_neg fun h => ha ⟨hp, h.symm⟩]
        · rfl

/-- Every slot of a repeated value has it. -/
theorem slot_replicate {s i m : ℕ} (hi : i < m) (v : BitVec s) :
    slot s i (v.replicate m) = v := by
  apply BitVec.eq_of_getLsbD_eq
  intro k hk
  have hs : 0 < s := Nat.zero_lt_of_lt hk
  have hlt : i * s + k < s * m := by
    have := Nat.mul_le_mul_left s hi
    have := Nat.mul_comm i s
    rw [Nat.mul_succ] at *
    omega
  have hmod : (i * s + k) % s = k := by
    rw [Nat.mul_comm, Nat.mul_add_mod, Nat.mod_eq_of_lt hk]
  rw [getLsbD_slot, BitVec.getLsbD_replicate, hmod]
  simp [hk, hlt]

end RegisterBank
