import Mathlib.Tactic

set_option autoImplicit false

/-!
# Byte memories read and written by words

A memory gives a byte to each 32-bit address; a word is its four bytes, lowest first. Addresses wrap
around, so a range of bytes is the set of addresses at a small distance from its start.

* `WordMemory.word`, `WordMemory.half`, `WordMemory.set`, `WordMemory.setWords`;
* `WordMemory.AgreeOn`: two memories with the same bytes in a range;
* `WordMemory.Holds`: a list of words lies at an address;
* **`WordMemory.holds_setWords`**: words read back;
* **`WordMemory.setWords_agreeOn`**: writing words keeps every range apart from them.
-/

/-- A machine word, also an address. -/
abbrev Word := BitVec 32

/-- A byte at each address. -/
def WordMemory := Word → BitVec 8

namespace WordMemory

/-- The word at `a`. -/
def word (m : WordMemory) (a : Word) : Word := m (a + 3#32) ++ m (a + 2#32) ++ m (a + 1#32) ++ m a

/-- The halfword at `a`. -/
def half (m : WordMemory) (a : Word) : BitVec 16 := m (a + 1#32) ++ m a

/-- Write the word `v` at `a`. -/
def set (m : WordMemory) (a v : Word) : WordMemory := fun x =>
  if (x - a).toNat < 4 then v.extractLsb' (8 * (x - a).toNat) 8 else m x

/-- Write the words `ws` from `a` upward. -/
def setWords (m : WordMemory) : Word → List Word → WordMemory
  | _, [] => m
  | a, w :: ws => (m.set a w).setWords (a + 4#32) ws

/-- The words `ws` lie from `a` upward. -/
def Holds (m : WordMemory) : Word → List Word → Prop
  | _, [] => True
  | a, w :: ws => m.word a = w ∧ m.Holds (a + 4#32) ws

/-- The two memories have the same `n` bytes from `a` upward. -/
def AgreeOn (m m' : WordMemory) (a : Word) (n : ℕ) : Prop :=
  ∀ x : Word, (x - a).toNat < n → m' x = m x

/-- The ranges of `n` bytes from `a` and of `k` bytes from `b` do not meet. -/
def Apart (a : Word) (n : ℕ) (b : Word) (k : ℕ) : Prop :=
  ∀ x : Word, (x - a).toNat < n → ¬ (x - b).toNat < k

variable {m m' m'' : WordMemory} {a b v w : Word} {n k : ℕ} {vs ws : List Word}

@[simp] theorem setWords_nil : m.setWords a [] = m := rfl

@[simp] theorem setWords_cons : m.setWords a (w :: ws) = (m.set a w).setWords (a + 4#32) ws := rfl

@[simp] theorem holds_nil : m.Holds a [] := trivial

@[simp] theorem holds_cons : m.Holds a (w :: ws) ↔ m.word a = w ∧ m.Holds (a + 4#32) ws := Iff.rfl

theorem holds_append : m.Holds a (ws ++ vs) ↔
    m.Holds a ws ∧ m.Holds (a + BitVec.ofNat 32 (4 * ws.length)) vs := by
  induction ws generalizing a with
  | nil => simp
  | cons w ws ih =>
    have ha : a + 4#32 + BitVec.ofNat 32 (4 * ws.length) =
        a + BitVec.ofNat 32 (4 * (w :: ws).length) := by
      rw [List.length_cons]
      bv_omega
    rw [List.cons_append, holds_cons, holds_cons, ih, ha, and_assoc]

/-! ## Ranges that agree -/

theorem AgreeOn.refl (m : WordMemory) (a : Word) (n : ℕ) : m.AgreeOn m a n := fun _ _ => rfl

theorem AgreeOn.mono (h : m.AgreeOn m' a n) (hs : ∀ x : Word, (x - b).toNat < k → (x - a).toNat < n) :
    m.AgreeOn m' b k := fun x hx => h x (hs x hx)

theorem AgreeOn.word_eq (h : m.AgreeOn m' a 4) : m'.word a = m.word a := by
  rw [word, word, h (a + 3#32) (by bv_omega), h (a + 2#32) (by bv_omega), h (a + 1#32) (by bv_omega),
    h a (by bv_omega)]

theorem Holds.of_agreeOn (hm : m.Holds a ws) (h : m.AgreeOn m' a (4 * ws.length))
    (hl : 4 * ws.length < 2 ^ 32) : m'.Holds a ws := by
  induction ws generalizing a with
  | nil => exact holds_nil
  | cons w ws ih =>
    simp only [List.length_cons] at h hl
    refine ⟨?_, ih hm.2 (h.mono fun x hx => ?_) (by omega)⟩
    · rw [(h.mono fun x hx => ?_).word_eq, hm.1]
      omega
    · bv_omega

/-! ## Writing words -/

theorem set_of_le {x : Word} (h : 4 ≤ (x - a).toNat) : m.set a v x = m x :=
  if_neg (by omega)

theorem word_of_bytes (v : Word) : v.extractLsb' (8 * 3) 8 ++ v.extractLsb' (8 * 2) 8 ++
    v.extractLsb' (8 * 1) 8 ++ v.extractLsb' (8 * 0) 8 = v := by
  ext i hi
  simp only [BitVec.getElem_append, BitVec.getElem_extractLsb']
  split_ifs
  · rw [Nat.mul_zero, Nat.zero_add]
    exact BitVec.getLsbD_eq_getElem hi
  · rw [show 8 * 1 + (i - 8) = i by omega]
    exact BitVec.getLsbD_eq_getElem hi
  · rw [show 8 * 2 + (i - 8 - 8) = i by omega]
    exact BitVec.getLsbD_eq_getElem hi
  · rw [show 8 * 3 + (i - 8 - 8 - 8) = i by omega]
    exact BitVec.getLsbD_eq_getElem hi

theorem word_set_self : (m.set a v).word a = v := by
  have hb (i : ℕ) (hi : i < 4) :
      (m.set a v) (a + BitVec.ofNat 32 i) = v.extractLsb' (8 * i) 8 := by
    have hd : (a + BitVec.ofNat 32 i - a).toNat = i := by bv_omega
    rw [set, hd, if_pos hi]
  have h0 := hb 0 (by omega)
  rw [show a + BitVec.ofNat 32 0 = a by simp] at h0
  rw [word, hb 3 (by omega), hb 2 (by omega), hb 1 (by omega), h0]
  exact word_of_bytes v

theorem setWords_of_le {x : Word} (hl : 4 * ws.length < 2 ^ 32) (h : 4 * ws.length ≤ (x - a).toNat) :
    m.setWords a ws x = m x := by
  induction ws generalizing a m with
  | nil => rfl
  | cons w ws ih =>
    simp only [List.length_cons] at h hl
    rw [setWords_cons, ih (by omega) (by bv_omega), set_of_le (by omega)]

/-- **Words written read back.** -/
theorem holds_setWords (hl : 4 * ws.length < 2 ^ 32) : (m.setWords a ws).Holds a ws := by
  induction ws generalizing a m with
  | nil => exact holds_nil
  | cons w ws ih =>
    simp only [List.length_cons] at hl
    refine ⟨?_, ih (by omega)⟩
    have h : (m.set a w).AgreeOn ((m.set a w).setWords (a + 4#32) ws) a 4 := fun x hx =>
      setWords_of_le (by omega) (by bv_omega)
    rw [setWords_cons, h.word_eq, word_set_self]

theorem set_agreeOn (h : Apart a 4 b k) : m.AgreeOn (m.set a v) b k := fun x hx =>
  set_of_le (Nat.le_of_not_lt fun hx' => h x hx' hx)

theorem word_set_of_apart (h : Apart a 4 b 4) : (m.set a v).word b = m.word b :=
  (set_agreeOn h).word_eq

/-- **Writing words keeps every range apart from them.** -/
theorem setWords_agreeOn (hl : 4 * ws.length < 2 ^ 32) (h : Apart a (4 * ws.length) b k) :
    m.AgreeOn (m.setWords a ws) b k := fun x hx =>
  setWords_of_le hl (Nat.le_of_not_lt fun hx' => h x hx' hx)

theorem Apart.symm (h : Apart a n b k) : Apart b k a n := fun x hb ha => h x ha hb

theorem Apart.of_le (h : a.toNat + n ≤ b.toNat) (hk : b.toNat + k ≤ 2 ^ 32) : Apart a n b k := by
  intro x hx
  bv_omega

theorem Apart.mono {a' b' : Word} {n' k' : ℕ} (h : Apart a n b k)
    (ha : ∀ x : Word, (x - a').toNat < n' → (x - a).toNat < n)
    (hb : ∀ x : Word, (x - b').toNat < k' → (x - b).toNat < k) : Apart a' n' b' k' :=
  fun x hx hx' => h x (ha x hx) (hb x hx')

end WordMemory
