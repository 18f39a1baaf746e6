import Mathlib.Tactic

set_option autoImplicit false

/-!
# Tables of blocks

A table has places for blocks of an area. Blocks are put into empty places and taken out again; they
are aligned, lie in the area and do not overlap.

* `Block`, `Block.Apart`;
* `Valid`: what a table keeps; `valid_empty`, **`Valid.insert`**, **`Valid.erase`**;
* `Valid.eq_of_start_eq`: a block is known by its start;
* `Room`; **`Room.stop_le`**: a search that jumps behind the blocks in its way skips no room.
-/

namespace BlockTable

/-- `len` places from `start` on. -/
@[ext]
structure Block where
  start : ℕ
  len : ℕ
  deriving DecidableEq, Repr

def Block.stop (b : Block) : ℕ := b.start + b.len

/-- The blocks have no place in common. -/
def Block.Apart (b c : Block) : Prop := b.stop ≤ c.start ∨ c.stop ≤ b.start

theorem Block.Apart.symm {b c : Block} (h : b.Apart c) : c.Apart b := Or.symm h

variable {ι : Type} {area align : ℕ} {slot : ι → Option Block}

/-- What a table of blocks keeps. -/
structure Valid (area align : ℕ) (slot : ι → Option Block) : Prop where
  pos : ∀ {i b}, slot i = some b → 0 < b.len
  aligned : ∀ {i b}, slot i = some b → align ∣ b.start ∧ align ∣ b.len
  inside : ∀ {i b}, slot i = some b → b.stop ≤ area
  apart : ∀ {i j b c}, i ≠ j → slot i = some b → slot j = some c → b.Apart c

theorem valid_empty : Valid area align (fun _ : ι => none) :=
  ⟨nofun, nofun, nofun, nofun⟩

/-- Two blocks of a table that begin at the same place are one. -/
theorem Valid.eq_of_start_eq (h : Valid area align slot) {i j : ι} {b c : Block}
    (hi : slot i = some b) (hj : slot j = some c) (hstart : b.start = c.start) : i = j := by
  by_contra hne
  have hb := h.pos hi
  have hc := h.pos hj
  have hapart := h.apart hne hi hj
  unfold Block.Apart Block.stop at hapart
  omega

/-! ## Room for a block -/

/-- `len` places from `o` on are in the area and apart from every block of the table. -/
def Room (area : ℕ) (slot : ι → Option Block) (len o : ℕ) : Prop :=
  o + len ≤ area ∧ ∀ i b, slot i = some b → Block.Apart ⟨o, len⟩ b

/-- **Nothing is skipped** by going on behind a block that is in the way, if there is no room before
`o`. -/
theorem Room.stop_le {len o o' : ℕ} (h : Room area slot len o') (hle : o ≤ o') {i : ι} {b : Block}
    (hi : slot i = some b) (hway : ¬ Block.Apart ⟨o, len⟩ b) : b.stop ≤ o' := by
  have hapart := h.2 i b hi
  unfold Block.Apart Block.stop at hapart hway
  unfold Block.stop
  dsimp only at hapart hway
  omega

/-- The order of the table does not matter. -/
theorem Valid.comp (h : Valid area align slot) (σ : Equiv.Perm ι) : Valid area align (slot ∘ σ) :=
  ⟨fun hb => h.pos hb, fun hb => h.aligned hb, fun hb => h.inside hb,
    fun hne hb hc => h.apart (σ.injective.ne hne) hb hc⟩

variable [DecidableEq ι]

/-- **A block apart from the others can be put into any place.** -/
theorem Valid.insert (h : Valid area align slot) (i : ι) {b : Block} (hpos : 0 < b.len)
    (haligned : align ∣ b.start ∧ align ∣ b.len) (hinside : b.stop ≤ area)
    (hapart : ∀ j c, slot j = some c → b.Apart c) :
    Valid area align (Function.update slot i (some b)) := by
  have hcases : ∀ {j c}, Function.update slot i (some b) j = some c →
      j = i ∧ c = b ∨ j ≠ i ∧ slot j = some c := by
    intro j c hc
    by_cases hj : j = i
    · subst hj
      rw [Function.update_self] at hc
      exact .inl ⟨rfl, (Option.some.inj hc).symm⟩
    · rw [Function.update_of_ne hj] at hc
      exact .inr ⟨hj, hc⟩
  refine ⟨fun hc => ?_, fun hc => ?_, fun hc => ?_, fun hne hb' hc => ?_⟩
  · rcases hcases hc with ⟨-, rfl⟩ | ⟨-, hc⟩
    · exact hpos
    · exact h.pos hc
  · rcases hcases hc with ⟨-, rfl⟩ | ⟨-, hc⟩
    · exact haligned
    · exact h.aligned hc
  · rcases hcases hc with ⟨-, rfl⟩ | ⟨-, hc⟩
    · exact hinside
    · exact h.inside hc
  · rcases hcases hb' with ⟨rfl, rfl⟩ | ⟨-, hold⟩
    · rcases hcases hc with ⟨rfl, -⟩ | ⟨-, hold⟩
      · exact absurd rfl hne
      · exact hapart _ _ hold
    · rcases hcases hc with ⟨-, rfl⟩ | ⟨-, hold'⟩
      · exact (hapart _ _ hold).symm
      · exact h.apart hne hold hold'

/-- **Any block can be taken out.** -/
theorem Valid.erase (h : Valid area align slot) (i : ι) :
    Valid area align (Function.update slot i none) := by
  have hkept : ∀ {j c}, Function.update slot i none j = some c → slot j = some c := by
    intro j c hc
    by_cases hj : j = i
    · subst hj
      rw [Function.update_self] at hc
      cases hc
    · rwa [Function.update_of_ne hj] at hc
  exact ⟨fun hc => h.pos (hkept hc), fun hc => h.aligned (hkept hc), fun hc => h.inside (hkept hc),
    fun hne hb hc => h.apart hne (hkept hb) (hkept hc)⟩

end BlockTable
