import RuSpe.Services.FfiAllocRun

set_option autoImplicit false

/-!
# The search of the allocator

The search jumps behind whichever allocation the table lists first, and the table has no order. It
still finds the first place that is large enough.

* `SearchStep`, `Visited`: the rounds of the search loop; `wellFounded_searchStep`: it ends;
* **`search_least`**: it finds the least place, or there is none;
* `calloc_ptr`: what `calloc` returns; `calloc_of_wraps`: a request whose rounding wraps;
* `Allocator.Ok.run`: the table stays in order under all calls, also such ones.
-/

namespace RuSpe

open BlockTable (Block Room)

/-! ## The rounds of the loop -/

section

variable (allocs : Vector Alloc maxAllocs) (total : Usize)

/-- One round that does not end the loop: an allocation is in the way, and `offset` becomes its
end. -/
def SearchStep (offset offset' : Usize) : Prop :=
  offset + total ≤ heapSize ∧
    ∃ i, firstIdx allocs (blocks offset total) = some i ∧ offset' = aEnd (getElem allocs i i.isLt)

/-- The values of `offset` in the rounds of one search. -/
def Visited (offset : Usize) : Prop := Relation.ReflTransGen (SearchStep allocs total) 0 offset

variable {allocs total}

/-- **The offset grows with each round.** -/
theorem SearchStep.lt {o o' : Usize} (h : SearchStep allocs total o o') : o.toNat < o'.toNat := by
  obtain ⟨-, i, hi, rfl⟩ := h
  have hblocks := firstIdx_eq_some hi
  simp only [blocks, Bool.and_eq_true, decide_eq_true_eq, BitVec.lt_def] at hblocks
  exact hblocks.1.2

theorem SearchStep.lt_bound {o o' : Usize} (h : SearchStep allocs total o o') :
    o'.toNat < 2 ^ 17 := by
  obtain ⟨-, i, -, rfl⟩ := h
  exact toNat_aEnd_lt _

variable (allocs total) in
/-- **The loop ends**, for every table and every size. -/
theorem wellFounded_searchStep :
    WellFounded fun offset' offset => SearchStep allocs total offset offset' := by
  refine Subrelation.wf (fun h => ?_) (measure fun o : Usize => 2 ^ 17 - o.toNat).wf
  have hlt := h.lt
  have hbound := h.lt_bound
  show 2 ^ 17 - _ < 2 ^ 17 - _
  omega

end

section

variable {s : Allocator} {total : Usize}

/-- No sum of the loop wraps: a size that is too large ends it at once. -/
theorem Visited.le (hs : s.Ok) {o : Usize} (h : Visited s.allocs total o) :
    o = 0 ∨ total.toNat ≤ 1792 ∧ o.toNat ≤ 1792 := by
  induction h with
  | refl => exact .inl rfl
  | @tail o o' h hstep ih =>
    right
    obtain ⟨hfits, i, hi, rfl⟩ := hstep
    have htotal : total.toNat ≤ 1792 := by
      rcases ih with rfl | ih
      · exact zero_add_le_heapSize.mp hfits
      · exact ih.1
    have ho : o.toNat ≤ 1792 := by
      rcases ih with rfl | ih
      · exact Nat.zero_le _
      · exact ih.2
    have hblocks := (blocks_iff (by omega)).mp (firstIdx_eq_some hi)
    exact ⟨htotal, (hs.aEnd_le hblocks.1).1⟩

theorem Visited.add_lt (hs : s.Ok) {o : Usize} (h : Visited s.allocs total o) :
    o.toNat + total.toNat < 2 ^ 32 := by
  have htotal := total.isLt
  rcases h.le hs with rfl | ⟨ht, ho⟩
  · exact (Nat.zero_add _).trans_lt htotal
  · omega

/-- An allocation is in the way if it is not apart. -/
theorem not_apart_of_blocks {o : Usize} {i : Fin maxAllocs} (h : o.toNat + total.toNat < 2 ^ 32)
    (hb : blocks o total s.allocs[i] = true) :
    ∃ b, s.slot i = some b ∧ b.stop = (aEnd s.allocs[i]).toNat ∧
      ¬ Block.Apart ⟨o.toNat, total.toNat⟩ b := by
  obtain ⟨hpos, hend, hstart⟩ := (blocks_iff h).mp hb
  refine ⟨_, Alloc.block_eq_some.mpr ⟨hpos, rfl⟩, (toNat_aEnd _).symm, ?_⟩
  unfold Block.Apart Block.stop
  dsimp only
  omega

/-- **The search ends at the least place with room, or there is no room.** No place before `offset`
has room, whichever allocation made it grow. -/
theorem search_least (hs : s.Ok) (ht : total.toNat + 1792 < 2 ^ 32) {offset : Usize}
    (hle : offset.toNat ≤ 1792) (hno : ∀ x, Room 1792 s.slot total.toNat x → offset.toNat ≤ x) :
    (∀ o, search s.allocs total offset = some o →
      IsLeast {x | Room 1792 s.slot total.toNat x} o.toNat) ∧
    (search s.allocs total offset = none → ∀ x, ¬ Room 1792 s.slot total.toNat x) := by
  have hheap : heapSize.toNat = 1792 := rfl
  fun_induction search s.allocs total offset with
  | case1 offset hfits i hi ih =>
    have hblocks := firstIdx_eq_some hi
    obtain ⟨b, hb, hstop, hway⟩ := not_apart_of_blocks (by omega) hblocks
    have hpos := ((blocks_iff (by omega)).mp hblocks).1
    refine ih (hs.aEnd_le hpos).1 fun x hx => ?_
    rw [← hstop]
    exact hx.stop_le (hno x hx) hb hway
  | case2 offset hfits hnone =>
    refine ⟨fun o ho => ?_, fun h => by cases h⟩
    obtain rfl := Option.some.inj ho
    have hsum : (offset + total).toNat = offset.toNat + total.toNat :=
      BitVec.toNat_add_of_lt (by omega)
    rw [BitVec.le_def, hsum, hheap] at hfits
    refine ⟨⟨hfits, fun i b hb => ?_⟩, fun x hx => hno x hx⟩
    obtain ⟨hpos, rfl⟩ := Alloc.block_eq_some.mp hb
    have hfree := firstIdx_eq_none hnone i
    rw [← Bool.not_eq_true, blocks_iff (by omega)] at hfree
    unfold Block.Apart Block.stop
    dsimp only
    omega
  | case3 offset hfits =>
    refine ⟨fun o ho => (by cases ho), fun _ x hx => ?_⟩
    have hsum : (offset + total).toNat = offset.toNat + total.toNat :=
      BitVec.toNat_add_of_lt (by omega)
    rw [BitVec.le_def, hsum, hheap] at hfits
    have hx₀ := hno x hx
    have hx₁ := hx.1
    omega

variable (total) in
/-- The search from the beginning. -/
theorem search_zero (hs : s.Ok) :
    (∀ o, search s.allocs total 0 = some o →
      IsLeast {x | Room 1792 s.slot total.toNat x} o.toNat) ∧
    (search s.allocs total 0 = none → ∀ x, ¬ Room 1792 s.slot total.toNat x) := by
  by_cases hlarge : 1792 < total.toNat
  · rw [search_of_large s.allocs hlarge]
    refine ⟨nofun, fun _ x hx => ?_⟩
    have hx₁ := hx.1
    omega
  · exact search_least hs (by omega) (by decide) fun x _ => Nat.zero_le x

end

/-! ## The entry -/

/-- The number of live allocations. -/
def Allocator.live (s : Allocator) : ℕ := (Finset.univ.filter fun i => (s.slot i).isSome).card

section

variable {heap : HeapStatic} {s : Allocator} {nobj size : Usize}

theorem slot_eq_none {i : Fin maxAllocs} :
    s.slot i = none ↔ (getElem s.allocs i i.isLt).2 = 0 := by
  unfold Allocator.slot Alloc.block
  split_ifs with h
  · exact iff_of_true rfl h
  · exact iff_of_false nofun h

theorem live_lt_iff : s.live < 64 ↔ ∃ i, s.slot i = none := by
  have hcard : (Finset.univ : Finset (Fin maxAllocs)).card = 64 := Fintype.card_fin _
  constructor
  · intro h
    by_contra hall
    push Not at hall
    have heq : (Finset.univ.filter fun i => (s.slot i).isSome) = Finset.univ := by
      refine Finset.filter_true_of_mem fun i _ => ?_
      exact Option.isSome_iff_ne_none.mpr (hall i)
    rw [Allocator.live, heq, hcard] at h
    omega
  · rintro ⟨i, hi⟩
    rw [← hcard]
    refine Finset.card_lt_card (Finset.filter_ssubset.mpr ⟨i, Finset.mem_univ i, ?_⟩)
    rw [hi]
    exact Bool.false_ne_true

/-- There is an entry for the new allocation exactly if fewer than 64 are live. -/
theorem exists_free_entry : (∃ i, firstIdx s.allocs (fun a => a.2 = 0) = some i) ↔ s.live < 64 := by
  rw [live_lt_iff]
  constructor
  · rintro ⟨i, hi⟩
    exact ⟨i, slot_eq_none.mpr (of_decide_eq_true (firstIdx_eq_some hi))⟩
  · rintro ⟨i, hi⟩
    cases hidx : firstIdx s.allocs (fun a => a.2 = 0) with
    | some j => exact ⟨j, rfl⟩
    | none =>
      have hnone := firstIdx_eq_none hidx i
      rw [decide_eq_false_iff_not] at hnone
      exact absurd (slot_eq_none.mp hi) hnone

/-- The address of a place in the heap is not null. -/
theorem HeapStatic.addr_ne_zero (heap : HeapStatic) {k : ℕ} (h : k ≤ 1792) : heap.addr k ≠ 0 := by
  have hpos := heap.start_pos
  rw [← BitVec.toNat_inj.ne, heap.toNat_addr h]
  show heap.start.toNat + k ≠ 0
  omega

/-- **What `calloc` returns**, in every table that is in order. -/
theorem calloc_ptr (hs : s.Ok) (hT : (nobj * size + 7) &&& ~~~7#32 ≠ 0) :
    let T := ((nobj * size + 7) &&& ~~~7#32).toNat
    ((calloc heap nobj size s).1 ≠ 0 ↔ s.live < 64 ∧ ∃ o, Room 1792 s.slot T o) ∧
    ((calloc heap nobj size s).1 ≠ 0 → ∃ o, (calloc heap nobj size s).1 = heap.addr o ∧
      IsLeast {x | Room 1792 s.slot T x} o) := by
  intro T
  have hne : nobj * size ≠ 0 := by
    intro hzero
    rw [hzero] at hT
    exact hT (by decide)
  obtain ⟨hsome, hnone⟩ := search_zero ((nobj * size + 7) &&& ~~~7#32) hs
  rw [← exists_free_entry, calloc]
  dsimp only
  rw [if_neg hne]
  cases hsearch : search s.allocs ((nobj * size + 7) &&& ~~~7#32) 0 with
  | none =>
    exact ⟨iff_of_false (fun h => h rfl) fun h => h.2.elim (hnone hsearch), fun h => absurd rfl h⟩
  | some o =>
    have hleast := hsome o hsearch
    have hroom : o.toNat + T ≤ 1792 := hleast.1.1
    cases hidx : firstIdx s.allocs (fun a => a.2 = 0) with
    | none =>
      refine ⟨iff_of_false (fun h => h rfl) fun h => ?_, fun h => absurd rfl h⟩
      obtain ⟨⟨i, hi⟩, -⟩ := h
      cases hi
    | some i =>
      have hptr : heap.start + o = heap.addr o.toNat := by
        rw [HeapStatic.addr, BitVec.ofNat_toNat, BitVec.setWidth_eq]
      dsimp only
      rw [hptr]
      exact ⟨iff_of_true (heap.addr_ne_zero (by omega)) ⟨⟨i, rfl⟩, _, hleast.1⟩,
        fun _ => ⟨_, rfl, hleast⟩⟩

/-! ## Sizes that wrap -/

theorem firstIdx_blocks_zero (allocs : Vector Alloc maxAllocs) :
    firstIdx allocs (blocks 0 0) = none := by
  refine List.find?_eq_none.mpr fun i _ => ?_
  rw [Bool.not_eq_true, blocks, Bool.and_eq_false_iff]
  exact .inr (decide_eq_false fun h => Nat.not_lt_zero _ (BitVec.lt_def.mp h))

/-- Nothing is in the way of no bytes. -/
theorem search_zero_zero (allocs : Vector Alloc maxAllocs) : search allocs 0 0 = some 0 := by
  rw [search, if_pos (by decide)]
  split
  · rename_i i hi
    rw [firstIdx_blocks_zero] at hi
    cases hi
  · rfl

/-- A request close to the largest number is rounded to zero. -/
theorem total_of_wraps {req : Usize} (h : 2 ^ 32 ≤ req.toNat + 7) :
    (req + 7) &&& ~~~7#32 = 0 := by
  have hreq := req.isLt
  have hsum : (req + 7).toNat = req.toNat + 7 - 2 ^ 32 := by
    rw [BitVec.toNat_add, show (7 : Usize).toNat = 7 from rfl, Nat.mod_eq_sub_mod h,
      Nat.mod_eq_of_lt (by omega)]
  apply BitVec.eq_of_toNat_eq
  rw [AlignDown.toNat_and_mask (k := 3) (by decide), hsum]
  show (req.toNat + 7 - 2 ^ 32) / 8 * 8 = 0
  omega

/-- **What `calloc` does with such a request**: if there is an entry, it records no bytes there, and
clears as many bytes as were asked for. -/
theorem calloc_of_wraps (heap : HeapStatic) (s : Allocator) (h : 2 ^ 32 ≤ (nobj * size).toNat + 7) :
    calloc heap nobj size s =
      match firstIdx s.allocs (fun a => a.2 = 0) with
      | none => (0, s)
      | some i => (heap.start + 0, ⟨writeBytes s.mem (heap.start + 0) 0 (nobj * size),
          s.allocs.set i (0, 0)⟩) := by
  have hne : nobj * size ≠ 0 := by
    intro hzero
    rw [hzero] at h
    exact absurd h (by decide)
  rw [calloc]
  dsimp only
  have htotal : (nobj * size + 7) &&& ~~~7 = 0 := total_of_wraps h
  rw [if_neg hne, htotal, search_zero_zero]
  rfl

/-- The table then has the same blocks. -/
theorem slot_set_zero {i : Fin maxAllocs} (hi : s.slot i = none) (mem : Usize → UInt8) :
    Allocator.slot ⟨mem, s.allocs.set i (0, 0) i.isLt⟩ = s.slot := by
  rw [slot_set, show Alloc.block (0, 0) = none from rfl, ← hi, Function.update_eq_self]

/-- **`calloc` keeps the table in order, whatever is asked for.** -/
theorem Allocator.Ok.calloc (hs : s.Ok) (heap : HeapStatic) (nobj size : Usize) :
    (RuSpe.calloc heap nobj size s).2.Ok := by
  by_cases h : (nobj * size).toNat + 7 < 2 ^ 32
  · exact (calloc_spec hs h).1
  rw [calloc_of_wraps heap s (not_lt.mp h)]
  cases hidx : firstIdx s.allocs (fun a => a.2 = 0) with
  | none => exact hs
  | some i =>
    have hi : s.slot i = none := slot_eq_none.mpr (of_decide_eq_true (firstIdx_eq_some hidx))
    dsimp only
    rw [Allocator.Ok, slot_set_zero hi]
    exact hs

/-- Every run keeps the table in order. -/
theorem Allocator.Ok.run (hs : s.Ok) (heap : HeapStatic) (ops : List AllocOp) :
    (s.run heap ops).Ok := by
  induction ops generalizing s with
  | nil => exact hs
  | cons op ops ih =>
    refine ih ?_
    cases op with
    | calloc nobj size => exact hs.calloc heap nobj size
    | free p => exact hs.free p
    | store a val => exact hs

end

end RuSpe
