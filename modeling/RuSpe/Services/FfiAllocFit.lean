import RuSpe.Services.FfiAllocSearch
import Mathlib.Order.CompletePartialOrder

set_option autoImplicit false

/-!
# First fit

What the two functions do to the live allocations, as a set: the order of the table does not matter.

* `Allocator.liveBlocks`; `calloc_congr`: `calloc` looks at nothing else;
* **`liveBlocks_calloc`**, **`liveBlocks_free`**: the block at a pointer is added and taken out;
* **`calloc_first_fit`**: when `calloc` succeeds, and where the block is.
-/

namespace RuSpe

open BlockTable (Block Room)

section

variable {heap : HeapStatic} {s : Allocator} {nobj size : Usize}

/-! ## The live allocations -/

/-- The live allocations, in no order. -/
def Allocator.liveBlocks (s : Allocator) : Set Block := {b | ∃ i, s.slot i = some b}

theorem live_congr {s' : Allocator} (hs : s.Ok) (hs' : s'.Ok) (h : s.liveBlocks = s'.liveBlocks) :
    s.live = s'.live := by
  have hinj {t : Allocator} (ht : t.Ok) :
      Set.InjOn t.slot (Finset.univ.filter fun i => (t.slot i).isSome) := by
    intro i hi j _ hij
    obtain ⟨b, hb⟩ := Option.isSome_iff_exists.mp (Finset.mem_filter.mp hi).2
    exact ht.eq_of_start_eq hb (hij.symm.trans hb) rfl
  have himage (t : Allocator) (x : Option Block) :
      x ∈ (Finset.univ.filter fun i => (t.slot i).isSome).image t.slot ↔
        ∃ b ∈ t.liveBlocks, x = some b := by
    rw [Finset.mem_image]
    constructor
    · rintro ⟨i, hi, rfl⟩
      obtain ⟨b, hb⟩ := Option.isSome_iff_exists.mp (Finset.mem_filter.mp hi).2
      exact ⟨b, ⟨i, hb⟩, hb⟩
    · rintro ⟨b, ⟨i, hi⟩, rfl⟩
      exact ⟨i, Finset.mem_filter.mpr ⟨Finset.mem_univ i, by rw [hi]; rfl⟩, hi⟩
  rw [Allocator.live, Allocator.live, ← Finset.card_image_of_injOn (hinj hs),
    ← Finset.card_image_of_injOn (hinj hs')]
  congr 1
  ext x
  rw [himage, himage, h]

theorem room_iff {len o : ℕ} :
    Room 1792 s.slot len o ↔ o + len ≤ 1792 ∧ ∀ b ∈ s.liveBlocks, Block.Apart ⟨o, len⟩ b := by
  refine and_congr_right fun _ => ⟨fun h b hb => ?_, fun h i b hb => h b ⟨i, hb⟩⟩
  obtain ⟨i, hi⟩ := hb
  exact h i b hi

/-- **What `calloc` returns depends on the live allocations only.** -/
theorem calloc_congr {s' : Allocator} (hs : s.Ok) (hs' : s'.Ok)
    (h : s.liveBlocks = s'.liveBlocks) (hT : (nobj * size + 7) &&& ~~~7#32 ≠ 0) :
    (calloc heap nobj size s).1 = (calloc heap nobj size s').1 := by
  obtain ⟨hiff, hleast⟩ := @calloc_ptr heap s nobj size hs hT
  obtain ⟨hiff', hleast'⟩ := @calloc_ptr heap _ nobj size hs' hT
  simp only [room_iff, ← h, ← live_congr hs hs' h] at hiff hleast hiff' hleast'
  by_cases hnull : (calloc heap nobj size s').1 = 0
  · rw [hnull]
    by_contra hne
    exact hiff'.mpr (hiff.mp hne) hnull
  · obtain ⟨o, ho, hmin⟩ := hleast' hnull
    obtain ⟨o', ho', hmin'⟩ := hleast (hiff.mpr (hiff'.mp hnull))
    rw [ho, ho', hmin'.unique hmin]

/-- The blocks that a pointer points to: one, or none. -/
def ptrBlocks (heap : HeapStatic) (p : Usize) : Set Block := {b | heap.addr b.start = p}

theorem Allocator.Ok.start_le (hs : s.Ok) {b : Block} (hb : b ∈ s.liveBlocks) :
    b.start ≤ 1792 := by
  obtain ⟨i, hi⟩ := hb
  exact (Nat.le_add_right _ _).trans (hs.inside hi)

/-- Nothing is at null. -/
theorem liveBlocks_diff_null (hs : s.Ok) : s.liveBlocks \ ptrBlocks heap 0 = s.liveBlocks :=
  sdiff_eq_left.mpr (Set.disjoint_left.mpr fun _ hb hnull =>
    heap.addr_ne_zero (hs.start_le hb) hnull)

/-- **`calloc` adds the block at its pointer.** -/
theorem liveBlocks_calloc (hs : s.Ok) (h : (nobj * size).toNat + 7 < 2 ^ 32) :
    (calloc heap nobj size s).2.liveBlocks \ ptrBlocks heap (calloc heap nobj size s).1
      = s.liveBlocks := by
  rcases (@calloc_spec heap s hs nobj size h).2 with hnull | ⟨-, b, hb⟩
  · rw [hnull]
    exact liveBlocks_diff_null hs
  obtain ⟨i, hi, hslot⟩ := hb.slot
  have hbnew : b ∈ (calloc heap nobj size s).2.liveBlocks :=
    ⟨i, by rw [hslot, Function.update_self]⟩
  have hok : (calloc heap nobj size s).2.Ok := hs.calloc heap nobj size
  ext c
  constructor
  · rintro ⟨⟨j, hj⟩, hp⟩
    rw [hslot] at hj
    by_cases hji : j = i
    · rw [hji, Function.update_self] at hj
      obtain rfl := Option.some.inj hj
      exact absurd hb.ptr.symm hp
    · rw [Function.update_of_ne hji] at hj
      exact ⟨j, hj⟩
  · rintro ⟨j, hj⟩
    have hji : j ≠ i := by
      rintro rfl
      cases hi.symm.trans hj
    have hcnew : (calloc heap nobj size s).2.slot j = some c := by
      rw [hslot, Function.update_of_ne hji, hj]
    refine ⟨⟨j, hcnew⟩, fun hp => hji ?_⟩
    -- Two blocks at one pointer would be one entry.
    have hc := heap.toNat_addr (hok.start_le ⟨j, hcnew⟩)
    have hb' := heap.toNat_addr (hok.start_le hbnew)
    rw [show heap.addr c.start = heap.addr b.start from hp.trans hb.ptr, hb'] at hc
    exact hok.eq_of_start_eq hcnew (by rw [hslot, Function.update_self]) (by omega)

/-- There is one, if the pointer is not null. -/
theorem exists_block_of_calloc (hs : s.Ok) (h : (nobj * size).toNat + 7 < 2 ^ 32)
    (hne : (calloc heap nobj size s).1 ≠ 0) :
    ¬ Disjoint (calloc heap nobj size s).2.liveBlocks
      (ptrBlocks heap (calloc heap nobj size s).1) := by
  rcases (@calloc_spec heap s hs nobj size h).2 with hnull | ⟨-, b, hb⟩
  · exact absurd (congrArg Prod.fst hnull) hne
  · obtain ⟨i, -, hslot⟩ := hb.slot
    exact Set.not_disjoint_iff.mpr ⟨b, ⟨i, by rw [hslot, Function.update_self]⟩, hb.ptr.symm⟩

/-- The first request gets a block, if it is not larger than the heap. -/
theorem calloc_initial_ne_zero (mem : Usize → UInt8) (hT : (nobj * size + 7) &&& ~~~7#32 ≠ 0)
    (hle : ((nobj * size + 7) &&& ~~~7#32).toNat ≤ 1792) :
    (calloc heap nobj size (.initial mem)).1 ≠ 0 := by
  refine (calloc_ptr (ok_initial mem) hT).1.mpr
    ⟨live_lt_iff.mpr ⟨⟨0, by decide⟩, congrFun (slot_initial mem) _⟩, 0, by omega, fun i b hb => ?_⟩
  cases (congrFun (slot_initial mem) i).symm.trans hb

/-- **`free` takes out the block at its pointer.** -/
theorem liveBlocks_free (hs : s.Ok) (p : Usize) :
    (free heap p s).liveBlocks = s.liveBlocks \ ptrBlocks heap p := by
  obtain ⟨hlive, hnone⟩ := free_spec heap hs p
  by_cases h : ∃ i b, s.slot i = some b ∧ p = heap.addr b.start
  swap
  · rw [hnone fun i b hb hp => h ⟨i, b, hb, hp⟩]
    refine (sdiff_eq_left.mpr (Set.disjoint_left.mpr ?_)).symm
    rintro b ⟨i, hi⟩ hp
    exact h ⟨i, b, hi, hp.symm⟩
  obtain ⟨i, b, hb, hp⟩ := h
  have hslot := (hlive i b hb hp).1
  ext c
  constructor
  · rintro ⟨j, hj⟩
    rw [hslot] at hj
    have hji : j ≠ i := by
      rintro rfl
      rw [Function.update_self] at hj
      cases hj
    rw [Function.update_of_ne hji] at hj
    refine ⟨⟨j, hj⟩, fun hcp => hji ?_⟩
    have hc := heap.toNat_addr (hs.start_le ⟨j, hj⟩)
    have hb' := heap.toNat_addr (hs.start_le ⟨i, hb⟩)
    rw [show heap.addr c.start = heap.addr b.start from Eq.trans hcp hp, hb'] at hc
    exact hs.eq_of_start_eq hj hb (by omega)
  · rintro ⟨⟨j, hj⟩, hcp⟩
    have hji : j ≠ i := by
      rintro rfl
      obtain rfl := Option.some.inj (hj.symm.trans hb)
      exact hcp hp.symm
    exact ⟨j, by rw [hslot, Function.update_of_ne hji, hj]⟩

/-! ## First fit -/

/-- The table in another order. -/
def Allocator.reorder (s : Allocator) (σ : Equiv.Perm (Fin maxAllocs)) : Allocator :=
  ⟨s.mem, Vector.ofFn fun i => s.allocs[σ i]⟩

theorem slot_reorder (s : Allocator) (σ : Equiv.Perm (Fin maxAllocs)) :
    (s.reorder σ).slot = s.slot ∘ σ := by
  funext i
  simp [Allocator.slot, Allocator.reorder]

theorem liveBlocks_reorder (s : Allocator) (σ : Equiv.Perm (Fin maxAllocs)) :
    (s.reorder σ).liveBlocks = s.liveBlocks := by
  ext b
  rw [Allocator.liveBlocks, slot_reorder]
  exact (σ.surjective.exists (p := fun i => s.slot i = some b)).symm

theorem Allocator.Ok.reorder (hs : s.Ok) (σ : Equiv.Perm (Fin maxAllocs)) : (s.reorder σ).Ok := by
  rw [Allocator.Ok, slot_reorder]
  exact hs.comp σ

/-- **After every run, the search loop ends, `calloc` succeeds exactly if fewer than 64 allocations
are live and there is room, and the block is at the least place with room**, whatever the order of
the table. -/
theorem calloc_first_fit (heap : HeapStatic) (mem : Usize → UInt8) (ops : List AllocOp)
    {nobj size : Usize} (hT : (nobj * size + 7) &&& ~~~7#32 ≠ 0) :
    let s := (Allocator.initial mem).run heap ops
    let T := (nobj * size + 7) &&& ~~~7#32
    (WellFounded (fun o' o => SearchStep s.allocs T o o') ∧
      ∀ o o', SearchStep s.allocs T o o' → o.toNat < o'.toNat) ∧
    ((calloc heap nobj size s).1 ≠ 0 ↔ s.live < 64 ∧ ∃ o, Room 1792 s.slot T.toNat o) ∧
    ((calloc heap nobj size s).1 ≠ 0 → ∃ o, (calloc heap nobj size s).1 = heap.addr o ∧
      IsLeast {x | Room 1792 s.slot T.toNat x} o) ∧
    ∀ σ : Equiv.Perm (Fin maxAllocs),
      (calloc heap nobj size (s.reorder σ)).1 = (calloc heap nobj size s).1 := by
  intro s T
  have hs : s.Ok := (ok_initial mem).run heap ops
  obtain ⟨hiff, hleast⟩ := @calloc_ptr heap s nobj size hs hT
  exact ⟨⟨wellFounded_searchStep _ _, fun o o' h => h.lt⟩, hiff, hleast,
    fun σ => calloc_congr (hs.reorder σ) hs (liveBlocks_reorder s σ) hT⟩

/-- The first allocation of 18 bytes. -/
theorem calloc_first_fit_first : (calloc sramHeap 2 9 (.initial fun _ => 0)).1 ≠ 0 := by
  refine (@calloc_first_fit sramHeap (fun _ => 0) [] 2 9 (by decide)).2.1.mpr
    ⟨live_lt_iff.mpr ⟨⟨0, by decide⟩, congrFun (slot_initial _) _⟩, 0, by decide, ?_⟩
  intro i b hb
  have hnone : (Allocator.initial fun _ => 0).slot i = none := congrFun (slot_initial _) i
  cases hnone.symm.trans hb

end

end RuSpe
