import RuSpe.Lib.AlignDown
import RuSpe.Lib.BlockTable
import RuSpe.Psa.Types

set_option autoImplicit false

/-!
# The allocator of the C library

A heap of fixed size and a table of the allocations in it, in no order. A request goes to the first
place that is free, found by starting again behind every allocation in the way.

* `HeapStatic`, `Allocator`: the statics;
* `search`, `calloc`, `free`;
* `Allocator.slot`, `Allocator.Ok`: the table as blocks, and what it keeps;
* **`calloc_spec`**, **`free_spec`**: what the two functions do.
-/

namespace RuSpe

open BlockTable (Block)

def heapSize : Usize := 1792

def maxAllocs : ℕ := 64

/-- Where `HEAP` lies. A static is not at address zero, does not wrap, and is aligned as its type
asks for. -/
structure HeapStatic where
  start : Usize
  start_pos : 0 < start.toNat
  aligned : 8 ∣ start.toNat
  fits : start.toNat + 1792 < 2 ^ 32

/-- An entry `(offset, size)` of `ALLOCS`. -/
abbrev Alloc := BitVec 16 × BitVec 16

/-- `ALLOCS`, and the memory `HEAP` lies in. -/
structure Allocator where
  mem : Usize → UInt8
  allocs : Vector Alloc maxAllocs

/-- The first entry with property `p`, by `for i in 0..MAX_ALLOCS`. -/
def firstIdx (allocs : Vector Alloc maxAllocs) (p : Alloc → Bool) : Option (Fin maxAllocs) :=
  (List.finRange maxAllocs).find? fun i => p allocs[i]

def aStart (a : Alloc) : Usize := a.1.setWidth 32

def aEnd (a : Alloc) : Usize := aStart a + a.2.setWidth 32

/-- The test of the search loop: `a` is live and overlaps `total` bytes at `offset`. -/
def blocks (offset total : Usize) (a : Alloc) : Bool :=
  a.2 > 0 && offset < aEnd a && offset + total > aStart a

theorem toNat_aEnd (a : Alloc) : (aEnd a).toNat = a.1.toNat + a.2.toNat := by
  have h₁ := a.1.isLt
  have h₂ := a.2.isLt
  rw [aEnd, aStart, BitVec.toNat_add, BitVec.toNat_setWidth_of_le (by decide),
    BitVec.toNat_setWidth_of_le (by decide)]
  omega

theorem toNat_aEnd_lt (a : Alloc) : (aEnd a).toNat < 2 ^ 17 := by
  have h₁ := a.1.isLt
  have h₂ := a.2.isLt
  rw [toNat_aEnd]
  omega

/-- The loop of `calloc` from `offset` on. It ends since the offset grows with every allocation that
is in the way. -/
def search (allocs : Vector Alloc maxAllocs) (total offset : Usize) : Option Usize :=
  if offset + total ≤ heapSize then
    match h : firstIdx allocs (blocks offset total) with
    | some i => search allocs total (aEnd allocs[i])
    | none => some offset
  else none
termination_by 2 ^ 17 - offset.toNat
decreasing_by
  have hblocks := List.find?_some h
  have hend := toNat_aEnd_lt allocs[i]
  simp only [blocks, Bool.and_eq_true, decide_eq_true_eq, BitVec.lt_def] at hblocks
  omega

/-- `write_bytes(ptr, val, count)`. -/
def writeBytes (mem : Usize → UInt8) (ptr : Usize) (val : UInt8) (count : Usize) : Usize → UInt8 :=
  fun a => if a - ptr < count then val else mem a

/-- `calloc`: the pointer, and the statics after it. -/
def calloc (heap : HeapStatic) (nobj size : Usize) (s : Allocator) : Usize × Allocator :=
  let totalReq := nobj * size
  if totalReq = 0 then (0, s)
  else
    let total := (totalReq + 7) &&& ~~~7
    match search s.allocs total 0 with
    | none => (0, s)
    | some offset =>
      match firstIdx s.allocs (fun a => a.2 = 0) with
      | none => (0, s)
      | some i =>
        let ptr := heap.start + offset
        (ptr, { mem := writeBytes s.mem ptr 0 totalReq
                allocs := s.allocs.set i (offset.setWidth 16, total.setWidth 16) })

/-- `free`. -/
def free (heap : HeapStatic) (p : Usize) (s : Allocator) : Allocator :=
  if p = 0 then s
  else if p < heap.start || p ≥ heap.start + heapSize then s
  else
    let pOffset := p - heap.start
    match firstIdx s.allocs (fun a => a.2 > 0 && aStart a = pOffset) with
    | none => s
    | some i => { s with allocs := s.allocs.set i (s.allocs[i].1, 0) }

/-! ## The table as blocks -/

/-- A live entry as a block of the heap. -/
def Alloc.block (a : Alloc) : Option Block :=
  if a.2 = 0 then none else some ⟨a.1.toNat, a.2.toNat⟩

/-- The block in each place of the table. -/
def Allocator.slot (s : Allocator) : Fin maxAllocs → Option Block := fun i => Alloc.block s.allocs[i]

/-- The live entries are aligned blocks of the heap that do not overlap. -/
def Allocator.Ok (s : Allocator) : Prop := BlockTable.Valid 1792 8 s.slot

theorem firstIdx_eq_some {allocs : Vector Alloc maxAllocs} {p : Alloc → Bool} {i : Fin maxAllocs}
    (h : firstIdx allocs p = some i) : p allocs[i] = true :=
  List.find?_some (p := fun i => p allocs[i]) h

theorem firstIdx_eq_none {allocs : Vector Alloc maxAllocs} {p : Alloc → Bool}
    (h : firstIdx allocs p = none) (i : Fin maxAllocs) : p allocs[i] = false := by
  have hi := List.find?_eq_none.mp h i (List.mem_finRange i)
  exact Bool.eq_false_iff.mpr hi

theorem Alloc.block_eq_some {a : Alloc} {b : Block} :
    Alloc.block a = some b ↔ 0 < a.2.toNat ∧ b = ⟨a.1.toNat, a.2.toNat⟩ := by
  have hzero : a.2 = 0 ↔ a.2.toNat = 0 := by rw [← BitVec.toNat_inj]; rfl
  unfold Alloc.block
  split_ifs with h
  · refine iff_of_false nofun fun hb => ?_
    rw [hzero] at h
    omega
  · rw [hzero] at h
    rw [Option.some_inj, eq_comm, and_iff_right (by omega)]

theorem slot_set (s : Allocator) (i : Fin maxAllocs) (a : Alloc) (mem : Usize → UInt8) :
    Allocator.slot ⟨mem, s.allocs.set i a⟩ = Function.update s.slot i (Alloc.block a) := by
  funext j
  unfold Allocator.slot
  by_cases h : j = i
  · subst h
    rw [Function.update_self]
    simp
  · have hne : (i : ℕ) ≠ j := fun he => h (Fin.ext he.symm)
    rw [Function.update_of_ne h]
    simp [Vector.getElem_set_ne _ _ hne]

/-! ## The search -/

/-- The test of the loop, when no sum wraps. -/
theorem blocks_iff {offset total : Usize} {a : Alloc} (h : offset.toNat + total.toNat < 2 ^ 32) :
    blocks offset total a = true ↔ 0 < a.2.toNat ∧ offset.toNat < a.1.toNat + a.2.toNat ∧
      a.1.toNat < offset.toNat + total.toNat := by
  have hstart : (aStart a).toNat = a.1.toNat := BitVec.toNat_setWidth_of_le (by decide)
  have hsum : (offset + total).toNat = offset.toNat + total.toNat :=
    BitVec.toNat_add_of_lt h
  simp only [blocks, Bool.and_eq_true, decide_eq_true_eq, gt_iff_lt, BitVec.lt_def, toNat_aEnd,
    hstart, hsum]
  exact and_assoc

/-- The end of a live entry is in the heap, and aligned. -/
theorem Allocator.Ok.aEnd_le {s : Allocator} (hs : s.Ok) {i : Fin maxAllocs}
    (hi : 0 < s.allocs[i].2.toNat) :
    (aEnd s.allocs[i]).toNat ≤ 1792 ∧ 8 ∣ (aEnd s.allocs[i]).toNat := by
  have hslot : s.slot i = some ⟨s.allocs[i].1.toNat, s.allocs[i].2.toNat⟩ :=
    Alloc.block_eq_some.mpr ⟨hi, rfl⟩
  have hinside := hs.inside hslot
  obtain ⟨hstart, hlen⟩ := hs.aligned hslot
  rw [toNat_aEnd]
  exact ⟨hinside, Nat.dvd_add hstart hlen⟩

/-- **What the search finds**: a free, aligned place in the heap. -/
theorem search_eq_some {s : Allocator} (hs : s.Ok) {total offset o : Usize}
    (ht : total.toNat + 1792 < 2 ^ 32) (hle : offset.toNat ≤ 1792) (ha : 8 ∣ offset.toNat)
    (h : search s.allocs total offset = some o) :
    8 ∣ o.toNat ∧ o.toNat + total.toNat ≤ 1792 ∧
      ∀ i b, s.slot i = some b → (⟨o.toNat, total.toNat⟩ : Block).Apart b := by
  have hheap : heapSize.toNat = 1792 := rfl
  fun_induction search s.allocs total offset with
  | case1 offset hfits i hi ih =>
    -- An entry is in the way: the search goes on behind it.
    have hblocks := (blocks_iff (by omega)).mp (firstIdx_eq_some hi)
    obtain ⟨hend, hal⟩ := hs.aEnd_le hblocks.1
    exact ih hend hal h
  | case2 offset hfits hnone =>
    obtain rfl := Option.some.inj h
    have hsum : (offset + total).toNat = offset.toNat + total.toNat :=
      BitVec.toNat_add_of_lt (by omega)
    rw [BitVec.le_def, hsum, hheap] at hfits
    refine ⟨ha, hfits, ?_⟩
    intro i b hb
    obtain ⟨hpos, rfl⟩ := Alloc.block_eq_some.mp hb
    have hfree := firstIdx_eq_none hnone i
    rw [← Bool.not_eq_true, blocks_iff (by omega)] at hfree
    unfold Block.Apart Block.stop
    dsimp only
    omega
  | case3 offset hfits => cases h

theorem zero_add_le_heapSize {total : Usize} : (0 : Usize) + total ≤ heapSize ↔ total.toNat ≤ 1792 := by
  rw [show (0 : Usize) + total = total from BitVec.zero_add total, BitVec.le_def]
  rfl

/-- A size that does not fit the heap is refused at once. -/
theorem search_of_large (allocs : Vector Alloc maxAllocs) {total : Usize}
    (h : 1792 < total.toNat) :
    search allocs total 0 = none := by
  rw [search, if_neg]
  rw [zero_add_le_heapSize]
  exact not_le.mpr h

/-! ## The two functions -/

theorem toNat_total {req : Usize} (h : req.toNat + 7 < 2 ^ 32) :
    ((req + 7) &&& ~~~7#32).toNat = (req.toNat + 7) / 8 * 8 := by
  have hsum : (req + 7).toNat = req.toNat + 7 := BitVec.toNat_add_of_lt h
  rw [AlignDown.toNat_and_mask (k := 3) (by decide), hsum]
  rfl

/-- The address of a byte of the heap. -/
def HeapStatic.addr (heap : HeapStatic) (k : ℕ) : Usize := heap.start + BitVec.ofNat 32 k

theorem HeapStatic.toNat_addr (heap : HeapStatic) {k : ℕ} (h : k ≤ 1792) :
    (heap.addr k).toNat = heap.start.toNat + k := by
  have hfits := heap.fits
  have hk : (BitVec.ofNat 32 k).toNat = k := by
    rw [BitVec.toNat_ofNat, Nat.mod_eq_of_lt (by omega)]
  rw [addr, BitVec.toNat_add_of_lt (by omega), hk]

/-- What a `calloc` that gave `p` for `req` bytes has done: `b` is a new block at `p`, its first
`req` bytes are zero, and the bytes of the other blocks are as before. -/
structure Allocated (heap : HeapStatic) (req : ℕ) (p : Usize) (s s' : Allocator) (b : Block) :
    Prop where
  ptr : p = heap.addr b.start
  len : req ≤ b.len
  slot : ∃ i, s.slot i = none ∧ s'.slot = Function.update s.slot i (some b)
  apart : ∀ j c, s.slot j = some c → b.Apart c
  zero : ∀ k < req, s'.mem (heap.addr (b.start + k)) = 0
  kept : ∀ j c, s.slot j = some c →
    ∀ k < c.len, s'.mem (heap.addr (c.start + k)) = s.mem (heap.addr (c.start + k))

/-- Writing to the heap changes the bytes that are written. -/
theorem writeBytes_addr (heap : HeapStatic) (mem : Usize → UInt8) (val : UInt8) {count : Usize}
    {o k : ℕ} (ho : o ≤ 1792) (hk : k ≤ 1792) (hc : count.toNat + 1792 < 2 ^ 32) :
    writeBytes mem (heap.addr o) val count (heap.addr k) =
      if o ≤ k ∧ k < o + count.toNat then val else mem (heap.addr k) := by
  have hfits := heap.fits
  have hao := heap.toNat_addr ho
  have hak := heap.toNat_addr hk
  have hlt : heap.addr k - heap.addr o < count ↔ o ≤ k ∧ k < o + count.toNat := by bv_omega
  rw [writeBytes]
  simp only [hlt]

/-- The ways `calloc` returns. -/
theorem calloc_cases (heap : HeapStatic) (nobj size : Usize) (s : Allocator) :
    calloc heap nobj size s = (0, s) ∨
      ∃ (o : Usize) (i : Fin maxAllocs), nobj * size ≠ 0 ∧
        search s.allocs ((nobj * size + 7) &&& ~~~7#32) 0 = some o ∧ s.allocs[i].2 = 0 ∧
        calloc heap nobj size s = (heap.start + o,
          ⟨writeBytes s.mem (heap.start + o) 0 (nobj * size),
            s.allocs.set i (o.setWidth 16, ((nobj * size + 7) &&& ~~~7#32).setWidth 16)⟩) := by
  rw [calloc]
  dsimp only
  by_cases hzero : nobj * size = 0
  · rw [if_pos hzero]
    exact .inl rfl
  · rw [if_neg hzero]
    cases hsearch : search s.allocs ((nobj * size + 7) &&& ~~~7#32) 0 with
    | none => exact .inl rfl
    | some o =>
      cases hidx : firstIdx s.allocs (fun a => a.2 = 0) with
      | none => exact .inl rfl
      | some i => exact .inr ⟨o, i, hzero, rfl, of_decide_eq_true (firstIdx_eq_some hidx), rfl⟩

/-- **`calloc` gives nothing and changes nothing, or it gives a new block.** -/
theorem calloc_spec {heap : HeapStatic} {s : Allocator} (hs : s.Ok) {nobj size : Usize}
    (h : (nobj * size).toNat + 7 < 2 ^ 32) :
    (calloc heap nobj size s).2.Ok ∧
      (calloc heap nobj size s = (0, s) ∨ (calloc heap nobj size s).1 ≠ 0 ∧
        ∃ b, Allocated heap (nobj * size).toNat (calloc heap nobj size s).1 s
          (calloc heap nobj size s).2 b) := by
  have htotal := @toNat_total (nobj * size) h
  rcases calloc_cases heap nobj size s with hnull | ⟨o, i, hne, hsearch, hfree, hcalloc⟩
  · rw [hnull]
    exact ⟨hs, .inl rfl⟩
  · have hpos : 0 < (nobj * size).toNat := by
      rw [Nat.pos_iff_ne_zero]
      exact fun hz => hne (BitVec.eq_of_toNat_eq hz)
    generalize (nobj * size + 7) &&& ~~~7#32 = total at htotal hsearch hcalloc
    have hlarge : total.toNat ≤ 1792 := by
      by_contra hlt
      rw [search_of_large s.allocs (not_le.mp hlt)] at hsearch
      cases hsearch
    obtain ⟨hal, hend, hapart⟩ := search_eq_some hs (by omega) (by decide) (by decide) hsearch
    have hfits := heap.fits
    have hstart := heap.start_pos
    have hptr : heap.start + o = heap.addr o.toNat := by
      rw [HeapStatic.addr, BitVec.ofNat_toNat, BitVec.setWidth_eq]
    -- The new entry holds the place and the size that were found.
    have hentry : Alloc.block (o.setWidth 16, total.setWidth 16)
        = some ⟨o.toNat, total.toNat⟩ := by
      have ho : (o.setWidth 16).toNat = o.toNat := by
        rw [BitVec.toNat_setWidth, Nat.mod_eq_of_lt (by omega)]
      have ht : (total.setWidth 16).toNat = total.toNat := by
        rw [BitVec.toNat_setWidth, Nat.mod_eq_of_lt (by omega)]
      rw [Alloc.block_eq_some, ho, ht]
      exact ⟨by omega, rfl⟩
    have hempty : s.slot i = none := if_pos hfree
    have hslot : (calloc heap nobj size s).2.slot
        = Function.update s.slot i (some ⟨o.toNat, total.toNat⟩) := by
      rw [hcalloc, slot_set, hentry]
    refine ⟨?_, .inr ⟨?_, ⟨o.toNat, total.toNat⟩, ?_, ?_, ⟨i, hempty, hslot⟩, hapart, ?_, ?_⟩⟩
    · rw [Allocator.Ok, hslot]
      exact hs.insert i (by dsimp only; omega) ⟨hal, by dsimp only; omega⟩ hend hapart
    · rw [hcalloc, hptr, ← BitVec.toNat_inj.ne, heap.toNat_addr (by omega)]
      show heap.start.toNat + o.toNat ≠ 0
      omega
    · rw [hcalloc, hptr]
    · dsimp only
      omega
    · intro k hk
      rw [hcalloc, hptr]
      dsimp only
      rw [writeBytes_addr heap s.mem 0 (by omega) (by omega) (by omega), if_pos (by omega)]
    · intro j c hc k hk
      have hinside := hs.inside hc
      have happ := hapart j c hc
      unfold Block.Apart at happ
      unfold Block.stop at happ hinside
      dsimp only at happ
      rw [hcalloc, hptr]
      dsimp only
      rw [writeBytes_addr heap s.mem 0 (by omega) (by omega) (by omega), if_neg (by omega)]

/-- The test of `free`: `a` is live and begins at `p`. -/
theorem begins_iff (heap : HeapStatic) (p : Usize) (a : Alloc) :
    (decide (a.2 > 0) && decide (aStart a = p - heap.start)) = true ↔
      ∃ b, Alloc.block a = some b ∧ p = heap.addr b.start := by
  have haddr : heap.addr a.1.toNat = heap.start + aStart a := by
    rw [HeapStatic.addr, aStart, BitVec.ofNat_toNat]
  rw [Bool.and_eq_true, decide_eq_true_iff, decide_eq_true_iff, gt_iff_lt, BitVec.lt_def]
  constructor
  · rintro ⟨hpos, hp⟩
    refine ⟨_, Alloc.block_eq_some.mpr ⟨hpos, rfl⟩, ?_⟩
    rw [haddr, hp]
    bv_omega
  · rintro ⟨b, hb, rfl⟩
    obtain ⟨hpos, rfl⟩ := Alloc.block_eq_some.mp hb
    refine ⟨hpos, ?_⟩
    rw [haddr]
    bv_omega

/-- **`free` takes out the block that begins at `p`, if there is one**, and else does nothing. -/
theorem free_spec (heap : HeapStatic) {s : Allocator} (hs : s.Ok) (p : Usize) :
    (∀ i b, s.slot i = some b → p = heap.addr b.start →
      (free heap p s).slot = Function.update s.slot i none ∧ (free heap p s).mem = s.mem) ∧
    ((∀ i b, s.slot i = some b → p ≠ heap.addr b.start) → free heap p s = s) := by
  constructor
  · intro i b hb hp
    have hpos := hs.pos hb
    have hinside := hs.inside hb
    have hfits := heap.fits
    have hstart := heap.start_pos
    unfold Block.stop at hinside
    have haddr := heap.toNat_addr (k := b.start) (by omega)
    have hheap : (heap.start + heapSize).toNat = heap.start.toNat + 1792 :=
      BitVec.toNat_add_of_lt hfits
    have hne : p ≠ 0 := by
      rw [hp, ← BitVec.toNat_inj.ne, haddr]
      show heap.start.toNat + b.start ≠ 0
      omega
    have hrange : (decide (p < heap.start) || decide (p ≥ heap.start + heapSize)) = false := by
      rw [Bool.or_eq_false_iff, decide_eq_false_iff_not, decide_eq_false_iff_not, hp, BitVec.lt_def,
        ge_iff_le, BitVec.le_def, haddr, hheap]
      omega
    rw [free, if_neg hne, hrange, if_neg Bool.false_ne_true]
    dsimp only
    cases hidx : firstIdx s.allocs
        (fun a => decide (a.2 > 0) && decide (aStart a = p - heap.start)) with
    | none =>
      have hi := firstIdx_eq_none hidx i
      rw [(begins_iff heap p s.allocs[i]).mpr ⟨b, hb, hp⟩] at hi
      cases hi
    | some j =>
      obtain ⟨c, hc, hpc⟩ := (begins_iff heap p s.allocs[j]).mp (firstIdx_eq_some hidx)
      have hcpos := hs.pos (i := j) hc
      have hcinside := hs.inside (i := j) hc
      unfold Block.stop at hcinside
      have hcaddr := heap.toNat_addr (k := c.start) (by omega)
      have hsame : j = i := by
        refine hs.eq_of_start_eq hc hb ?_
        rw [← hpc, hp] at hcaddr
        omega
      dsimp only
      rw [hsame, slot_set]
      exact ⟨rfl, rfl⟩
  · intro hnone
    rw [free]
    split_ifs with hnull hrange
    · rfl
    · rfl
    · dsimp only
      cases hidx : firstIdx s.allocs
          (fun a => decide (a.2 > 0) && decide (aStart a = p - heap.start)) with
      | none => rfl
      | some j =>
        obtain ⟨c, hc, hpc⟩ := (begins_iff heap p s.allocs[j]).mp (firstIdx_eq_some hidx)
        exact absurd hpc (hnone j c hc)

end RuSpe
