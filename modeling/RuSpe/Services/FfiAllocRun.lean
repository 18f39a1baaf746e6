import RuSpe.Services.FfiAlloc

set_option autoImplicit false

/-!
# Runs of the allocator

Calls of `calloc` and `free` in any order, with any arguments, while the clients write to memory.

* `AllocOp`, `Allocator.step`, `Allocator.run`;
* `Allocator.Ok.step`, `ok_run`: the table keeps its invariant;
* **`alloc_run`**: what then holds of the next call.
-/

namespace RuSpe

open BlockTable (Block)

/-- What happens next: a call, or a client writes a byte. -/
inductive AllocOp
  | calloc (nobj size : Usize)
  | free (p : Usize)
  | store (a : Usize) (val : UInt8)

/-- The sums that `calloc` forms do not wrap. -/
def NoWrap (nobj size : Usize) : Prop := nobj.toNat * size.toNat + 7 + 1792 < 2 ^ 32

theorem NoWrap.toNat_mul {nobj size : Usize} (h : NoWrap nobj size) :
    (nobj * size).toNat = nobj.toNat * size.toNat := by
  unfold NoWrap at h
  rw [BitVec.toNat_mul, Nat.mod_eq_of_lt (by omega)]

def AllocOp.NoWrap : AllocOp → Prop
  | .calloc nobj size => RuSpe.NoWrap nobj size
  | _ => True

namespace Allocator

/-- The statics before the first call. -/
def initial (mem : Usize → UInt8) : Allocator := ⟨mem, Vector.replicate maxAllocs (0, 0)⟩

def step (heap : HeapStatic) (s : Allocator) : AllocOp → Allocator
  | .calloc nobj size => (calloc heap nobj size s).2
  | .free p => free heap p s
  | .store a val => { s with mem := Function.update s.mem a val }

def run (heap : HeapStatic) (s : Allocator) (ops : List AllocOp) : Allocator :=
  ops.foldl (step heap) s

end Allocator

variable {heap : HeapStatic} {s : Allocator}

theorem slot_initial (mem : Usize → UInt8) : (Allocator.initial mem).slot = fun _ => none := by
  funext i
  simp [Allocator.slot, Allocator.initial, Alloc.block]

theorem ok_initial (mem : Usize → UInt8) : (Allocator.initial mem).Ok := by
  rw [Allocator.Ok, slot_initial]
  exact BlockTable.valid_empty

theorem Allocator.Ok.free (hs : s.Ok) (p : Usize) : (free heap p s).Ok := by
  obtain ⟨hlive, hnone⟩ := free_spec heap hs p
  by_cases h : ∃ i b, s.slot i = some b ∧ p = heap.addr b.start
  · obtain ⟨i, b, hb, hp⟩ := h
    rw [Allocator.Ok, (hlive i b hb hp).1]
    exact hs.erase i
  · rw [hnone fun i b hb hp => h ⟨i, b, hb, hp⟩]
    exact hs

theorem calloc_spec_of_noWrap (hs : s.Ok) {nobj size : Usize} (h : NoWrap nobj size) :
    (calloc heap nobj size s).2.Ok ∧
      (calloc heap nobj size s = (0, s) ∨ (calloc heap nobj size s).1 ≠ 0 ∧
        ∃ b, Allocated heap (nobj.toNat * size.toNat) (calloc heap nobj size s).1 s
          (calloc heap nobj size s).2 b) := by
  rw [← h.toNat_mul]
  refine calloc_spec hs ?_
  rw [h.toNat_mul]
  unfold NoWrap at h
  omega

/-- **One operation keeps the invariant of the table.** -/
theorem Allocator.Ok.step (hs : s.Ok) {op : AllocOp} (h : op.NoWrap) : (s.step heap op).Ok := by
  cases op with
  | calloc nobj size => exact (calloc_spec_of_noWrap hs h).1
  | free p => exact hs.free p
  | store a val => exact hs

theorem ok_run (hs : s.Ok) {ops : List AllocOp} (h : ∀ op ∈ ops, op.NoWrap) :
    (s.run heap ops).Ok := by
  induction ops generalizing s with
  | nil => exact hs
  | cons op ops ih =>
    exact ih (hs.step (h op List.mem_cons_self)) fun o ho => h o (List.mem_cons_of_mem op ho)

/-- **After every run** the live blocks are as they should be, the next `calloc` gives nothing or a
new block that is zero and apart from the others, and the next `free` takes out the block at `p`. -/
theorem alloc_run (heap : HeapStatic) (mem : Usize → UInt8) (ops : List AllocOp)
    (h : ∀ op ∈ ops, op.NoWrap) :
    let s := (Allocator.initial mem).run heap ops
    (s.Ok ∧ (Finset.univ.filter fun i => (s.slot i).isSome).card ≤ 64) ∧
    (∀ nobj size, NoWrap nobj size → calloc heap nobj size s = (0, s) ∨
      (calloc heap nobj size s).1 ≠ 0 ∧ ∃ b, Allocated heap (nobj.toNat * size.toNat)
        (calloc heap nobj size s).1 s (calloc heap nobj size s).2 b) ∧
    ∀ p, (∀ i b, s.slot i = some b → p = heap.addr b.start →
        (free heap p s).slot = Function.update s.slot i none ∧ (free heap p s).mem = s.mem) ∧
      ((∀ i b, s.slot i = some b → p ≠ heap.addr b.start) → free heap p s = s) := by
  intro s
  have hs : s.Ok := ok_run (ok_initial mem) h
  refine ⟨⟨hs, ?_⟩, fun nobj size hn => (calloc_spec_of_noWrap hs hn).2, free_spec heap hs⟩
  exact (Finset.card_le_univ _).trans_eq (Fintype.card_fin _)

/-- A heap in the middle of the memory. -/
def sramHeap : HeapStatic := ⟨0x20000000, by decide, by decide, by decide⟩

theorem alloc_run_reuse :
    ((Allocator.initial fun _ => 0).run sramHeap
      [.calloc 3 5, .calloc 1 8, .free 0x20000000, .store 0x20000010 7, .free 0x20000001,
        .calloc 2 9]).Ok :=
  (alloc_run sramHeap (fun _ => 0) [.calloc 3 5, .calloc 1 8, .free 0x20000000,
    .store 0x20000010 7, .free 0x20000001, .calloc 2 9] (by
      simp [AllocOp.NoWrap, NoWrap])).1.1

end RuSpe
