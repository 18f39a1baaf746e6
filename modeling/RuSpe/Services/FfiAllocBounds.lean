import RuSpe.Services.FfiAllocFit

set_option autoImplicit false

/-!
# The bounds of the heap

`calloc` asks its callers for a product that fits a word. Rounding it up to a multiple of 8 adds 7,
and nothing checks that sum: close to the largest number the rounded size is zero, and the bytes
that are cleared are those of the product.

* `Contained`: a request has no effect outside the heap; `NoSumWraps`;
* `contained_of_fits`, `contained_of_wraps_iff`;
* **`calloc_contained_iff`**: which requests stay in the heap.
-/

namespace RuSpe

section

variable {heap : HeapStatic} {s : Allocator} {nobj size : Usize}

/-! ## Requests that stay in the heap -/

/-- `a` is an address of the heap. -/
def HeapStatic.Contains (heap : HeapStatic) (a : Usize) : Prop :=
  heap.start.toNat ≤ a.toNat ∧ a.toNat < heap.start.toNat + 1792

/-- The request has no effect outside the heap: whatever the memory holds, no byte there changes; an
entry that is recorded is not empty; and a request for more than the heap gives null. -/
structure Contained (heap : HeapStatic) (nobj size : Usize) (s : Allocator) : Prop where
  outside : ∀ mem a, ¬ heap.Contains a → (calloc heap nobj size ⟨mem, s.allocs⟩).2.mem a = mem a
  recorded : (calloc heap nobj size s).1 ≠ 0 →
    ∃ i, s.slot i = none ∧ ((calloc heap nobj size s).2.slot i).isSome
  null : 1792 < nobj.toNat * size.toNat → (calloc heap nobj size s).1 = 0

/-- Neither the rounding nor a sum of the search wraps. -/
structure NoSumWraps (nobj size : Usize) (s : Allocator) : Prop where
  round : nobj.toNat * size.toNat + 7 < 2 ^ 32
  offset : ∀ o, Visited s.allocs ((nobj * size + 7) &&& ~~~7#32) o →
    o.toNat + ((nobj * size + 7) &&& ~~~7#32).toNat < 2 ^ 32

/-- What is cleared at a place in the heap lies in the heap. -/
theorem writeBytes_of_not_contains {o count : Usize} (h : o.toNat + count.toNat ≤ 1792)
    (mem : Usize → UInt8) (val : UInt8) {a : Usize} (ha : ¬ heap.Contains a) :
    writeBytes mem (heap.start + o) val count a = mem a := by
  have hfits := heap.fits
  unfold HeapStatic.Contains at ha
  rw [writeBytes, if_neg]
  bv_omega

/-- A request whose rounding does not wrap stays in the heap. -/
theorem contained_of_fits (hs : s.Ok) (h : nobj.toNat * size.toNat + 7 < 2 ^ 32) :
    Contained heap nobj size s := by
  have hreq : (nobj * size).toNat = nobj.toNat * size.toNat := by
    rw [BitVec.toNat_mul, Nat.mod_eq_of_lt (by omega)]
  have htotal := @toNat_total (nobj * size) (by omega)
  have hlarge {o : Usize} (ho : search s.allocs ((nobj * size + 7) &&& ~~~7#32) 0 = some o) :
      ((nobj * size + 7) &&& ~~~7#32).toNat ≤ 1792 := by
    by_contra hlt
    rw [search_of_large s.allocs (not_le.mp hlt)] at ho
    cases ho
  refine ⟨fun mem a ha => ?_, fun hne => ?_, fun hbig => ?_⟩
  · rcases calloc_cases heap nobj size ⟨mem, s.allocs⟩ with hnull | ⟨o, i, -, hsearch, -, hcalloc⟩
    · rw [hnull]
    · have hle := hlarge hsearch
      obtain ⟨-, hend, -⟩ := search_eq_some hs (by omega) (by decide) (by decide) hsearch
      rw [hcalloc]
      exact writeBytes_of_not_contains (by omega) mem 0 ha
  · rcases (@calloc_spec heap s hs nobj size (by omega)).2 with hnull | ⟨-, b, hb⟩
    · rw [hnull] at hne
      exact absurd rfl hne
    · obtain ⟨i, hi, hslot⟩ := hb.slot
      refine ⟨i, hi, ?_⟩
      rw [hslot, Function.update_self]
      rfl
  · rcases calloc_cases heap nobj size s with hnull | ⟨o, i, -, hsearch, -⟩
    · rw [hnull]
    · have hle := hlarge hsearch
      omega

/-- One that wraps stays in the heap only because there is no entry for it. -/
theorem contained_of_wraps_iff (h : 2 ^ 32 ≤ nobj.toNat * size.toNat + 7)
    (hfit : nobj.toNat * size.toNat < 2 ^ 32) :
    Contained heap nobj size s ↔ ∀ i, (s.slot i).isSome := by
  have hreq : (nobj * size).toNat = nobj.toNat * size.toNat := by
    rw [BitVec.toNat_mul, Nat.mod_eq_of_lt hfit]
  have hfree : (∀ i, (s.slot i).isSome) ↔ firstIdx s.allocs (fun a => a.2 = 0) = none := by
    rw [← not_iff_not, ← ne_eq, Option.ne_none_iff_exists']
    rw [exists_free_entry, live_lt_iff, not_forall]
    simp only [Option.not_isSome_iff_eq_none]
  rw [hfree]
  have hcalloc (mem : Usize → UInt8) := calloc_of_wraps heap ⟨mem, s.allocs⟩ (hreq ▸ h)
  constructor
  · intro hc
    have hnull := hc.null (by omega)
    rw [hcalloc] at hnull
    cases hidx : firstIdx s.allocs (fun a => a.2 = 0) with
    | none => rfl
    | some i =>
      rw [hidx] at hnull
      exact absurd hnull (heap.addr_ne_zero (Nat.zero_le _))
  · intro hnone
    have hsame (mem : Usize → UInt8) :
        calloc heap nobj size ⟨mem, s.allocs⟩ = (0, ⟨mem, s.allocs⟩) := by
      rw [hcalloc, hnone]
    exact ⟨fun mem a _ => by rw [hsame], fun hne => absurd (congrArg Prod.fst (hsame s.mem)) hne,
      fun _ => congrArg Prod.fst (hsame s.mem)⟩

/-- **After every run, a request whose product fits stays in the heap and no sum wraps, exactly if
adding 7 to the product does not wrap.** A larger one stays in the heap only if the table is
full. -/
theorem calloc_contained_iff (heap : HeapStatic) (mem : Usize → UInt8) (ops : List AllocOp)
    {nobj size : Usize} (hfit : nobj.toNat * size.toNat < 2 ^ 32) :
    let s := (Allocator.initial mem).run heap ops
    (Contained heap nobj size s ∧ NoSumWraps nobj size s ↔
      nobj.toNat * size.toNat + 7 < 2 ^ 32) ∧
    (Contained heap nobj size s ↔
      nobj.toNat * size.toNat + 7 < 2 ^ 32 ∨ ∀ i, (s.slot i).isSome) := by
  intro s
  have hs : s.Ok := (ok_initial mem).run heap ops
  constructor
  · refine ⟨fun h => h.2.round, fun h => ⟨contained_of_fits hs h, h, fun o ho => ?_⟩⟩
    exact Visited.add_lt hs ho
  · by_cases h : nobj.toNat * size.toNat + 7 < 2 ^ 32
    · exact iff_of_true (contained_of_fits hs h) (.inl h)
    · rw [contained_of_wraps_iff (not_lt.mp h) hfit, or_iff_right h]

/-- A request for the whole heap. -/
theorem calloc_contained_iff_small :
    Contained sramHeap 1 1792 ((Allocator.initial fun _ => 0).run sramHeap [.calloc 1 8]) :=
  (@calloc_contained_iff sramHeap (fun _ => 0) [.calloc 1 8] 1 1792 (by decide)).2.mpr
    (.inl (by decide))

/-- A request for all but one byte of the memory gives a pointer, and clears a byte far from the
heap. -/
theorem calloc_escapes :
    let s := Allocator.initial fun _ => 0xEE
    (1 : Usize).toNat * (0xFFFFFFFF : Usize).toNat < 2 ^ 32 ∧
      (calloc sramHeap 1 0xFFFFFFFF s).1 = 0x20000000 ∧ ¬ sramHeap.Contains 0x10000000 ∧
      (calloc sramHeap 1 0xFFFFFFFF s).2.mem 0x10000000 ≠ s.mem 0x10000000 ∧
      ¬ Contained sramHeap 1 0xFFFFFFFF s := by
  intro s
  have hcalloc := @calloc_of_wraps 1 0xFFFFFFFF sramHeap s (by decide)
  have hout : ¬ sramHeap.Contains 0x10000000 := by
    rintro ⟨hle, -⟩
    exact absurd hle (by decide)
  have hentry : s.slot ⟨0, by decide⟩ = none := congrFun (slot_initial _) _
  cases hidx : firstIdx s.allocs (fun a => a.2 = 0) with
  | none =>
    have hnone := firstIdx_eq_none hidx ⟨0, by decide⟩
    exact absurd (slot_eq_none.mp hentry) (of_decide_eq_false hnone)
  | some i =>
    rw [hidx] at hcalloc
    have hchanged : (calloc sramHeap 1 0xFFFFFFFF s).2.mem 0x10000000 ≠ s.mem 0x10000000 := by
      have hzero : writeBytes s.mem (sramHeap.start + 0) 0 (1 * 0xFFFFFFFF) 0x10000000 = 0 :=
        if_pos (by decide)
      rw [hcalloc]
      dsimp only
      rw [hzero]
      show (0 : UInt8) ≠ 0xEE
      decide
    refine ⟨by decide, by rw [hcalloc]; rfl, hout, hchanged, fun hc => hchanged ?_⟩
    exact hc.outside s.mem 0x10000000 hout

end

end RuSpe
