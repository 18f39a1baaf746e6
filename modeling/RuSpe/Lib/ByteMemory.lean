import Mathlib.Tactic

set_option autoImplicit false

/-!
# A memory of bytes

Addresses of `w` bits, and a byte at each of them. A range may begin near the last address and go on
at the first one.

* `Mem.read`, `Mem.write`: the bytes of a range;
* **`read_write`**: what was written is read back; `write_of_not_mem`, `read_write_of_disjoint`: the
  other bytes stay.
-/

namespace ByteMemory

/-- The byte at each address. -/
abbrev Mem (w : ℕ) := BitVec w → UInt8

namespace Mem

variable {w : ℕ}

/-- The `n` bytes from `base` on. -/
def read (mem : Mem w) (base : BitVec w) (n : ℕ) : List UInt8 :=
  (List.range n).map fun i => mem (base + BitVec.ofNat w i)

/-- `bytes` from `base` on. -/
def write (mem : Mem w) (base : BitVec w) (bytes : List UInt8) : Mem w :=
  fun a => (bytes[(a - base).toNat]?).getD (mem a)

variable (mem : Mem w) (base : BitVec w)

@[simp] theorem length_read (n : ℕ) : (mem.read base n).length = n := by
  rw [read, List.length_map, List.length_range]

theorem write_of_not_mem {bytes : List UInt8} {a : BitVec w} (h : bytes.length ≤ (a - base).toNat) :
    mem.write base bytes a = mem a := by
  rw [write, List.getElem?_eq_none h, Option.getD_none]

/-- **What was written is read back.** -/
theorem read_write {bytes : List UInt8} (h : bytes.length ≤ 2 ^ w) :
    (mem.write base bytes).read base bytes.length = bytes := by
  apply List.ext_getElem
  · exact length_read _ _ _
  · intro i hi hi'
    have hoff : (base + BitVec.ofNat w i - base).toNat = i := by
      rw [BitVec.add_comm, BitVec.add_sub_cancel, BitVec.toNat_ofNat, Nat.mod_eq_of_lt (by omega)]
    simp only [read, List.getElem_map, List.getElem_range, write, hoff,
      List.getElem?_eq_getElem hi', Option.getD_some]

/-- Bytes are read as before where other bytes were written. -/
theorem read_write_of_disjoint {bytes : List UInt8} {base' : BitVec w} {n : ℕ}
    (h : ∀ i < n, bytes.length ≤ (base + BitVec.ofNat w i - base').toNat) :
    (mem.write base' bytes).read base n = mem.read base n := by
  unfold read
  refine List.map_congr_left fun i hi => ?_
  exact mem.write_of_not_mem base' (h i (List.mem_range.mp hi))

/-- A byte that is read, at its address. -/
theorem getElem?_read {n : ℕ} {a : BitVec w} (h : (a - base).toNat < n) :
    (mem.read base n)[(a - base).toNat]? = some (mem a) := by
  rw [read, List.getElem?_map, List.getElem?_range h, Option.map_some, BitVec.ofNat_toNat,
    BitVec.setWidth_eq, BitVec.add_comm, BitVec.sub_add_cancel]

/-- Bytes that agree with the memory from `k` on change no byte from there on. -/
theorem write_of_drop {bytes : List UInt8} {k : ℕ}
    (h : bytes.drop k = (mem.read base bytes.length).drop k) {a : BitVec w}
    (ha : k ≤ (a - base).toNat) : mem.write base bytes a = mem a := by
  rcases Nat.lt_or_ge (a - base).toNat bytes.length with hlt | hge
  · have hget := congrArg (fun l : List UInt8 => l[(a - base).toNat - k]?) h
    rw [List.getElem?_drop, List.getElem?_drop, Nat.add_sub_cancel' ha,
      getElem?_read mem base hlt] at hget
    rw [write, hget, Option.getD_some]
  · exact mem.write_of_not_mem base hge

/-- Bytes that are written back change nothing. -/
theorem write_read (n : ℕ) : mem.write base (mem.read base n) = mem := by
  funext a
  refine mem.write_of_drop base (k := 0) ?_ (Nat.zero_le _)
  rw [length_read]

end Mem

end ByteMemory
