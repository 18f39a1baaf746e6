import RuSpe.Lib.BitTable
import RuSpe.Lib.RegisterBank

set_option autoImplicit false

/-!
# The memory protection controller of the Musca-B1

The controller has a look-up table with a bit for each block of a memory; the bits of 32 blocks are
a word, which software reaches through an index register. `set_non_secure` sets the bits of a range
of blocks, and keeps the word it works on until it comes to the next.

* `MpcRegs`, `Mpc`, `Mpc.new`, `Mpc.setNonSecure`: the registers and the driver;
* `held_foldl`, `bit_setNonSecure`: the loop sets the bits of its blocks;
* **`setNonSecure_exact_iff`**: for which ranges these are the blocks of the range.
-/

namespace RuSpe

open BitTable (Held bit)

/-! ## The registers -/

/-- The registers of a controller. `new` has cleared `autoincrement`, so that `blk_lut` is the word
of the look-up table at `blk_idx` until that is written. -/
structure MpcRegs where
  blkMax : BitVec 32
  blkCfgBlockSize : BitVec 4
  blkIdx : BitVec 32
  lut : ℕ → BitVec 32

namespace MpcRegs

/-- `blk_idx.set`. -/
def setBlkIdx (idx : BitVec 32) (r : MpcRegs) : MpcRegs := { r with blkIdx := idx }

/-- `blk_lut.get`. -/
def getBlkLut (r : MpcRegs) : BitVec 32 := r.lut r.blkIdx.toNat

/-- `blk_lut.set`. -/
def setBlkLut (val : BitVec 32) (r : MpcRegs) : MpcRegs :=
  { r with lut := Function.update r.lut r.blkIdx.toNat val }

end MpcRegs

/-! ## The driver -/

/-- `Mpc`, without the address of its registers. -/
structure Mpc where
  memoryBaseAddress : BitVec 32
  memoryLimitAddress : BitVec 32
  blockSize : BitVec 32
  deriving DecidableEq, Repr

/-- The panics of `set_non_secure`, with what their messages show. -/
inductive MpcPanic
  | invalidAddressRange
  | baseNotAtBlockStart (baseAddress blockSize : BitVec 32)
  | limitNotAtBlockEnd (limitAddress blockSize : BitVec 32)
  | divideByZero
  deriving DecidableEq, Repr

/-- `is_multiple_of`. Only zero is a multiple of zero. -/
def isMultipleOf (a b : BitVec 32) : Bool := a % b = 0

/-- The variables of the loop of `set_non_secure`. -/
structure MpcLoop where
  regs : MpcRegs
  currentIdx : BitVec 32
  currentLut : BitVec 32

/-- One block of the loop. -/
def MpcLoop.mark (s : MpcLoop) (block : BitVec 32) : MpcLoop :=
  let idx := block / 32
  let s :=
    if idx ≠ s.currentIdx then
      let regs := (s.regs.setBlkIdx s.currentIdx).setBlkLut s.currentLut
      let regs := regs.setBlkIdx idx
      ⟨regs, idx, regs.getBlkLut⟩
    else s
  { s with currentLut := s.currentLut ||| 1#32 <<< (block % 32) }

/-- `start_block..end_block`. -/
def blockRange (startBlock endBlock : BitVec 32) : List (BitVec 32) :=
  (List.range' startBlock.toNat (endBlock.toNat - startBlock.toNat)).map (BitVec.ofNat 32)

namespace Mpc

/-- `new`. -/
def new (memoryBaseAddress : BitVec 32) (r : MpcRegs) : Mpc :=
  let blockIndexMax := r.blkMax
  let blockSize := 1#32 <<< (r.blkCfgBlockSize.zeroExtend 32 + 5)
  ⟨memoryBaseAddress, memoryBaseAddress + blockSize * (blockIndexMax + 1) * 32 - 1, blockSize⟩

/-- `set_non_secure`. -/
def setNonSecure (m : Mpc) (baseAddress limitAddress : BitVec 32) (r : MpcRegs) :
    Except MpcPanic MpcRegs :=
  if baseAddress < m.memoryBaseAddress ∨ m.memoryLimitAddress < baseAddress ∨
      m.memoryLimitAddress < limitAddress ∨ limitAddress ≤ baseAddress then
    .error .invalidAddressRange
  else if !isMultipleOf baseAddress m.blockSize then
    .error (.baseNotAtBlockStart baseAddress m.blockSize)
  else if !isMultipleOf (limitAddress + 1) m.blockSize then
    .error (.limitNotAtBlockEnd limitAddress m.blockSize)
  else if m.blockSize = 0 then .error .divideByZero
  else
    let startBlock := (baseAddress - m.memoryBaseAddress) / m.blockSize
    let endBlock := (limitAddress + 1 - m.memoryBaseAddress) / m.blockSize
    let currentIdx := startBlock / 32
    let regs := r.setBlkIdx currentIdx
    let s := (blockRange startBlock endBlock).foldl MpcLoop.mark ⟨regs, currentIdx, regs.getBlkLut⟩
    .ok ((s.regs.setBlkIdx s.currentIdx).setBlkLut s.currentLut)

end Mpc

/-! ## The loop -/

/-- The loop holds one word of the table back. -/
def MpcLoop.held (s : MpcLoop) : Held 32 := ⟨s.regs.lut, s.currentIdx.toNat, s.currentLut⟩

theorem held_mark (s : MpcLoop) (block : BitVec 32) :
    (s.mark block).held = s.held.mark block.toNat := by
  have hidx : (block / 32).toNat = block.toNat / 32 := BitVec.toNat_udiv
  have hbit : (1#32 <<< (block % 32)) = 1#32 <<< (block.toNat % 32) := rfl
  unfold MpcLoop.mark Held.mark Held.seek
  have hiff : (block / 32).toNat = s.held.idx ↔ block / 32 = s.currentIdx := BitVec.toNat_inj
  rw [hbit, ← hidx]
  dsimp only
  by_cases h : block / 32 = s.currentIdx
  · rw [if_neg (show ¬ block / 32 ≠ s.currentIdx from not_not.mpr h), if_pos (hiff.mpr h)]
    rfl
  · rw [if_pos h, if_neg (hiff.not.mpr h)]
    rfl

theorem held_foldl (l : List (BitVec 32)) (s : MpcLoop) :
    (l.foldl MpcLoop.mark s).held = (l.map BitVec.toNat).foldl Held.mark s.held := by
  induction l generalizing s with
  | nil => rfl
  | cons block l ih => rw [List.foldl_cons, ih, held_mark, List.map_cons, List.foldl_cons]

theorem mem_blockRange (startBlock endBlock : BitVec 32) (k : ℕ) :
    k ∈ (blockRange startBlock endBlock).map BitVec.toNat ↔
      startBlock.toNat ≤ k ∧ k < endBlock.toNat := by
  have hmap : (blockRange startBlock endBlock).map BitVec.toNat =
      List.range' startBlock.toNat (endBlock.toNat - startBlock.toNat) :=
    RegisterBank.map_toNat_upTo startBlock endBlock
  rw [hmap, List.mem_range'_1]
  omega

theorem isMultipleOf_iff {a b : BitVec 32} : isMultipleOf a b = true ↔ b.toNat ∣ a.toNat := by
  rw [isMultipleOf, decide_eq_true_iff, ← BitVec.toNat_inj, BitVec.toNat_umod]
  exact (Nat.dvd_iff_mod_eq_zero ..).symm

/-! ## Ranges -/

/-- Block `k` lies in the range. -/
def Mpc.BlockInside (m : Mpc) (baseAddress limitAddress : BitVec 32) (k : ℕ) : Prop :=
  baseAddress.toNat ≤ m.memoryBaseAddress.toNat + k * m.blockSize.toNat ∧
    m.memoryBaseAddress.toNat + (k + 1) * m.blockSize.toNat ≤ limitAddress.toNat + 1

instance (m : Mpc) (baseAddress limitAddress : BitVec 32) :
    DecidablePred (m.BlockInside baseAddress limitAddress) := fun _ => by
  unfold Mpc.BlockInside
  infer_instance

/-- The range consists of blocks and lies in the memory, which begins at a multiple of a block. -/
structure Mpc.Aligned (m : Mpc) (baseAddress limitAddress : BitVec 32) : Prop where
  memory : m.blockSize.toNat ∣ m.memoryBaseAddress.toNat
  base : m.blockSize.toNat ∣ baseAddress.toNat
  limit : m.blockSize.toNat ∣ limitAddress.toNat + 1
  base_ge : m.memoryBaseAddress ≤ baseAddress
  base_lt : baseAddress < limitAddress
  limit_le : limitAddress ≤ m.memoryLimitAddress

section

variable {m : Mpc} {baseAddress limitAddress : BitVec 32}

theorem Mpc.Aligned.blockSize_pos (h : m.Aligned baseAddress limitAddress) :
    0 < m.blockSize.toNat := Nat.pos_of_dvd_of_pos h.limit (Nat.succ_pos _)

/-- The blocks of a range, counted from the base of the memory. -/
theorem Mpc.Aligned.blockInside_iff (h : m.Aligned baseAddress limitAddress) (k : ℕ) :
    m.BlockInside baseAddress limitAddress k ↔
      (baseAddress.toNat - m.memoryBaseAddress.toNat) / m.blockSize.toNat ≤ k ∧
        k < (limitAddress.toNat + 1 - m.memoryBaseAddress.toNat) / m.blockSize.toNat := by
  have hbs := h.blockSize_pos
  have hdvd := Nat.dvd_sub h.base h.memory
  have hge := BitVec.le_def.mp h.base_ge
  have hlt := BitVec.lt_def.mp h.base_lt
  rw [Mpc.BlockInside, Nat.div_le_iff_le_mul_of_dvd hbs.ne' hdvd, ← Nat.succ_le_iff,
    Nat.le_div_iff_mul_le hbs, Nat.succ_eq_add_one]
  omega

/-- The block of a byte of the memory lies in the range if the byte does. -/
theorem Mpc.Aligned.blockInside_div_iff (h : m.Aligned baseAddress limitAddress) {a : ℕ}
    (ha : m.memoryBaseAddress.toNat ≤ a) :
    m.BlockInside baseAddress limitAddress ((a - m.memoryBaseAddress.toNat) / m.blockSize.toNat) ↔
      baseAddress.toNat ≤ a ∧ a ≤ limitAddress.toNat := by
  have hbs := h.blockSize_pos
  have hge := BitVec.le_def.mp h.base_ge
  have hlt := BitVec.lt_def.mp h.base_lt
  obtain ⟨x, hx⟩ := Nat.dvd_sub h.base h.memory
  obtain ⟨y, hy⟩ := Nat.dvd_sub h.limit h.memory
  rw [h.blockInside_iff, hx, hy, Nat.mul_div_cancel_left x hbs, Nat.mul_div_cancel_left y hbs,
    Nat.le_div_iff_mul_le hbs, Nat.div_lt_iff_lt_mul hbs, Nat.mul_comm x, Nat.mul_comm y, ← hx, ← hy]
  omega

/-- The sum `limit_address + 1` wraps at the top of the address space. -/
theorem Mpc.Aligned.toNat_endBlock (h : m.Aligned baseAddress limitAddress)
    (hwrap : ¬ (m.memoryBaseAddress = 0 ∧ limitAddress = 0xFFFFFFFF)) :
    ((limitAddress + 1 - m.memoryBaseAddress) / m.blockSize).toNat =
      (limitAddress.toNat + 1 - m.memoryBaseAddress.toNat) / m.blockSize.toNat := by
  have hge := BitVec.le_def.mp h.base_ge
  have hlt := BitVec.lt_def.mp h.base_lt
  have hmax := limitAddress.isLt
  have hnat : ¬ (m.memoryBaseAddress.toNat = 0 ∧ limitAddress.toNat = 4294967295) :=
    fun hn => hwrap ⟨BitVec.eq_of_toNat_eq hn.1, BitVec.eq_of_toNat_eq hn.2⟩
  have hsum : (limitAddress + 1 - m.memoryBaseAddress).toNat =
      limitAddress.toNat + 1 - m.memoryBaseAddress.toNat := by
    rw [BitVec.toNat_sub, BitVec.toNat_add, show (1 : BitVec 32).toNat = 1 from rfl]
    omega
  rw [BitVec.toNat_udiv, hsum]

/-- The call does not panic, and sets the bits of the blocks that it computes. -/
theorem Mpc.Aligned.setNonSecure_eq (h : m.Aligned baseAddress limitAddress) (r : MpcRegs) :
    ∃ r', m.setNonSecure baseAddress limitAddress r = .ok r' ∧
      ∀ k, bit r'.lut k = (bit r.lut k ||
        decide ((baseAddress.toNat - m.memoryBaseAddress.toNat) / m.blockSize.toNat ≤ k ∧
          k < ((limitAddress + 1 - m.memoryBaseAddress) / m.blockSize).toNat)) := by
  have hbs := h.blockSize_pos
  have hrange : ¬ (baseAddress < m.memoryBaseAddress ∨ m.memoryLimitAddress < baseAddress ∨
      m.memoryLimitAddress < limitAddress ∨ limitAddress ≤ baseAddress) := by
    obtain ⟨-, -, -, hge, hlt, hle⟩ := h
    simp only [BitVec.lt_def, BitVec.le_def] at *
    omega
  have hbase := isMultipleOf_iff.mpr h.base
  have hlimit : isMultipleOf (limitAddress + 1) m.blockSize = true := by
    rw [isMultipleOf_iff, BitVec.toNat_add, show (1 : BitVec 32).toNat = 1 from rfl]
    rcases Nat.lt_or_ge (limitAddress.toNat + 1) (2 ^ 32) with hlt | hge
    · rw [Nat.mod_eq_of_lt hlt]
      exact h.limit
    · rw [le_antisymm limitAddress.isLt hge, Nat.mod_self]
      exact dvd_zero _
  have hne : m.blockSize ≠ 0 := by
    intro h0
    rw [h0] at hbs
    exact absurd hbs (lt_irrefl 0)
  have hstart : ((baseAddress - m.memoryBaseAddress) / m.blockSize).toNat =
      (baseAddress.toNat - m.memoryBaseAddress.toNat) / m.blockSize.toNat := by
    rw [BitVec.toNat_udiv, BitVec.toNat_sub_of_le h.base_ge]
  rw [Mpc.setNonSecure, if_neg hrange, hbase, hlimit, if_neg (show ¬ (!true) = true from nofun),
    if_neg (show ¬ (!true) = true from nofun), if_neg hne]
  refine ⟨_, rfl, fun k => ?_⟩
  have hmem := mem_blockRange ((baseAddress - m.memoryBaseAddress) / m.blockSize)
    ((limitAddress + 1 - m.memoryBaseAddress) / m.blockSize) k
  rw [hstart] at hmem
  change bit (MpcLoop.held _).table k = _
  rw [held_foldl, Held.bit_markAll, decide_eq_decide.mpr hmem]
  refine congrArg (fun t => bit t k || _) ?_
  exact Function.update_eq_self _ r.lut

/-- The loop writes the table only. -/
theorem MpcLoop.config_foldl (l : List (BitVec 32)) (s : MpcLoop) :
    (l.foldl mark s).regs.blkMax = s.regs.blkMax ∧
      (l.foldl mark s).regs.blkCfgBlockSize = s.regs.blkCfgBlockSize := by
  induction l generalizing s with
  | nil => exact ⟨rfl, rfl⟩
  | cons block l ih =>
    have hmark : (s.mark block).regs.blkMax = s.regs.blkMax ∧
        (s.mark block).regs.blkCfgBlockSize = s.regs.blkCfgBlockSize := by
      unfold mark
      dsimp only
      split_ifs <;> exact ⟨rfl, rfl⟩
    exact ⟨(ih _).1.trans hmark.1, (ih _).2.trans hmark.2⟩

theorem Mpc.config_setNonSecure {r r' : MpcRegs}
    (h : m.setNonSecure baseAddress limitAddress r = .ok r') :
    r'.blkMax = r.blkMax ∧ r'.blkCfgBlockSize = r.blkCfgBlockSize := by
  unfold setNonSecure at h
  split_ifs at h
  rw [← Except.ok.inj h]
  exact MpcLoop.config_foldl _ _

/-- A range that goes from a memory at zero to the top of the address space is left as it was. -/
theorem Mpc.Aligned.lut_eq_of_wraps (h : m.Aligned baseAddress limitAddress)
    (hwrap : m.memoryBaseAddress = 0 ∧ limitAddress = 0xFFFFFFFF) {r r' : MpcRegs}
    (hr : m.setNonSecure baseAddress limitAddress r = .ok r') : r'.lut = r.lut := by
  obtain ⟨r'', hr'', hbit⟩ := h.setNonSecure_eq r
  obtain rfl := Except.ok.inj (hr''.symm.trans hr)
  have hend : ((limitAddress + 1 - m.memoryBaseAddress) / m.blockSize).toNat = 0 := by
    rw [hwrap.1, hwrap.2, BitVec.toNat_udiv]
    exact Nat.zero_div _
  apply BitTable.ext_bit
  intro k
  rw [hbit k, decide_eq_false (by omega), Bool.or_false]

/-- The range has a block. -/
theorem Mpc.Aligned.exists_blockInside (h : m.Aligned baseAddress limitAddress) :
    ∃ k, m.BlockInside baseAddress limitAddress k := by
  have hge := BitVec.le_def.mp h.base_ge
  have hlt := BitVec.lt_def.mp h.base_lt
  refine ⟨_, (h.blockInside_iff _).mpr ⟨le_rfl, ?_⟩⟩
  have hdvd : m.blockSize.toNat ∣ limitAddress.toNat + 1 - m.memoryBaseAddress.toNat :=
    Nat.dvd_sub h.limit h.memory
  exact Nat.div_lt_div_of_lt_of_dvd hdvd (by omega)

/-- **`set_non_secure` marks exactly the blocks of the range**, whatever the table was, unless the
memory begins at zero and the range ends at the top of the address space. -/
theorem setNonSecure_exact_iff (h : m.Aligned baseAddress limitAddress) :
    (∀ r, ∃ r', m.setNonSecure baseAddress limitAddress r = .ok r' ∧
      ∀ k, bit r'.lut k =
        (bit r.lut k || decide (m.BlockInside baseAddress limitAddress k))) ↔
      ¬ (m.memoryBaseAddress = 0 ∧ limitAddress = 0xFFFFFFFF) := by
  constructor
  · intro hexact hwrap
    obtain ⟨k, hk⟩ := h.exists_blockInside
    obtain ⟨r', hr', hbit⟩ := hexact ⟨0, 0, 0, fun _ => 0⟩
    have hset := hbit k
    rw [h.lut_eq_of_wraps hwrap hr', decide_eq_true hk, Bool.or_true] at hset
    simp [bit] at hset
  · intro hwrap r
    obtain ⟨r', hr', hbit⟩ := h.setNonSecure_eq r
    refine ⟨r', hr', fun k => ?_⟩
    rw [hbit k, h.toNat_endBlock hwrap, decide_eq_decide.mpr (h.blockInside_iff k).symm]

/-- A range of 34 blocks that begins and ends inside a word of the table. -/
theorem setNonSecure_exact_iff_words :
    ∃ r', (Mpc.mk 0x10000000 0x1003FFFF 0x100).setNonSecure 0x10001F00 0x100040FF
        ⟨31, 3, 7, fun i => BitVec.ofNat 32 (5 * i)⟩ = .ok r' ∧
      ∀ k, bit r'.lut k = (bit (fun i => BitVec.ofNat 32 (5 * i)) k ||
        decide ((Mpc.mk 0x10000000 0x1003FFFF 0x100).BlockInside 0x10001F00 0x100040FF k)) := by
  have h : (Mpc.mk 0x10000000 0x1003FFFF 0x100).Aligned 0x10001F00 0x100040FF :=
    ⟨by decide, by decide, by decide, by decide, by decide, by decide⟩
  exact (setNonSecure_exact_iff h).mpr (by decide) _

/-- The last block of a memory of four gigabytes is not marked. -/
theorem setNonSecure_skips_top :
    ∃ r', (Mpc.new 0 ⟨127, 15, 0, fun _ => 0⟩).setNonSecure 0xFFF00000 0xFFFFFFFF
        ⟨127, 15, 0, fun _ => 0⟩ = .ok r' ∧ bit r'.lut 4095 = false ∧
      (Mpc.new 0 ⟨127, 15, 0, fun _ => 0⟩).Aligned 0xFFF00000 0xFFFFFFFF ∧
      (Mpc.new 0 ⟨127, 15, 0, fun _ => 0⟩).BlockInside 0xFFF00000 0xFFFFFFFF 4095 := by
  have hnew : Mpc.new 0 ⟨127, 15, 0, fun _ => 0⟩ = ⟨0, 0xFFFFFFFF, 0x100000⟩ := by decide
  rw [hnew]
  refine ⟨_, rfl, ?_, ⟨by decide, by decide, by decide, by decide, by decide, by decide⟩, ?_⟩
  · decide
  · decide

end

end RuSpe
