import RuSpe.Cose.Cursor
import RuSpe.Lib.Ownership
import RuSpe.Services.FfiAllocFit

set_option autoImplicit false

/-!
# Signing with Mbed TLS

`sign_hash_unsafe_mbedtls` prepares four objects of the C library, which allocates what they hold in
the fixed heap. They are released at the end of the function, but not on the return before it.

* `Mbedtls`: what the function uses of the library; `Mbedtls.Lawful`: what is allocated belongs to
  the objects of a call, and a release frees all of it;
* `signCall`, `signHashUnsafeMbedtls`; `Leaves`: the return that releases nothing is taken;
* **`signHash_live_iff`**: when a request leaves the live blocks as they were, and what follows for
  requests in sequence.
-/

namespace RuSpe

open BlockTable (Block)
open Cbor (Bytes)
open Ownership (Into)

/-! ## The library -/

/-- The allocator, with its table in order. -/
abbrev AllocHeap := {s : Allocator // s.Ok}

def AllocHeap.live (h : AllocHeap) : Set Block := h.1.liveBlocks

/-- The four objects of a signature. -/
structure SignObjects (Grp Mpi : Type) where
  grp : Grp
  r : Mpi
  s : Mpi
  d : Mpi

/-- What is used of Mbed TLS. A function gets the objects that it is pointed to, and returns them as
it leaves them. -/
structure Mbedtls where
  Grp : Type
  Mpi : Type
  /-- `core::mem::zeroed()`. -/
  zeroedGrp : Grp
  zeroedMpi : Mpi
  /-- The blocks that an object points to. -/
  grpBlocks : Grp → Set Block
  mpiBlocks : Mpi → Set Block
  ecpGroupInit : Grp → AllocHeap → Grp × AllocHeap
  ecpGroupLoadSecp256r1 : Grp → AllocHeap → Grp × AllocHeap
  ecpGroupFree : Grp → AllocHeap → AllocHeap
  mpiInit : Mpi → AllocHeap → Mpi × AllocHeap
  mpiReadBinary : Mpi → Bytes → AllocHeap → Mpi × AllocHeap
  mpiWriteBinary : Mpi → Bytes → Bytes
  mpiFree : Mpi → AllocHeap → AllocHeap
  ecdsaSign : SignObjects Grp Mpi → Bytes → (ℕ → Bytes) → AllocHeap →
    (ℤ × SignObjects Grp Mpi) × AllocHeap

namespace Mbedtls

variable (lib : Mbedtls)

abbrev Objects := SignObjects lib.Grp lib.Mpi

/-- The blocks of all four objects. -/
def owned (o : lib.Objects) : Set Block :=
  lib.mpiBlocks o.s ∪ (lib.mpiBlocks o.r ∪ (lib.mpiBlocks o.d ∪ lib.grpBlocks o.grp))

/-- Each call allocates into the objects it is given only, and each release frees all that its
object holds. A zeroed object holds nothing when it is initialised. -/
structure Lawful : Prop where
  ecpGroupInit : ∀ h, Into h.live ∅ (lib.ecpGroupInit lib.zeroedGrp h).2.live
    (lib.grpBlocks (lib.ecpGroupInit lib.zeroedGrp h).1)
  ecpGroupLoad : ∀ g h, Into h.live (lib.grpBlocks g) (lib.ecpGroupLoadSecp256r1 g h).2.live
    (lib.grpBlocks (lib.ecpGroupLoadSecp256r1 g h).1)
  ecpGroupFree : ∀ g h, (lib.ecpGroupFree g h).live = h.live \ lib.grpBlocks g
  mpiInit : ∀ h, Into h.live ∅ (lib.mpiInit lib.zeroedMpi h).2.live
    (lib.mpiBlocks (lib.mpiInit lib.zeroedMpi h).1)
  mpiReadBinary : ∀ x buf h, Into h.live (lib.mpiBlocks x) (lib.mpiReadBinary x buf h).2.live
    (lib.mpiBlocks (lib.mpiReadBinary x buf h).1)
  mpiFree : ∀ x h, (lib.mpiFree x h).live = h.live \ lib.mpiBlocks x
  ecdsaSign : ∀ o hash rng h, Into h.live (lib.owned o) (lib.ecdsaSign o hash rng h).2.live
    (lib.owned (lib.ecdsaSign o hash rng h).1.2)

/-! ## The function -/

/-- `dummy_rng`. -/
def dummyRng (len : ℕ) : Bytes := List.replicate len 0x55

/-- `sign_hash_unsafe_mbedtls` up to the result of `mbedtls_ecdsa_sign`. The results of the calls
before it are not looked at. -/
def signCall (signingKey hash : Bytes) (h : AllocHeap) : (ℤ × lib.Objects) × AllocHeap :=
  let (grp, h) := lib.ecpGroupInit lib.zeroedGrp h
  let (grp, h) := lib.ecpGroupLoadSecp256r1 grp h
  let (d, h) := lib.mpiInit lib.zeroedMpi h
  let (d, h) := lib.mpiReadBinary d signingKey h
  let (r, h) := lib.mpiInit lib.zeroedMpi h
  let (s, h) := lib.mpiInit lib.zeroedMpi h
  lib.ecdsaSign ⟨grp, r, s, d⟩ hash dummyRng h

/-- `sign_hash_unsafe_mbedtls`: its result, `signature_buf` and the heap after it. -/
def signHashUnsafeMbedtls (signingKey hash signatureBuf : Bytes) (h : AllocHeap) :
    (Except StatusCode ℕ × Bytes) × AllocHeap :=
  if hash.length ≠ 32 then ((.error .invalidArgument, signatureBuf), h)
  else if signatureBuf.length < 64 then ((.error .bufferTooSmall, signatureBuf), h)
  else
    let ((ret, o), h) := lib.signCall signingKey hash h
    if ret ≠ 0 then ((.error .genericError, signatureBuf), h)
    else
      let signatureBuf := copyAt signatureBuf 0 (lib.mpiWriteBinary o.r (signatureBuf.take 32))
      let signatureBuf := copyAt signatureBuf 32
        (lib.mpiWriteBinary o.s ((signatureBuf.take 64).drop 32))
      let h := lib.mpiFree o.r h
      let h := lib.mpiFree o.s h
      let h := lib.mpiFree o.d h
      let h := lib.ecpGroupFree o.grp h
      ((.ok 64, signatureBuf), h)

/-- The library refuses to sign while one of the four objects holds a live block. -/
def Leaves (signingKey hash signatureBuf : Bytes) (h : AllocHeap) : Prop :=
  hash.length = 32 ∧ 64 ≤ signatureBuf.length ∧
    let ((ret, o), h') := lib.signCall signingKey hash h
    ret ≠ 0 ∧ ¬ Disjoint h'.live (lib.owned o)

/-- Requests one after another. -/
def signRun (signingKey : Bytes) : List (Bytes × Bytes) → AllocHeap → AllocHeap
  | [], h => h
  | (hash, buf) :: requests, h =>
    signRun signingKey requests (lib.signHashUnsafeMbedtls signingKey hash buf h).2

/-- None of the requests leaves something. -/
def NoneLeaves (signingKey : Bytes) : List (Bytes × Bytes) → AllocHeap → Prop
  | [], _ => True
  | (hash, buf) :: requests, h => ¬ lib.Leaves signingKey hash buf h ∧
    NoneLeaves signingKey requests (lib.signHashUnsafeMbedtls signingKey hash buf h).2

/-! ## What is live afterwards -/

variable {lib}

/-- When the signature was tried, the four objects hold all that was allocated. -/
theorem Lawful.signCall (hl : lib.Lawful) (signingKey hash : Bytes) (h : AllocHeap) :
    Into h.live ∅ (lib.signCall signingKey hash h).2.live
      (lib.owned (lib.signCall signingKey hash h).1.2) := by
  have h₁ := hl.ecpGroupInit h
  have h₂ := h₁.trans (hl.ecpGroupLoad _ _)
  have h₃ := h₂.trans ((hl.mpiInit _).new _)
  have h₄ := h₃.trans ((hl.mpiReadBinary _ signingKey _).frame _)
  have h₅ := h₄.trans ((hl.mpiInit _).new _)
  have h₆ := h₅.trans ((hl.mpiInit _).new _)
  exact h₆.trans (hl.ecdsaSign ⟨_, _, _, _⟩ hash dummyRng _)

/-- **A request leaves the live blocks as they were, unless the library refuses to sign while an
object holds one.** -/
theorem Lawful.live_signHash_iff (hl : lib.Lawful) (signingKey hash signatureBuf : Bytes)
    (h : AllocHeap) :
    (lib.signHashUnsafeMbedtls signingKey hash signatureBuf h).2.live = h.live ↔
      ¬ lib.Leaves signingKey hash signatureBuf h := by
  rw [signHashUnsafeMbedtls, Leaves]
  by_cases hhash : hash.length = 32
  swap
  · rw [if_pos hhash]
    exact iff_of_true rfl fun hleaves => hhash hleaves.1
  rw [if_neg (not_not.mpr hhash), and_iff_right hhash]
  by_cases hbuf : signatureBuf.length < 64
  · rw [if_pos hbuf]
    exact iff_of_true rfl fun hleaves => absurd hleaves.1 (not_le.mpr hbuf)
  rw [if_neg hbuf, and_iff_right (not_lt.mp hbuf)]
  have hinto := hl.signCall signingKey hash h
  generalize lib.signCall signingKey hash h = x at hinto ⊢
  obtain ⟨⟨ret, o⟩, h'⟩ := x
  dsimp only at hinto ⊢
  by_cases hret : ret = 0
  · rw [if_neg (not_not.mpr hret)]
    refine iff_of_true ?_ fun hleaves => hleaves.1 hret
    dsimp only
    rw [hl.ecpGroupFree, hl.mpiFree, hl.mpiFree, hl.mpiFree]
    have hall := hinto.released
    rw [owned] at hall
    rw [← hall]
    ext b
    simp only [Set.mem_sdiff, Set.mem_union]
    tauto
  · rw [if_pos hret, and_iff_right hret, not_not]
    exact hinto.same_iff

/-- Requests of which none leaves something. -/
theorem Lawful.live_signRun (hl : lib.Lawful) (signingKey : Bytes) (requests : List (Bytes × Bytes))
    {h : AllocHeap} (hn : lib.NoneLeaves signingKey requests h) :
    (lib.signRun signingKey requests h).live = h.live := by
  induction requests generalizing h with
  | nil => rfl
  | cons request requests ih =>
    obtain ⟨hash, buf⟩ := request
    obtain ⟨hfirst, hrest⟩ := hn
    rw [signRun, ih hrest]
    exact (hl.live_signHash_iff signingKey hash buf h).mpr hfirst

/-- **A request leaves the live blocks as they were exactly if the library does not refuse to sign
while one of its objects holds a live block. After any requests for which that holds, the allocator
answers every call as before.** -/
theorem signHash_live_iff (hl : lib.Lawful) (signingKey : Bytes) :
    (∀ (hash signatureBuf : Bytes) (h : AllocHeap),
      (lib.signHashUnsafeMbedtls signingKey hash signatureBuf h).2.live = h.live ↔
        ¬ lib.Leaves signingKey hash signatureBuf h) ∧
    ∀ (requests : List (Bytes × Bytes)) (h : AllocHeap), lib.NoneLeaves signingKey requests h →
      (lib.signRun signingKey requests h).live = h.live ∧
      ∀ (heap : HeapStatic) (nobj size : Usize), (nobj * size + 7) &&& ~~~7#32 ≠ 0 →
        (calloc heap nobj size (lib.signRun signingKey requests h).1).1 =
          (calloc heap nobj size h.1).1 := by
  refine ⟨hl.live_signHash_iff signingKey, fun requests h hn => ?_⟩
  have hlive := hl.live_signRun signingKey requests hn
  exact ⟨hlive, fun heap nobj size hT =>
    calloc_congr (lib.signRun signingKey requests h).2 h.2 hlive hT⟩

end Mbedtls

/-! ## Numbers of eight limbs -/

namespace EightLimbs

/-- A number: where its limbs are, and its value. -/
structure Mpi where
  limbs : Usize
  value : ℕ

/-- `mbedtls_mpi_grow`. -/
def grow (x : Mpi) (h : AllocHeap) : Mpi × AllocHeap :=
  if x.limbs ≠ 0 then (x, h)
  else ({ x with limbs := (calloc sramHeap 8 4 h.1).1 },
    ⟨(calloc sramHeap 8 4 h.1).2, h.2.calloc sramHeap 8 4⟩)

/-- The order of the group. -/
def order : ℕ := 0xffffffff00000000ffffffffffffffffbce6faada7179e84f3b9cac2fc632551

/-- The group is made of constants. A key out of range is refused before anything is allocated. -/
def library : Mbedtls where
  Grp := Unit
  Mpi := Mpi
  zeroedGrp := ()
  zeroedMpi := ⟨0, 0⟩
  grpBlocks _ := ∅
  mpiBlocks x := ptrBlocks sramHeap x.limbs
  ecpGroupInit g h := (g, h)
  ecpGroupLoadSecp256r1 g h := (g, h)
  ecpGroupFree _ h := h
  mpiInit _ h := (⟨0, 0⟩, h)
  mpiReadBinary x buf h :=
    let (x, h) := grow x h
    ({ x with value := Cbor.ofBeBytes buf }, h)
  mpiWriteBinary x buf := Cbor.beBytes buf.length x.value
  mpiFree x h := ⟨free sramHeap x.limbs h.1, h.2.free x.limbs⟩
  ecdsaSign o _ _ h :=
    if o.d.value = 0 ∨ order ≤ o.d.value then ((-0x4C80, o), h)
    else
      let (r, h) := grow o.r h
      let (s, h) := grow o.s h
      ((0, { o with r, s }), h)

theorem into_grow (x : Mpi) (h : AllocHeap) :
    Into h.live (ptrBlocks sramHeap x.limbs) (grow x h).2.live
      (ptrBlocks sramHeap (grow x h).1.limbs) := by
  rw [grow]
  by_cases hx : x.limbs = 0
  · rw [if_neg (not_not.mpr hx), hx]
    exact (liveBlocks_calloc h.2 (by decide)).trans (liveBlocks_diff_null h.2).symm
  · rw [if_pos hx]
    exact Into.refl _ _

theorem lawful : library.Lawful where
  ecpGroupInit _ := Into.refl _ _
  ecpGroupLoad _ _ := Into.refl _ _
  ecpGroupFree _ _ := Set.sdiff_empty.symm
  mpiInit h := (liveBlocks_diff_null h.2).trans Set.sdiff_empty.symm
  mpiReadBinary x _ h := into_grow x h
  mpiFree x h := liveBlocks_free h.2 x.limbs
  ecdsaSign o hash rng h := by
    dsimp only [library, Mbedtls.owned]
    split_ifs
    · exact Into.refl _ _
    · have hr := (into_grow o.r h).frame (ptrBlocks sramHeap o.s.limbs ∪
        (ptrBlocks sramHeap o.d.limbs ∪ ∅))
      rw [Set.union_left_comm, Set.union_left_comm (ptrBlocks sramHeap (grow o.r h).1.limbs)] at hr
      exact hr.trans ((into_grow o.s _).frame _)

def freshHeap : AllocHeap := ⟨.initial fun _ => 0, ok_initial _⟩

def shortRequests : List (Bytes × Bytes) := [([], List.replicate 64 0), (List.replicate 32 0, [])]

/-- Requests with a short hash and with a short buffer leave nothing. -/
theorem signHash_live_iff_short :
    (library.signRun (List.replicate 32 1) shortRequests freshHeap).live = freshHeap.live := by
  have hnone : library.NoneLeaves (List.replicate 32 1) shortRequests freshHeap :=
    ⟨fun h => absurd h.1 (by decide), fun h => absurd h.2.1 (by decide), trivial⟩
  exact ((Mbedtls.signHash_live_iff lawful (List.replicate 32 1)).2 _ _ hnone).1

/-- With the key zero, the key is what is left behind. -/
theorem signCall_zero (hash : Bytes) (h : AllocHeap) :
    library.signCall (List.replicate 32 0) hash h =
      ((-0x4C80, ⟨(), ⟨0, 0⟩, ⟨0, 0⟩, ⟨(calloc sramHeap 8 4 h.1).1, 0⟩⟩),
        ⟨(calloc sramHeap 8 4 h.1).2, h.2.calloc sramHeap 8 4⟩) :=
  rfl

/-- A key of 32 zero bytes is refused, and one block stays live. -/
theorem signHash_leaves_key :
    (library.signHashUnsafeMbedtls (List.replicate 32 0) (List.replicate 32 0x11)
      (List.replicate 64 0) freshHeap).1.1 = .error .genericError ∧
    (library.signHashUnsafeMbedtls (List.replicate 32 0) (List.replicate 32 0x11)
      (List.replicate 64 0) freshHeap).2.live ≠ freshHeap.live := by
  have hptr : (calloc sramHeap 8 4 freshHeap.1).1 ≠ 0 :=
    calloc_initial_ne_zero _ (by decide) (by decide)
  have hblock := exists_block_of_calloc freshHeap.2 (by decide) hptr
  constructor
  · rw [Mbedtls.signHashUnsafeMbedtls, signCall_zero]
    rfl
  · rw [ne_eq, lawful.live_signHash_iff, not_not, Mbedtls.Leaves, signCall_zero]
    refine ⟨List.length_replicate, List.length_replicate.ge, by decide, fun hd => hblock ?_⟩
    exact hd.mono_right fun b hb => .inr (.inr (.inl hb))

end EightLimbs

end RuSpe
