import RuSpe.Spm.Accepted
import Mathlib.Order.CompletePartialOrder

set_option autoImplicit false

/-!
# Exactly the calls that are accepted

`call_from_slices` mixes counts, overlaps, address arithmetic and permissions. Its outcome is
characterised in both directions: which descriptors it accepts, and every word of the connection it
makes of them.

* `byteRange`, `Clear`, `validateInvecPayloadNonoverlap_eq_ok_iff`: the overlap check as a relation;
* `VecAllowed`, `acceptVecs_isOk_iff`: when the loop over the descriptors goes through;
* `Acceptable`, `Describes`: the condition of a call, and its connection;
* **`callFromSlices_eq_ok_iff`**: the call is accepted with exactly this connection.
-/

namespace RuSpe

/-! ## The overlap check -/

/-- The addresses of `len` bytes from `base` on. -/
def byteRange (base len : Usize) : Set ℕ := Set.Ico base.toNat (base.toNat + len.toNat)

theorem checkedAdd_eq_some {a b c : Usize} (h : checkedAdd a b = some c) :
    a.toNat + b.toNat < 2 ^ 32 ∧ c.toNat = a.toNat + b.toNat := by
  unfold checkedAdd at h
  split_ifs at h with hlt
  obtain rfl := Option.some.inj h
  exact ⟨hlt, by rw [BitVec.toNat_add, Nat.mod_eq_of_lt hlt]⟩

theorem checkedAdd_eq_none_iff {a b : Usize} :
    checkedAdd a b = none ↔ ¬ a.toNat + b.toNat < 2 ^ 32 := by
  unfold checkedAdd
  split_ifs with h
  · exact iff_of_false nofun (not_not.mpr h)
  · exact iff_of_true rfl h

/-- Neither vector wraps, and neither starts inside the other. -/
def Clear (a b : FFInVec) : Prop :=
  a.base.toNat + a.len.toNat < 2 ^ 32 ∧ b.base.toNat + b.len.toNat < 2 ^ 32 ∧
    ¬ (b.base.toNat < a.base.toNat + a.len.toNat ∧ a.base.toNat < b.base.toNat + b.len.toNat)

theorem Clear.disjoint {a b : FFInVec} (h : Clear a b) :
    Disjoint (byteRange a.base a.len) (byteRange b.base b.len) := by
  obtain ⟨-, -, h⟩ := h
  rw [byteRange, byteRange, Set.Ico_disjoint_Ico]
  omega

/-- For vectors that have bytes the check is exact. -/
theorem clear_of_disjoint {a b : FFInVec} (ha : a.base.toNat + a.len.toNat < 2 ^ 32)
    (hb : b.base.toNat + b.len.toNat < 2 ^ 32) (ha0 : a.len ≠ 0) (hb0 : b.len ≠ 0)
    (h : Disjoint (byteRange a.base a.len) (byteRange b.base b.len)) : Clear a b := by
  rw [byteRange, byteRange, Set.Ico_disjoint_Ico] at h
  refine ⟨ha, hb, ?_⟩
  have ha0 : a.len.toNat ≠ 0 := fun h0 => ha0 (BitVec.eq_of_toNat_eq h0)
  have hb0 : b.len.toNat ≠ 0 := fun h0 => hb0 (BitVec.eq_of_toNat_eq h0)
  omega

theorem nonoverlapWith_eq_ok_iff {a : FFInVec} {leftEnd : Usize}
    (h : checkedAdd a.base a.len = some leftEnd) (l : List FFInVec) :
    nonoverlapWith a.base leftEnd l = .ok () ↔ ∀ b ∈ l, Clear a b := by
  obtain ⟨ha, hend⟩ := checkedAdd_eq_some h
  induction l with
  | nil => simp [nonoverlapWith]
  | cons b l ih =>
    rw [nonoverlapWith, List.forall_mem_cons]
    cases hb : checkedAdd b.base b.len with
    | none =>
      have hno : ¬ Clear a b := fun hc => checkedAdd_eq_none_iff.mp hb hc.2.1
      simp [hno]
    | some rightEnd =>
      obtain ⟨hlt, hre⟩ := checkedAdd_eq_some hb
      have hc : Clear a b ↔ ¬ (b.base < leftEnd ∧ a.base < rightEnd) := by
        rw [Clear, BitVec.lt_def, BitVec.lt_def, hend, hre]
        exact ⟨fun h => h.2.2, fun h => ⟨ha, hlt, h⟩⟩
      dsimp only
      split_ifs with ho
      · simp [hc, ho]
      · rw [ih]
        exact (and_iff_right (hc.mpr ho)).symm

/-- **The overlap check accepts exactly the lists whose vectors are pairwise clear.** -/
theorem validateInvecPayloadNonoverlap_eq_ok_iff (l : List FFInVec) :
    validateInvecPayloadNonoverlap l = .ok () ↔ l.Pairwise Clear := by
  induction l with
  | nil => simp [validateInvecPayloadNonoverlap]
  | cons a l ih =>
    rw [List.pairwise_cons]
    cases l with
    | nil => simp [validateInvecPayloadNonoverlap]
    | cons b l =>
      rw [validateInvecPayloadNonoverlap, ← ih]
      · cases ha : checkedAdd a.base a.len with
        | none =>
          have hno : ¬ Clear a b := fun hc => checkedAdd_eq_none_iff.mp ha hc.1
          simp [hno]
        | some leftEnd =>
          dsimp only
          rw [← nonoverlapWith_eq_ok_iff ha]
          cases nonoverlapWith a.base leftEnd (b :: l) with
          | error e => simp
          | ok u => simp
      · exact List.cons_ne_nil b l

/-! ## The loop over the descriptors -/

/-- What is asked of one vector. An empty one may lie anywhere. -/
def VecAllowed (perm : PermissionOracle) (caller : CallerAttributes) (isWrite : Bool)
    (base len : Usize) : Prop :=
  len ≠ 0 → base ≠ 0 ∧ base.toNat + len.toNat < 2 ^ 32 ∧ perm base len isWrite caller = true

variable {perm : PermissionOracle} {caller : CallerAttributes}

theorem validatePointerRange_eq_ok_iff {base len : Usize} :
    validatePointerRange base len = .ok () ↔
      (len ≠ 0 → base ≠ 0 ∧ base.toNat + len.toNat < 2 ^ 32) := by
  unfold validatePointerRange
  split_ifs with h0 hb hc
  · exact iff_of_true rfl fun h => absurd h0 h
  · exact iff_of_false nofun fun h => (h h0).1 hb
  · exact iff_of_false nofun fun h => checkedAdd_eq_none_iff.mp hc (h h0).2
  · exact iff_of_true rfl fun _ => ⟨hb, not_not.mp (checkedAdd_eq_none_iff.not.mp hc)⟩

theorem validateMemoryPermission_eq_ok_iff {base len : Usize} {o : Bool} :
    (validateMemoryPermission perm base len o caller).1 = .ok () ↔
      (len ≠ 0 → perm base len o caller = true) := by
  unfold validateMemoryPermission
  by_cases h0 : len = 0
  · rw [if_pos h0]
    exact iff_of_true rfl fun h => absurd h0 h
  · rw [if_neg h0]
    cases hp : perm base len o caller with
    | false => exact iff_of_false nofun fun h => Bool.false_ne_true (h h0)
    | true => exact iff_of_true rfl fun _ => rfl

theorem vecAllowed_iff {base len : Usize} {o : Bool} :
    VecAllowed perm caller o base len ↔ validatePointerRange base len = .ok () ∧
      (validateMemoryPermission perm base len o caller).1 = .ok () := by
  rw [validatePointerRange_eq_ok_iff, validateMemoryPermission_eq_ok_iff, VecAllowed]
  tauto

/-- A step that went through can be dropped. -/
theorem TouchM.fst_bind_of_ok {α β : Type} {m : TouchM α} {f : α → TouchM β} {a : α}
    (h : m.1 = .ok a) : (m >>= f).1 = (f a).1 := by
  obtain ⟨r, l⟩ := m
  obtain rfl : r = .ok a := h
  rfl

/-- **The loop goes through exactly when every vector is allowed.** -/
theorem acceptVecs_isOk_iff {o : Bool} (l : List (Usize × Usize)) (idx : ℕ) (c : Connection) :
    (∃ c', (acceptVecs perm caller o l idx c).1 = .ok c') ↔
      ∀ v ∈ l, VecAllowed perm caller o v.1 v.2 := by
  induction l generalizing idx c with
  | nil =>
    simp only [List.not_mem_nil, false_imp_iff, implies_true, iff_true]
    exact ⟨c, rfl⟩
  | cons d l ih =>
    obtain ⟨base, len⟩ := d
    rw [List.forall_mem_cons]
    constructor
    · rintro ⟨c', h⟩
      obtain ⟨⟨⟩, hr, h, -⟩ := TouchM.bind_eq_ok h
      obtain ⟨⟨⟩, hp, h, -⟩ := TouchM.bind_eq_ok h
      rw [vecAllowed_iff]
      exact ⟨⟨hr, hp⟩, (ih _ _).mp ⟨c', h⟩⟩
    · rintro ⟨hd, hl⟩
      rw [vecAllowed_iff] at hd
      obtain ⟨hr, hp⟩ := hd
      obtain ⟨c', h⟩ := (ih (idx + 1) (c.record ⟨o, idx⟩ base len)).mpr hl
      rw [acceptVecs]
      exact ⟨c', (TouchM.fst_bind_of_ok hr).trans ((TouchM.fst_bind_of_ok hp).trans h)⟩

/-! ## What the call records -/

/-- The condition under which a call is accepted. -/
structure Acceptable (perm : PermissionOracle) (ctrlParam : CtrlParam) (ins : List FFInVec)
    (outs : List FFOutVec) (caller : CallerAttributes) : Prop where
  msgType : 0 ≤ ctrlParam.unpackType
  total : ctrlParam.inLen + ctrlParam.outLen ≤ psaMaxIovec
  inLen : ins.length = ctrlParam.inLen
  outLen : outs.length = ctrlParam.outLen
  nonoverlap : validateInvecPayloadNonoverlap ins = .ok ()
  ins : ∀ v ∈ ins, VecAllowed perm caller false v.base v.len
  outs : ∀ v ∈ outs, VecAllowed perm caller true v.base v.len

/-- Every field of the connection of a call. -/
structure Describes (c : Connection) (handle : ServiceHandle) (msgType : ℤ)
    (caller : CallerAttributes) (ins : List FFInVec) (outs : List FFOutVec) : Prop where
  handle : c.msg.handle = handle
  msgType : c.msg.msgType = msgType
  caller : c.msg.caller = caller
  invecBase : ∀ i (h : i < psaMaxIovec), c.invecBase[i] = (ins[i]?).elim 0 FFInVec.base
  outvecBase : ∀ i (h : i < psaMaxIovec), c.outvecBase[i] = (outs[i]?).elim 0 FFOutVec.base
  inSize : ∀ i (h : i < psaMaxIovec),
    c.msg.inSize[i] = (ins[i]?).elim .none fun v => .some v.len
  outSize : ∀ i (h : i < psaMaxIovec),
    c.msg.outSize[i] = (outs[i]?).elim .none fun v => .some v.len
  /-- Read back, a size is `none` exactly where no vector was supplied. -/
  inSizeOption : ∀ i (h : i < psaMaxIovec), c.msg.inSize[i].asOption = ins[i]?.map FFInVec.len
  outSizeOption : ∀ i (h : i < psaMaxIovec), c.msg.outSize[i].asOption = outs[i]?.map FFOutVec.len
  invecAccessed : c.invecAccessed = Vector.replicate _ 0
  outvecWritten : c.outvecWritten = Vector.replicate _ 0
  invecMapped : c.invecMapped = Vector.replicate _ false
  invecUnmapped : c.invecUnmapped = Vector.replicate _ false
  outvecMapped : c.outvecMapped = Vector.replicate _ false
  outvecUnmapped : c.outvecUnmapped = Vector.replicate _ false

/-- The fields determine the connection. -/
theorem Describes.unique {c d : Connection} {handle : ServiceHandle} {msgType : ℤ}
    {ins : List FFInVec} {outs : List FFOutVec}
    (h : Describes c handle msgType caller ins outs)
    (h' : Describes d handle msgType caller ins outs) : c = d := by
  have hib : c.invecBase = d.invecBase :=
    Vector.ext fun i hi => (h.invecBase i hi).trans (h'.invecBase i hi).symm
  have hob : c.outvecBase = d.outvecBase :=
    Vector.ext fun i hi => (h.outvecBase i hi).trans (h'.outvecBase i hi).symm
  have his : c.msg.inSize = d.msg.inSize :=
    Vector.ext fun i hi => (h.inSize i hi).trans (h'.inSize i hi).symm
  have hos : c.msg.outSize = d.msg.outSize :=
    Vector.ext fun i hi => (h.outSize i hi).trans (h'.outSize i hi).symm
  have hh := h.handle.trans h'.handle.symm
  have ht := h.msgType.trans h'.msgType.symm
  have hc := h.caller.trans h'.caller.symm
  obtain ⟨⟨_, _, _, _, _⟩, _, _, _, _, _, _, _, _⟩ := c
  obtain ⟨⟨_, _, _, _, _⟩, _, _, _, _, _, _, _, _⟩ := d
  obtain rfl := h.invecAccessed
  obtain rfl := h.outvecWritten
  obtain rfl := h.invecMapped
  obtain rfl := h.invecUnmapped
  obtain rfl := h.outvecMapped
  obtain rfl := h.outvecUnmapped
  obtain rfl := h'.invecAccessed
  obtain rfl := h'.outvecWritten
  obtain rfl := h'.invecMapped
  obtain rfl := h'.invecUnmapped
  obtain rfl := h'.outvecMapped
  obtain rfl := h'.outvecUnmapped
  obtain rfl := hib
  obtain rfl := hob
  obtain rfl := his
  obtain rfl := hos
  obtain rfl := hh
  obtain rfl := ht
  obtain rfl := hc
  rfl

/-- An array of flags or counters that reads as its default everywhere. -/
theorem eq_replicate_of_getD {α : Type} {v : Vector α psaMaxIovec} {x : α}
    (h : ∀ i : ℕ, (v[i]?).getD x = x) : v = Vector.replicate _ x :=
  Vector.ext fun i hi => by
    have := h i
    rw [Vector.getElem?_eq_getElem hi, Option.getD_some] at this
    rw [this, Vector.getElem_replicate]

theorem MaybeUsize.eq_of_asOption {m : MaybeUsize} {r : Option Usize} (h : m.asOption = r) :
    m = r.elim .none .some := by
  obtain ⟨raw⟩ := m
  subst h
  simp only [asOption, isSome]
  by_cases hr : raw = usizeMax
  · subst hr
    rfl
  · simp [hr, MaybeUsize.some]

/-- The connection that comes out of the two loops. -/
theorem describes_of_vecs {handle : ServiceHandle} {t : ℤ} {ins : List FFInVec}
    {outs : List FFOutVec} {c₁ c : Connection} {l₁ l₂ : List Touch}
    (H₁ : VecsAccepted caller false (ins.map fun v => (v.base, v.len)) 0
      (.ofMsg (.new handle t caller)) c₁ l₁)
    (H₂ : VecsAccepted caller true (outs.map fun v => (v.base, v.len)) 0 c₁ c l₂) :
    Describes c handle t caller ins outs := by
  have hA := accepted_of_vecs (l := l₁ ++ l₂) H₁ H₂ (fun x hx => List.mem_append_left _ hx)
    fun x hx => List.mem_append_right _ hx
  have hbase0 : ∀ v : Vec, (Connection.ofMsg (.new handle t caller)).base v = 0 := fun v => by
    obtain ⟨o, i⟩ := v
    cases o <;> grind [Connection.base, Connection.ofMsg]
  have hin : ∀ i : ℕ, c.base ⟨false, i⟩ = (ins[i]?).elim 0 FFInVec.base := fun i => by
    by_cases hi : i < ins.length
    · rw [hA.baseIn i hi, List.getElem?_eq_getElem hi, Option.elim_some]
    · rw [(H₂.other ⟨false, i⟩ (.inl Bool.false_ne_true)).2,
        (H₁.other ⟨false, i⟩ (by right; right; simpa using hi)).2, hbase0,
        List.getElem?_eq_none (not_lt.mp hi), Option.elim_none]
  have hout : ∀ i : ℕ, c.base ⟨true, i⟩ = (outs[i]?).elim 0 FFOutVec.base := fun i => by
    by_cases hi : i < outs.length
    · rw [hA.baseOut i hi, List.getElem?_eq_getElem hi, Option.elim_some]
    · rw [(H₂.other ⟨true, i⟩ (by right; right; simpa using hi)).2,
        (H₁.other ⟨true, i⟩ (.inl Bool.true_eq_false.mp)).2, hbase0,
        List.getElem?_eq_none (not_lt.mp hi), Option.elim_none]
  have hsin : ∀ i (h : i < psaMaxIovec), c.msg.inSize[i].asOption = ins[i]?.map FFInVec.len :=
    fun i h => by
      have := hA.sizeIn i
      rwa [Connection.size, if_neg Bool.false_ne_true, Vector.getElem?_eq_getElem h,
        Option.bind_some] at this
  have hsout : ∀ i (h : i < psaMaxIovec), c.msg.outSize[i].asOption = outs[i]?.map FFOutVec.len :=
    fun i h => by
      have := hA.sizeOut i
      rwa [Connection.size, if_pos rfl, Vector.getElem?_eq_getElem h, Option.bind_some] at this
  have hf := hA.fresh
  refine ⟨hA.handle, hA.msgType, hA.callerAttr, fun i h => ?_, fun i h => ?_, fun i h => ?_,
    fun i h => ?_, hsin, hsout, eq_replicate_of_getD fun i => hf.used ⟨false, i⟩,
    eq_replicate_of_getD fun i => hf.used ⟨true, i⟩,
    eq_replicate_of_getD fun i => hf.mapped ⟨false, i⟩,
    eq_replicate_of_getD fun i => hf.unmapped ⟨false, i⟩,
    eq_replicate_of_getD fun i => hf.mapped ⟨true, i⟩,
    eq_replicate_of_getD fun i => hf.unmapped ⟨true, i⟩⟩
  · rw [← hin, Connection.base, if_neg Bool.false_ne_true, Vector.getElem?_eq_getElem h,
      Option.getD_some]
  · rw [← hout, Connection.base, if_pos rfl, Vector.getElem?_eq_getElem h, Option.getD_some]
  · rw [MaybeUsize.eq_of_asOption (hsin i h)]
    cases ins[i]? <;> rfl
  · rw [MaybeUsize.eq_of_asOption (hsout i h)]
    cases outs[i]? <;> rfl

/-! ## The call -/

/-- Without the upper half the vector counts are zero. -/
theorem CtrlParam.len_of_not_hasIovec {cp : CtrlParam} (h : cp.hasIovec = false) :
    cp.inLen = 0 ∧ cp.outLen = 0 := by
  have hz : cp.raw &&& ~~~0xFFFF#32 = 0#32 := by simpa [CtrlParam.hasIovec] using h
  have hraw : cp.raw = cp.raw &&& 0xFFFF#32 := by
    have h1 : (0xFFFF#32 ||| ~~~0xFFFF#32) = BitVec.allOnes 32 := by decide
    rw [← BitVec.or_zero (x := cp.raw &&& 0xFFFF#32), ← hz, ← BitVec.and_or_distrib_left, h1,
      BitVec.and_allOnes]
  have hlt : cp.raw.toNat ≤ 0xFFFF := by
    rw [hraw, BitVec.toNat_and]
    exact Nat.and_le_right
  have hmask : ∀ k : ℕ, 16 ≤ k → ((cp.raw >>> k) &&& 0x7).toNat = 0 := fun k hk => by
    have hshift : cp.raw >>> k = 0#32 := by
      apply BitVec.eq_of_toNat_eq
      rw [BitVec.toNat_ushiftRight, Nat.shiftRight_eq_div_pow]
      exact Nat.div_eq_of_lt ((Nat.lt_succ_of_le hlt).trans_le (Nat.pow_le_pow_right Nat.two_pos hk))
    rw [hshift, BitVec.zero_and]
    rfl
  exact ⟨hmask 24 (by decide), hmask 16 (by decide)⟩

theorem validateCallParams_eq_ok_iff {cp : CtrlParam} {t : ℤ} {i o : ℕ} :
    validateCallParams cp = .ok (t, i, o) ↔ t = cp.unpackType ∧ 0 ≤ t ∧ i = cp.inLen ∧
      o = cp.outLen ∧ i + o ≤ psaMaxIovec := by
  have hno := @CtrlParam.len_of_not_hasIovec cp
  unfold validateCallParams
  dsimp only
  by_cases ht : cp.unpackType < 0
  · rw [if_pos ht]
    refine iff_of_false nofun ?_
    rintro ⟨rfl, h0, -⟩
    omega
  rw [if_neg ht]
  cases hv : cp.hasIovec with
  | false =>
    obtain ⟨hi, ho⟩ := hno hv
    rw [hi, ho]
    simp only [Bool.not_false, if_true, Except.ok.injEq, Prod.mk.injEq]
    constructor
    · rintro ⟨rfl, rfl, rfl⟩
      exact ⟨rfl, not_lt.mp ht, rfl, rfl, by decide⟩
    · rintro ⟨rfl, -, rfl, rfl, -⟩
      exact ⟨rfl, rfl, rfl⟩
  | true =>
    simp only [Bool.not_true, Bool.false_eq_true, if_false]
    split_ifs with hle
    · simp only [Except.ok.injEq, Prod.mk.injEq]
      constructor
      · rintro ⟨rfl, rfl, rfl⟩
        exact ⟨rfl, not_lt.mp ht, rfl, rfl, hle⟩
      · rintro ⟨rfl, -, rfl, rfl, -⟩
        exact ⟨rfl, rfl, rfl⟩
    · refine iff_of_false nofun ?_
      rintro ⟨-, -, rfl, rfl, h⟩
      exact hle h
/-- The steps of a call that is accepted. -/
theorem callFromSlices_steps {handle : ServiceHandle} {cp : CtrlParam} {ins : List FFInVec}
    {outs outs' : List FFOutVec} {c : Connection} :
    (callFromSlices perm handle cp ins outs caller).1 = .ok (c, outs') ↔
      ∃ t c₁, validateCallParams cp = .ok (t, ins.length, outs.length) ∧
        validateInvecPayloadNonoverlap ins = .ok () ∧
        (acceptVecs perm caller false (ins.map fun v => (v.base, v.len)) 0
          (.ofMsg (.new handle t caller))).1 = .ok c₁ ∧
        (acceptVecs perm caller true (outs.map fun v => (v.base, v.len)) 0 c₁).1 = .ok c ∧
        outs' = outs := by
  constructor
  · intro h
    obtain ⟨⟨t, i, o⟩, hp, h, -⟩ := TouchM.bind_eq_ok h
    dsimp only at h
    by_cases hn : ins.length ≠ i ∨ outs.length ≠ o
    · rw [if_pos hn] at h
      cases h
    rw [if_neg hn] at h
    obtain ⟨rfl, rfl⟩ : ins.length = i ∧ outs.length = o := by simpa using hn
    obtain ⟨⟨⟩, hno, h, -⟩ := TouchM.bind_eq_ok h
    obtain ⟨c₁, h₁, h, -⟩ := TouchM.bind_eq_ok h
    rw [acceptInvecs_eq] at h₁
    rw [acceptOutvecs_eq] at h
    obtain ⟨c₂, h₂, h, -⟩ := TouchM.bind_eq_ok h
    obtain ⟨rfl, rfl⟩ : c₂ = c ∧ outs = outs' := by simpa using h
    exact ⟨t, c₁, hp, hno, h₁, h₂, rfl⟩
  · rintro ⟨t, c₁, hp, hno, h₁, h₂, rfl⟩
    refine (TouchM.fst_bind_of_ok hp).trans ?_
    dsimp only
    rw [if_neg (by simp)]
    refine (TouchM.fst_bind_of_ok hno).trans ?_
    rw [acceptInvecs_eq]
    refine (TouchM.fst_bind_of_ok h₁).trans ?_
    rw [acceptOutvecs_eq]
    exact TouchM.fst_bind_of_ok h₂

/-- **What acceptance says about the arguments**, and the connection. -/
theorem acceptable_of_ok {handle : ServiceHandle} {cp : CtrlParam} {ins : List FFInVec}
    {outs outs' : List FFOutVec} {c : Connection}
    (h : (callFromSlices perm handle cp ins outs caller).1 = .ok (c, outs')) :
    Acceptable perm cp ins outs caller ∧ outs' = outs ∧
      Describes c handle cp.unpackType caller ins outs := by
  rw [callFromSlices_steps] at h
  obtain ⟨t, c₁, hp, hno, h₁, h₂, rfl⟩ := h
  rw [validateCallParams_eq_ok_iff] at hp
  obtain ⟨rfl, ht, hi, ho, hle⟩ := hp
  have hin := (acceptVecs_isOk_iff _ _ _).mp ⟨c₁, h₁⟩
  have hout := (acceptVecs_isOk_iff _ _ _).mp ⟨c, h₂⟩
  rw [List.forall_mem_map] at hin hout
  exact ⟨⟨ht, by omega, hi, ho, hno, hin, hout⟩, rfl,
    describes_of_vecs (acceptVecs_ok (by simp; omega) h₁) (acceptVecs_ok (by simp; omega) h₂)⟩

theorem Acceptable.disjoint {cp : CtrlParam} {ins : List FFInVec} {outs : List FFOutVec}
    (h : Acceptable perm cp ins outs caller) :
    ins.Pairwise fun a b => Disjoint (byteRange a.base a.len) (byteRange b.base b.len) :=
  ((validateInvecPayloadNonoverlap_eq_ok_iff ins).mp h.nonoverlap).imp Clear.disjoint

/-- The length of a vector that is allowed is not the encoding of `none`. -/
theorem VecAllowed.ne_usizeMax {o : Bool} {base len : Usize}
    (h : VecAllowed perm caller o base len) : len ≠ usizeMax := by
  rw [vecAllowed_iff] at h
  exact ne_usizeMax_of_validatePointerRange h.1

variable (perm caller)

/-- **A call is accepted exactly when it is acceptable, and then with exactly the connection that
describes it.** The input vectors are then pairwise disjoint, and no length is the encoding of
`none`. -/
theorem callFromSlices_eq_ok_iff (handle : ServiceHandle) (cp : CtrlParam) (ins : List FFInVec)
    (outs outs' : List FFOutVec) (c : Connection) :
    (callFromSlices perm handle cp ins outs caller).1 = .ok (c, outs') ↔
      Acceptable perm cp ins outs caller ∧ outs' = outs ∧
        Describes c handle cp.unpackType caller ins outs ∧
        ins.Pairwise (fun a b => Disjoint (byteRange a.base a.len) (byteRange b.base b.len)) ∧
        (∀ v ∈ ins, v.len ≠ usizeMax) ∧ ∀ v ∈ outs, v.len ≠ usizeMax := by
  constructor
  · intro h
    obtain ⟨hA, ho, hd⟩ := acceptable_of_ok h
    exact ⟨hA, ho, hd, hA.disjoint, fun v hv => (hA.ins v hv).ne_usizeMax,
      fun v hv => (hA.outs v hv).ne_usizeMax⟩
  · rintro ⟨hA, rfl, hd, -⟩
    have hp : validateCallParams cp = .ok (cp.unpackType, ins.length, outs'.length) := by
      rw [validateCallParams_eq_ok_iff, hA.inLen, hA.outLen]
      exact ⟨rfl, hA.msgType, rfl, rfl, hA.total⟩
    have hle := (validateCallParams_ok hp).2
    obtain ⟨c₁, h₁⟩ := (acceptVecs_isOk_iff (o := false) (ins.map fun v => (v.base, v.len)) 0
      (.ofMsg (.new handle cp.unpackType caller))).mpr (List.forall_mem_map.mpr hA.ins)
    obtain ⟨c₂, h₂⟩ := (acceptVecs_isOk_iff (o := true) (outs'.map fun v => (v.base, v.len)) 0
      c₁).mpr (List.forall_mem_map.mpr hA.outs)
    have hd₂ := describes_of_vecs (acceptVecs_ok (by simp; omega) h₁)
      (acceptVecs_ok (by simp; omega) h₂)
    obtain rfl := hd.unique hd₂
    rw [callFromSlices_steps]
    exact ⟨_, c₁, hp, hA.nonoverlap, h₁, h₂, rfl⟩

end RuSpe
