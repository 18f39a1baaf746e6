import RuSpe.Spm.Accept

set_option autoImplicit false

/-!
# What an accepted call looks like

The two loops of `callFromSlices` are one loop with a direction. From its invariant comes what
every caller relies on: which sizes and bases the connection records, that nothing has been used
yet, and that every payload range was checked.

* `Connection.record`, `acceptVecs`, `acceptInvecs_eq`, `acceptOutvecs_eq`;
* **`acceptVecs_ok`**: the invariant of the loop;
* `Accepted`, **`acceptCall_ok`**: an accepted call, its connection and its trace.
-/

namespace RuSpe

instance : LawfulMonad TouchM := LawfulMonad.mk' _
  (fun m => by
    obtain ⟨r, l⟩ := m
    cases r with
    | error e => rfl
    | ok a => exact congrArg (Prod.mk _) (List.append_nil l))
  (fun _ _ => rfl)
  (fun m f g => by
    obtain ⟨r, l⟩ := m
    cases r with
    | error e => rfl
    | ok a =>
      rcases h : f a with ⟨r', l'⟩
      cases r' with
      | error e => simp only [bind, h]; rfl
      | ok b => simp only [bind, h]; rw [List.append_assoc])

/-! ## One loop for both directions -/

/-- Record the base and the size of a vector the client supplied. -/
def Connection.record (c : Connection) (v : Vec) (base len : Usize) : Connection :=
  if v.isOutvec then
    { c with
      outvecBase := c.outvecBase.setIfInBounds v.idx base
      outvecWritten := c.outvecWritten.setIfInBounds v.idx 0
      msg := { c.msg with outSize := c.msg.outSize.setIfInBounds v.idx (.some len) } }
  else
    { c with
      invecBase := c.invecBase.setIfInBounds v.idx base
      invecAccessed := c.invecAccessed.setIfInBounds v.idx 0
      msg := { c.msg with inSize := c.msg.inSize.setIfInBounds v.idx (.some len) } }

namespace Connection

variable (c : Connection) (v w : Vec) (base len : Usize)

@[simp] theorem mapped_record : (c.record v base len).mapped w = c.mapped w := by
  unfold record mapped; split_ifs <;> rfl

@[simp] theorem unmapped_record : (c.record v base len).unmapped w = c.unmapped w := by
  unfold record unmapped; split_ifs <;> rfl

@[simp] theorem handle_record : (c.record v base len).msg.handle = c.msg.handle := by
  unfold record; split_ifs <;> rfl

@[simp] theorem caller_record : (c.record v base len).msg.caller = c.msg.caller := by
  unfold record; split_ifs <;> rfl

@[simp] theorem msgType_record : (c.record v base len).msg.msgType = c.msg.msgType := by
  unfold record; split_ifs <;> rfl

theorem used_record : (c.record v base len).used w = 0 ∨
    (c.record v base len).used w = c.used w := by
  obtain ⟨o, j⟩ := v
  obtain ⟨o', j'⟩ := w
  cases o <;> cases o' <;> grind [used, record]

theorem base_record :
    (c.record v base len).base w = if w = v ∧ v.idx < psaMaxIovec then base else c.base w := by
  obtain ⟨o, j⟩ := v
  obtain ⟨o', j'⟩ := w
  cases o <;> cases o' <;> grind [Connection.base, record]

theorem size_record :
    (c.record v base len).size w =
      if w = v ∧ v.idx < psaMaxIovec then (MaybeUsize.some len).asOption else c.size w := by
  obtain ⟨o, j⟩ := v
  obtain ⟨o', j'⟩ := w
  cases o <;> cases o' <;> grind [size, record]

end Connection

/-- The body shared by the two loops of `call_from_slices`, over pairs of base and length. -/
def acceptVecs (perm : PermissionOracle) (caller : CallerAttributes) (isOutvec : Bool) :
    List (Usize × Usize) → ℕ → Connection → TouchM Connection
  | [], _, c => pure c
  | (base, len) :: rest, idx, c => do
    TouchM.lift (validatePointerRange base len)
    validateMemoryPermission perm base len isOutvec caller
    acceptVecs perm caller isOutvec rest (idx + 1) (c.record ⟨isOutvec, idx⟩ base len)

variable {perm : PermissionOracle} {caller : CallerAttributes}

theorem acceptInvecs_eq (l : List FFInVec) (idx : ℕ) (c : Connection) :
    acceptInvecs perm caller l idx c =
      acceptVecs perm caller false (l.map fun v => (v.base, v.len)) idx c := by
  induction l generalizing idx c with
  | nil => rfl
  | cons v l ih => simp only [acceptInvecs, List.map_cons, acceptVecs, ih]; rfl

/-- **The loop leaves the descriptors of the output vectors as it found them.** -/
theorem acceptOutvecs_eq (l : List FFOutVec) (idx : ℕ) (c : Connection) :
    acceptOutvecs perm caller l idx c =
      (do let c ← acceptVecs perm caller true (l.map fun v => (v.base, v.len)) idx c
          pure (c, l)) := by
  induction l generalizing idx c with
  | nil => rfl
  | cons v l ih =>
    simp only [acceptOutvecs, List.map_cons, acceptVecs, ih, bind_assoc, pure_bind]
    rfl

/-! ## The invariant of the loop -/

/-- The range was checked for `caller`, and granted. -/
def RangeChecked (caller : CallerAttributes) (trace : List Touch) (isWrite : Bool)
    (base len : Usize) : Prop :=
  base.toNat + len.toNat < 2 ^ 32 ∧ (len ≠ 0 → .check base len isWrite caller true ∈ trace)

theorem RangeChecked.mono {t t' : List Touch} {o : Bool} {base len : Usize}
    (h : RangeChecked caller t o base len) (ht : ∀ x ∈ t, x ∈ t') :
    RangeChecked caller t' o base len :=
  ⟨h.1, fun hl => ht _ (h.2 hl)⟩

theorem validateMemoryPermission_ok {base len : Usize} {o : Bool}
    (hr : validatePointerRange base len = .ok ())
    (h : (validateMemoryPermission perm base len o caller).1 = .ok ()) :
    RangeChecked caller (validateMemoryPermission perm base len o caller).2 o base len := by
  by_cases hl : len = 0
  · subst hl
    exact ⟨by simpa using base.isLt, fun h => absurd rfl h⟩
  · have hsum : base.toNat + len.toNat < 2 ^ 32 := by
      grind [validatePointerRange, checkedAdd]
    refine ⟨hsum, fun _ => ?_⟩
    rw [validateMemoryPermission, if_neg hl] at h ⊢
    cases hp : perm base len o caller with
    | false => rw [hp] at h; cases h
    | true => exact List.mem_singleton_self _

/-- What the loop over the descriptors `l` from index `idx` on has done to `c`. -/
structure VecsAccepted (caller : CallerAttributes) (isOutvec : Bool) (l : List (Usize × Usize))
    (idx : ℕ) (c c' : Connection) (trace : List Touch) : Prop where
  handle : c'.msg.handle = c.msg.handle
  msgType : c'.msg.msgType = c.msg.msgType
  callerAttr : c'.msg.caller = c.msg.caller
  mapped : ∀ v, c'.mapped v = c.mapped v
  unmapped : ∀ v, c'.unmapped v = c.unmapped v
  used : ∀ v, c'.used v = 0 ∨ c'.used v = c.used v
  other : ∀ v : Vec, v.isOutvec ≠ isOutvec ∨ v.idx < idx ∨ idx + l.length ≤ v.idx →
    c'.size v = c.size v ∧ c'.base v = c.base v
  size : ∀ j (h : j < l.length), c'.size ⟨isOutvec, idx + j⟩ = some l[j].2
  base : ∀ j (h : j < l.length), c'.base ⟨isOutvec, idx + j⟩ = l[j].1
  checked : ∀ v ∈ l, RangeChecked caller trace isOutvec v.1 v.2

/-- A length that ends below the end of the address space is not the encoding of `none`. -/
theorem ne_usizeMax_of_validatePointerRange {base len : Usize}
    (h : validatePointerRange base len = .ok ()) : len ≠ usizeMax := by
  rintro rfl
  have hz : usizeMax ≠ 0 := by decide
  have hm : usizeMax.toNat = 4294967295 := by simp [usizeMax]
  have hsum : base ≠ 0 → ¬ base.toNat + usizeMax.toNat < 2 ^ 32 := fun hb => by
    have h0 : base.toNat ≠ 0 := fun h0 => hb (BitVec.eq_of_toNat_eq h0)
    omega
  simp only [validatePointerRange, if_neg hz] at h
  split_ifs at h with hb hc
  exact hc (by rw [checkedAdd, if_neg (hsum hb)])

/-- **The invariant of the loop over the descriptors.** -/
theorem acceptVecs_ok {o : Bool} {l : List (Usize × Usize)} {idx : ℕ} {c c' : Connection}
    (hl : idx + l.length ≤ psaMaxIovec) (h : (acceptVecs perm caller o l idx c).1 = .ok c') :
    VecsAccepted caller o l idx c c' (acceptVecs perm caller o l idx c).2 := by
  induction l generalizing idx c with
  | nil =>
    obtain rfl : c = c' := Except.ok.inj h
    exact ⟨rfl, rfl, rfl, fun _ => rfl, fun _ => rfl, fun _ => .inr rfl, fun _ _ => ⟨rfl, rfl⟩,
      fun j h => absurd h (Nat.not_lt_zero j), fun j h => absurd h (Nat.not_lt_zero j),
      fun v h => absurd h List.not_mem_nil⟩
  | cons d l ih =>
    obtain ⟨base, len⟩ := d
    obtain ⟨⟨⟩, hr, h, ht⟩ := TouchM.bind_eq_ok h
    obtain ⟨⟨⟩, hp, h, ht'⟩ := TouchM.bind_eq_ok h
    have hlen : idx + 1 + l.length ≤ psaMaxIovec := by simpa [Nat.add_assoc, Nat.add_comm] using hl
    have hidx : idx < psaMaxIovec := by omega
    have ih := ih hlen h
    have htr : (acceptVecs perm caller o ((base, len) :: l) idx c).2 =
        (validateMemoryPermission perm base len o caller).2 ++
          (acceptVecs perm caller o l (idx + 1) (c.record ⟨o, idx⟩ base len)).2 := by
      rw [acceptVecs, ht, ht']; rfl
    rw [htr]
    have hsz : (c.record ⟨o, idx⟩ base len).size ⟨o, idx⟩ = some len := by
      rw [Connection.size_record, if_pos ⟨rfl, hidx⟩,
        MaybeUsize.asOption_some (ne_usizeMax_of_validatePointerRange hr)]
    have hbs : (c.record ⟨o, idx⟩ base len).base ⟨o, idx⟩ = base := by
      rw [Connection.base_record, if_pos ⟨rfl, hidx⟩]
    refine ⟨ih.handle.trans (c.handle_record _ _ _), ih.msgType.trans (c.msgType_record _ _ _),
      ih.callerAttr.trans (c.caller_record _ _ _),
      fun v => (ih.mapped v).trans (c.mapped_record _ _ _ _),
      fun v => (ih.unmapped v).trans (c.unmapped_record _ _ _ _), fun v => ?_, fun v hv => ?_,
      fun j hj => ?_, fun j hj => ?_, fun v hv => ?_⟩
    · rcases ih.used v with h0 | h0
      · exact .inl h0
      · rw [h0]; exact c.used_record _ _ _ _
    · have hv' : v ≠ ⟨o, idx⟩ := by rintro rfl; grind
      have := ih.other v (by grind)
      rw [this.1, this.2, Connection.size_record, Connection.base_record]
      simp [hv']
    · cases j with
      | zero => exact (ih.other ⟨o, idx⟩ (by simp)).1.trans hsz
      | succ j =>
        have := ih.size j (by simpa using hj)
        simpa [Nat.add_assoc, Nat.add_comm 1 j] using this
    · cases j with
      | zero => exact (ih.other ⟨o, idx⟩ (by simp)).2.trans hbs
      | succ j =>
        have := ih.base j (by simpa using hj)
        simpa [Nat.add_assoc, Nat.add_comm 1 j] using this
    · rcases List.mem_cons.mp hv with rfl | hv
      · exact (validateMemoryPermission_ok hr hp).mono fun x hx => List.mem_append_left _ hx
      · exact (ih.checked v hv).mono fun x hx => List.mem_append_right _ hx

/-! ## Accepted calls -/

/-- What a call accepted for the descriptors `ins` and `outs` has recorded and checked. -/
structure Accepted (handle : ServiceHandle) (msgType : ℤ) (caller : CallerAttributes)
    (ins : List FFInVec) (outs : List FFOutVec) (c : Connection) (trace : List Touch) : Prop where
  handle : c.msg.handle = handle
  msgType : c.msg.msgType = msgType
  callerAttr : c.msg.caller = caller
  fresh : c.Fresh
  sizeIn : ∀ i : ℕ, c.size ⟨false, i⟩ = ins[i]?.map FFInVec.len
  sizeOut : ∀ i : ℕ, c.size ⟨true, i⟩ = outs[i]?.map FFOutVec.len
  baseIn : ∀ (i : ℕ) (h : i < ins.length), c.base ⟨false, i⟩ = ins[i].base
  baseOut : ∀ (i : ℕ) (h : i < outs.length), c.base ⟨true, i⟩ = outs[i].base
  checked : ∀ v n, c.size v = some n → RangeChecked caller trace v.isOutvec (c.base v) n

theorem Connection.size_ofMsg_new (h : ServiceHandle) (t : ℤ) (a : CallerAttributes) (v : Vec) :
    (Connection.ofMsg (.new h t a)).size v = none := by
  obtain ⟨o, i⟩ := v
  cases o <;> grind [Connection.size, Connection.ofMsg, PsaMsg.new, MaybeUsize.asOption_none]

theorem Connection.fresh_ofMsg (m : PsaMsg) : (Connection.ofMsg m).Fresh where
  mapped v := by unfold Connection.mapped Connection.ofMsg; grind
  unmapped v := by unfold Connection.unmapped Connection.ofMsg; grind
  used v := by unfold Connection.used Connection.ofMsg; grind

theorem validateCallParams_ok {cp : CtrlParam} {t : ℤ} {i o : ℕ}
    (h : validateCallParams cp = .ok (t, i, o)) : 0 ≤ t ∧ i + o ≤ psaMaxIovec := by
  grind [validateCallParams]

variable {handle : ServiceHandle} {ctrlParam : CtrlParam}

/-- The two loops together. -/
theorem accepted_of_vecs {t : ℤ} {ins : List FFInVec} {outs : List FFOutVec} {c₁ c : Connection}
    {l₁ l₂ l : List Touch}
    (H₁ : VecsAccepted caller false (ins.map fun v => (v.base, v.len)) 0
      (.ofMsg (.new handle t caller)) c₁ l₁)
    (H₂ : VecsAccepted caller true (outs.map fun v => (v.base, v.len)) 0 c₁ c l₂)
    (h₁ : ∀ x ∈ l₁, x ∈ l) (h₂ : ∀ x ∈ l₂, x ∈ l) : Accepted handle t caller ins outs c l := by
  have hin : ∀ i : ℕ, c.size ⟨false, i⟩ = ins[i]?.map FFInVec.len := fun i => by
    rw [(H₂.other ⟨false, i⟩ (.inl Bool.false_ne_true)).1]
    by_cases hi : i < ins.length
    · simpa [hi] using H₁.size i (by simpa using hi)
    · rw [(H₁.other ⟨false, i⟩ (by right; right; simpa using hi)).1, Connection.size_ofMsg_new]
      simp [not_lt.mp hi]
  have hout : ∀ i : ℕ, c.size ⟨true, i⟩ = outs[i]?.map FFOutVec.len := fun i => by
    by_cases hi : i < outs.length
    · simpa [hi] using H₂.size i (by simpa using hi)
    · rw [(H₂.other ⟨true, i⟩ (by right; right; simpa using hi)).1,
        (H₁.other ⟨true, i⟩ (.inl Bool.true_eq_false.mp)).1, Connection.size_ofMsg_new]
      simp [not_lt.mp hi]
  have bin : ∀ (i : ℕ) (h : i < ins.length), c.base ⟨false, i⟩ = ins[i].base := fun i hi => by
    rw [(H₂.other ⟨false, i⟩ (.inl Bool.false_ne_true)).2]
    have := H₁.base i (by simpa using hi)
    rwa [List.getElem_map, Nat.zero_add] at this
  have bout : ∀ (i : ℕ) (h : i < outs.length), c.base ⟨true, i⟩ = outs[i].base := fun i hi => by
    have := H₂.base i (by simpa using hi)
    rwa [List.getElem_map, Nat.zero_add] at this
  have hf := Connection.fresh_ofMsg (.new handle t caller)
  refine ⟨H₂.handle.trans H₁.handle, H₂.msgType.trans H₁.msgType,
    H₂.callerAttr.trans H₁.callerAttr,
    ⟨fun v => (H₂.mapped v).trans ((H₁.mapped v).trans (hf.mapped v)),
      fun v => (H₂.unmapped v).trans ((H₁.unmapped v).trans (hf.unmapped v)), fun v => ?_⟩,
    hin, hout, bin, bout, fun v n hn => ?_⟩
  · rcases H₂.used v with h | h
    · exact h
    · rw [h]
      rcases H₁.used v with h | h
      · exact h
      · exact h.trans (hf.used v)
  · obtain ⟨o, i⟩ := v
    cases o with
    | false =>
      rw [hin, Option.map_eq_some_iff] at hn
      obtain ⟨d, hd, rfl⟩ := hn
      obtain ⟨hi, rfl⟩ := List.getElem?_eq_some_iff.mp hd
      rw [bin i hi]
      exact (H₁.checked _ (List.mem_map_of_mem (List.getElem_mem hi))).mono h₁
    | true =>
      rw [hout, Option.map_eq_some_iff] at hn
      obtain ⟨d, hd, rfl⟩ := hn
      obtain ⟨hi, rfl⟩ := List.getElem?_eq_some_iff.mp hd
      rw [bout i hi]
      exact (H₂.checked _ (List.mem_map_of_mem (List.getElem_mem hi))).mono h₂

/-- **What `call_from_slices` guarantees when it accepts.** -/
theorem callFromSlices_ok {ins : List FFInVec} {outs outs' : List FFOutVec} {c : Connection}
    (h : (callFromSlices perm handle ctrlParam ins outs caller).1 = .ok (c, outs')) :
    ∃ t, validateCallParams ctrlParam = .ok (t, ins.length, outs.length) ∧ outs' = outs ∧
      Accepted handle t caller ins outs c
        (callFromSlices perm handle ctrlParam ins outs caller).2 := by
  obtain ⟨⟨t, i, o⟩, hp, h, ht⟩ := TouchM.bind_eq_ok h
  rw [callFromSlices, ht]
  dsimp only at h ⊢
  by_cases hn : ins.length ≠ i ∨ outs.length ≠ o
  · rw [if_pos hn] at h
    cases h
  · rw [if_neg hn] at h ⊢
    obtain ⟨rfl, rfl⟩ : ins.length = i ∧ outs.length = o := by simpa using hn
    have hle := (validateCallParams_ok hp).2
    obtain ⟨⟨⟩, -, h, ht⟩ := TouchM.bind_eq_ok h
    rw [ht]
    obtain ⟨c₁, h₁, h, ht⟩ := TouchM.bind_eq_ok h
    rw [ht]
    rw [acceptOutvecs_eq] at h ⊢
    obtain ⟨c₂, h₂, h, ht⟩ := TouchM.bind_eq_ok h
    rw [ht]
    obtain ⟨rfl, rfl⟩ : c₂ = c ∧ outs = outs' := by simpa using h
    rw [acceptInvecs_eq] at h₁ ⊢
    have H₁ := acceptVecs_ok (by simp; omega) h₁
    have H₂ := acceptVecs_ok (by simp; omega) h₂
    exact ⟨t, hp, rfl, accepted_of_vecs H₁ H₂ (fun x hx => by simp [hx]) fun x hx => by simp [hx]⟩

/-- **What an accepted call guarantees.** -/
theorem acceptCall_ok {mem : Memory} {inVec outVec : Usize} {c : Connection}
    {outs : List FFOutVec}
    (h : (acceptCall mem perm handle ctrlParam inVec outVec caller).1 = .ok (c, outs)) :
    ∃ t i o, validateCallParams ctrlParam = .ok (t, i, o) ∧ outs = mem.outVecs outVec o ∧
      Accepted handle t caller (mem.inVecs inVec i) outs c
        (acceptCall mem perm handle ctrlParam inVec outVec caller).2 := by
  obtain ⟨⟨t, i, o⟩, hp, h, ht⟩ := TouchM.bind_eq_ok h
  rw [acceptCall, ht]
  obtain ⟨⟨⟩, -, h, ht⟩ := TouchM.bind_eq_ok h
  rw [ht]
  obtain ⟨⟨⟩, -, h, ht⟩ := TouchM.bind_eq_ok h
  rw [ht]
  obtain ⟨⟨⟩, -, h, ht⟩ := TouchM.bind_eq_ok h
  rw [ht]
  obtain ⟨t', hp', rfl, hA⟩ := callFromSlices_ok h
  obtain ⟨rfl, -⟩ : t = t' ∧ _ := by
    have := hp.symm.trans hp'
    simpa [TouchM.lift] using this
  refine ⟨t, i, o, hp, rfl, ?_⟩
  exact { hA with checked := fun v n hn => (hA.checked v n hn).mono fun x hx => by simp [hx] }

end RuSpe
