import RuSpe.Psa.Types

set_option autoImplicit false

/-!
# Connections

One accepted call: the message, the vectors of the client and, per vector, how far the service
has come with it. The operations return the connection as they leave it, also on failure, because
the callers go on using it.

* `prepareVec`, `prepareInvec`, `prepareOutvec`: a service starts to use a vector;
* `markInvecUnmapped`, `commitOutvecWrite`: it is done with it;
* `Vec`: a vector by direction and index, with the views `mapped`, `unmapped`, `size`, `base`;
* **`prepare_eq`**, `markInvecUnmapped_eq`, `commitOutvecWrite_eq`: what each operation needs and
  what it does.
-/

namespace RuSpe

/-- `Connection`. -/
structure Connection where
  msg : PsaMsg
  invecBase : Vector Usize psaMaxIovec
  invecAccessed : Vector Usize psaMaxIovec
  invecMapped : Vector Bool psaMaxIovec
  invecUnmapped : Vector Bool psaMaxIovec
  outvecBase : Vector Usize psaMaxIovec
  outvecWritten : Vector Usize psaMaxIovec
  outvecMapped : Vector Bool psaMaxIovec
  outvecUnmapped : Vector Bool psaMaxIovec
  deriving DecidableEq, Repr

/-- The connection of a message without vectors. -/
def Connection.ofMsg (msg : PsaMsg) : Connection where
  msg := msg
  invecBase := Vector.replicate _ 0
  invecAccessed := Vector.replicate _ 0
  invecMapped := Vector.replicate _ false
  invecUnmapped := Vector.replicate _ false
  outvecBase := Vector.replicate _ 0
  outvecWritten := Vector.replicate _ 0
  outvecMapped := Vector.replicate _ false
  outvecUnmapped := Vector.replicate _ false

instance : Inhabited Connection := ⟨.ofMsg (.new .crypto 0 .secureUnprivileged)⟩

/-! ## Starting and finishing the use of a vector -/

/-- The body shared by `prepare_invec` and `prepare_outvec`, over the four arrays it reads. -/
def prepareVec (sizes : Vector MaybeUsize psaMaxIovec) (bases used : Vector Usize psaMaxIovec)
    (mapped : Vector Bool psaMaxIovec) (idx : BitVec 32) :
    Except StatusCode ((ℕ × Usize × Usize) × Vector Bool psaMaxIovec) :=
  let index := idx.toNat
  if index ≥ psaMaxIovec then .error .programmerError
  else
    let len := (sizes[index]?).elim 0 (·.unwrapOr 0)
    let isMapped := (mapped[index]?).getD true
    let isUsed := (used[index]?).elim true (· != 0)
    if isMapped || isUsed then .error .programmerError
    else
      match bases[index]? with
      | none => .error .programmerError
      | some base => .ok ((index, len, base), mapped.setIfInBounds index true)

/-- `prepare_invec`. -/
def prepareInvec (connection : Connection) (invecIdx : BitVec 32) :
    Except StatusCode (ℕ × Usize × Usize) × Connection :=
  match prepareVec connection.msg.inSize connection.invecBase connection.invecAccessed
      connection.invecMapped invecIdx with
  | .error e => (.error e, connection)
  | .ok (r, mapped) => (.ok r, { connection with invecMapped := mapped })

/-- `prepare_outvec`. -/
def prepareOutvec (connection : Connection) (outvecIdx : BitVec 32) :
    Except StatusCode (ℕ × Usize × Usize) × Connection :=
  match prepareVec connection.msg.outSize connection.outvecBase connection.outvecWritten
      connection.outvecMapped outvecIdx with
  | .error e => (.error e, connection)
  | .ok (r, mapped) => (.ok r, { connection with outvecMapped := mapped })

/-- `mark_invec_unmapped`. -/
def markInvecUnmapped (connection : Connection) (index : ℕ) :
    Except StatusCode Unit × Connection :=
  match connection.invecUnmapped[index]? with
  | none => (.error .programmerError, connection)
  | some slot =>
    if slot then (.error .programmerError, connection)
    else
      (.ok (), { connection with
        invecUnmapped := connection.invecUnmapped.setIfInBounds index true })

/-- `commit_outvec_write`. -/
def commitOutvecWrite (connection : Connection) (outIndex : ℕ) (outLen writtenLen : Usize) :
    Except StatusCode Unit × Connection :=
  match connection.outvecUnmapped[outIndex]? with
  | none => (.error .programmerError, connection)
  | some unmapped =>
    if unmapped || decide (writtenLen > outLen) then (.error .programmerError, connection)
    else
      (.ok (), { connection with
        outvecWritten := connection.outvecWritten.setIfInBounds outIndex writtenLen
        msg := { connection.msg with
          outSize := connection.msg.outSize.setIfInBounds outIndex (.some writtenLen) }
        outvecUnmapped := connection.outvecUnmapped.setIfInBounds outIndex true })

/-! ## One view for both directions -/

/-- A vector of a connection: its direction and its index. -/
structure Vec where
  isOutvec : Bool
  idx : ℕ
  deriving DecidableEq, Repr

namespace Connection

variable (c : Connection) (v : Vec)

/-- The service has started to use `v`. -/
def mapped : Bool := ((if v.isOutvec then c.outvecMapped else c.invecMapped)[v.idx]?).getD false

/-- The service has given `v` back. -/
def unmapped : Bool :=
  ((if v.isOutvec then c.outvecUnmapped else c.invecUnmapped)[v.idx]?).getD false

/-- The counter that blocks a second use of `v`: bytes accessed, or bytes written. -/
def used : Usize := ((if v.isOutvec then c.outvecWritten else c.invecAccessed)[v.idx]?).getD 0

/-- The size recorded for `v`; `none` where the client supplied no such vector. -/
def size : Option Usize :=
  ((if v.isOutvec then c.msg.outSize else c.msg.inSize)[v.idx]?).bind MaybeUsize.asOption

/-- The base address recorded for `v`. -/
def base : Usize := ((if v.isOutvec then c.outvecBase else c.invecBase)[v.idx]?).getD 0

/-- The service may touch the bytes of `v` now. -/
def Open : Prop := c.mapped v = true ∧ c.unmapped v = false

instance : Decidable (c.Open v) := inferInstanceAs (Decidable (_ ∧ _))

/-- Record that `v` is in use. -/
def setMapped (b : Bool) : Connection :=
  if v.isOutvec then { c with outvecMapped := c.outvecMapped.setIfInBounds v.idx b }
  else { c with invecMapped := c.invecMapped.setIfInBounds v.idx b }

/-- Record that `v` was given back. -/
def setUnmapped (b : Bool) : Connection :=
  if v.isOutvec then { c with outvecUnmapped := c.outvecUnmapped.setIfInBounds v.idx b }
  else { c with invecUnmapped := c.invecUnmapped.setIfInBounds v.idx b }

/-- Record `n` written bytes for output vector `i`. -/
def setWritten (i : ℕ) (n : Usize) : Connection :=
  { c with
    outvecWritten := c.outvecWritten.setIfInBounds i n
    msg := { c.msg with outSize := c.msg.outSize.setIfInBounds i (.some n) } }

/-- No vector has been used yet. -/
structure Fresh : Prop where
  mapped : ∀ v, c.mapped v = false
  unmapped : ∀ v, c.unmapped v = false
  used : ∀ v, c.used v = 0

end Connection

/-! ### What the updates do to the views -/

namespace Connection

variable (c : Connection) (v w : Vec) (b : Bool) (i : ℕ) (n : Usize)

@[simp] theorem mapped_setMapped :
    (c.setMapped v b).mapped w = if w = v ∧ v.idx < psaMaxIovec then b else c.mapped w := by
  obtain ⟨o, j⟩ := v
  obtain ⟨o', j'⟩ := w
  cases o <;> cases o' <;> grind [mapped, setMapped]

@[simp] theorem unmapped_setMapped : (c.setMapped v b).unmapped w = c.unmapped w := by
  unfold setMapped unmapped; split_ifs <;> rfl

@[simp] theorem used_setMapped : (c.setMapped v b).used w = c.used w := by
  unfold setMapped used; split_ifs <;> rfl

@[simp] theorem msg_setMapped : (c.setMapped v b).msg = c.msg := by
  unfold setMapped; split_ifs <;> rfl

@[simp] theorem size_setMapped : (c.setMapped v b).size w = c.size w := by
  simp only [size, msg_setMapped]

@[simp] theorem base_setMapped : (c.setMapped v b).base w = c.base w := by
  unfold setMapped base; split_ifs <;> rfl

@[simp] theorem mapped_setUnmapped : (c.setUnmapped v b).mapped w = c.mapped w := by
  unfold setUnmapped mapped; split_ifs <;> rfl

@[simp] theorem unmapped_setUnmapped :
    (c.setUnmapped v b).unmapped w = if w = v ∧ v.idx < psaMaxIovec then b else c.unmapped w := by
  obtain ⟨o, j⟩ := v
  obtain ⟨o', j'⟩ := w
  cases o <;> cases o' <;> grind [unmapped, setUnmapped]

@[simp] theorem used_setUnmapped : (c.setUnmapped v b).used w = c.used w := by
  unfold setUnmapped used; split_ifs <;> rfl

@[simp] theorem msg_setUnmapped : (c.setUnmapped v b).msg = c.msg := by
  unfold setUnmapped; split_ifs <;> rfl

@[simp] theorem size_setUnmapped : (c.setUnmapped v b).size w = c.size w := by
  simp only [size, msg_setUnmapped]

@[simp] theorem base_setUnmapped : (c.setUnmapped v b).base w = c.base w := by
  unfold setUnmapped base; split_ifs <;> rfl

@[simp] theorem mapped_setWritten : (c.setWritten i n).mapped w = c.mapped w := rfl

@[simp] theorem unmapped_setWritten : (c.setWritten i n).unmapped w = c.unmapped w := rfl

@[simp] theorem base_setWritten : (c.setWritten i n).base w = c.base w := rfl

@[simp] theorem handle_setWritten : (c.setWritten i n).msg.handle = c.msg.handle := rfl

@[simp] theorem msgType_setWritten : (c.setWritten i n).msg.msgType = c.msg.msgType := rfl

@[simp] theorem used_setWritten :
    (c.setWritten i n).used w = if w = ⟨true, i⟩ ∧ i < psaMaxIovec then n else c.used w := by
  obtain ⟨o, j⟩ := w
  cases o <;> grind [used, setWritten]

@[simp] theorem size_setWritten :
    (c.setWritten i n).size w =
      if w = ⟨true, i⟩ ∧ i < psaMaxIovec then (MaybeUsize.some n).asOption else c.size w := by
  obtain ⟨o, j⟩ := w
  cases o <;> grind [size, setWritten]

end Connection

/-! ### One equation for each operation -/

/-- Starting to use a vector in the direction asked for. -/
def prepare (c : Connection) (isOutvec : Bool) (idx : BitVec 32) :
    Except StatusCode (ℕ × Usize × Usize) × Connection :=
  if isOutvec then prepareOutvec c idx else prepareInvec c idx

/-- **A vector can be started exactly when it is in range, not in use and not counted as used.** -/
theorem prepare_eq (c : Connection) (o : Bool) (idx : BitVec 32) :
    prepare c o idx =
      if idx.toNat < psaMaxIovec ∧ c.mapped ⟨o, idx.toNat⟩ = false ∧ c.used ⟨o, idx.toNat⟩ = 0 then
        (.ok (idx.toNat, (c.size ⟨o, idx.toNat⟩).getD 0, c.base ⟨o, idx.toNat⟩),
          c.setMapped ⟨o, idx.toNat⟩ true)
      else (.error .programmerError, c) := by
  cases o <;>
    grind [prepare, prepareInvec, prepareOutvec, prepareVec, Connection.mapped, Connection.used,
      Connection.size, Connection.base, Connection.setMapped, MaybeUsize.unwrapOr_eq]

theorem markInvecUnmapped_eq (c : Connection) (i : ℕ) :
    markInvecUnmapped c i =
      if i < psaMaxIovec ∧ c.unmapped ⟨false, i⟩ = false then
        (.ok (), c.setUnmapped ⟨false, i⟩ true)
      else (.error .programmerError, c) := by
  grind [markInvecUnmapped, Connection.unmapped, Connection.setUnmapped]

theorem commitOutvecWrite_eq (c : Connection) (i : ℕ) (len n : Usize) :
    commitOutvecWrite c i len n =
      if i < psaMaxIovec ∧ c.unmapped ⟨true, i⟩ = false ∧ n ≤ len then
        (.ok (), (c.setWritten i n).setUnmapped ⟨true, i⟩ true)
      else (.error .programmerError, c) := by
  grind [commitOutvecWrite, Connection.unmapped, Connection.setUnmapped, Connection.setWritten]

/-! ## What the operations leave alone -/

namespace Connection

/-- `d` is the connection `c` after its service used some vectors: the same call, from the same
caller, with the same vectors. -/
structure SameCall (c d : Connection) : Prop where
  handle : d.msg.handle = c.msg.handle
  msgType : d.msg.msgType = c.msg.msgType
  caller : d.msg.caller = c.msg.caller
  inSize : d.msg.inSize = c.msg.inSize
  base : ∀ v, d.base v = c.base v

instance : Std.Refl SameCall where
  refl _ := ⟨rfl, rfl, rfl, rfl, fun _ => rfl⟩

instance : IsTrans Connection SameCall where
  trans _ _ _ h h' := ⟨h'.handle.trans h.handle, h'.msgType.trans h.msgType,
    h'.caller.trans h.caller, h'.inSize.trans h.inSize, fun v => (h'.base v).trans (h.base v)⟩

variable (c : Connection)

theorem sameCall_setMapped (v : Vec) (b : Bool) : c.SameCall (c.setMapped v b) :=
  ⟨by simp, by simp, by simp, by simp, by simp⟩

theorem sameCall_setUnmapped (v : Vec) (b : Bool) : c.SameCall (c.setUnmapped v b) :=
  ⟨by simp, by simp, by simp, by simp, by simp⟩

theorem sameCall_setWritten (i : ℕ) (n : Usize) : c.SameCall (c.setWritten i n) :=
  ⟨rfl, rfl, rfl, rfl, fun _ => rfl⟩

theorem sameCall_prepare (o : Bool) (idx : BitVec 32) : c.SameCall (prepare c o idx).2 := by
  rw [prepare_eq]
  split_ifs
  · exact c.sameCall_setMapped _ _
  · exact Std.Refl.refl c

theorem sameCall_markInvecUnmapped (i : ℕ) : c.SameCall (markInvecUnmapped c i).2 := by
  rw [markInvecUnmapped_eq]
  split_ifs
  · exact c.sameCall_setUnmapped ⟨false, i⟩ true
  · exact Std.Refl.refl c

theorem sameCall_commitOutvecWrite (i : ℕ) (len n : Usize) :
    c.SameCall (commitOutvecWrite c i len n).2 := by
  rw [commitOutvecWrite_eq]
  split_ifs
  · exact IsTrans.trans _ _ _ (c.sameCall_setWritten i n)
      (sameCall_setUnmapped (c.setWritten i n) ⟨true, i⟩ true)
  · exact Std.Refl.refl c

end Connection

end RuSpe
