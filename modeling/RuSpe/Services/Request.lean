import RuSpe.Spm.Accesses
import RuSpe.Spm.Delivery

set_option autoImplicit false

/-!
# A request to a service

Between the `psa_call` of a client and its return lie the SPM and the service. Where the call is
accepted and entered, what the service does on its connection is all that the client sees.

* `Serving`: an API of a service that was entered;
* `Answers`: what a service does on a connection; `SfnApi.Request.Reaches`: a request that gets there;
* `clientCallTo`, `restAfter`: the call of a client, and what surrounds the SPM then;
* **`request_served`**, **`callForLen_of_served`**: the client gets the answer of the service;
* `clientAt`: a client with its arrays in memory.
-/

namespace RuSpe

section

variable {σ τ : Type} [SpmCall σ]

/-- The call of a service with its message. -/
abbrev CallEntry (σ τ : Type) := PsaMsg → Hosted σ τ → Except StatusCode Unit × Hosted σ τ

variable (callEntry : CallEntry σ τ) (m : ClientMemory) (perm : PermissionOracle)
  (caller : CallerAttributes) (s : Hosted σ τ)

/-- `psa_call` of a client. The initialisation of the service does nothing. -/
def clientCallTo : PsaCall := fun handle ctrlParam ins outs =>
  let (r, outs, _) := SfnApi.call (m.request perm caller handle ctrlParam ins outs) id callEntry s
  (intoPsaStatus r, outs)

/-- What surrounds the SPM after a call with these arguments. -/
def restAfter (handle : ServiceHandle) (ctrlParam : CtrlParam) (ins : List Slice) (out : Slice) : τ :=
  (SfnApi.call (m.request perm caller handle ctrlParam (ins.map fun v => ⟨v.base, v.len⟩)
    [⟨out.base, out.len⟩]) id callEntry s).2.2.rest

end

/-- The call is accepted as `c`, and the service is entered. -/
def SfnApi.Request.Reaches {σ : Type} [SpmCall σ] (req : SfnApi.Request) (s : σ) (c : Connection) :
    Prop :=
  (∃ outs, (acceptCall req.mem req.perm req.handle req.ctrlParam req.inVec req.outVec
    req.caller).1 = .ok (c, outs)) ∧ ∃ b t, SpmCall.enter c s = (.ok b, t)

section

variable {σ τ : Type} [SpmCall σ] [LawfulSpm σ] {api : AccessApi (Hosted σ τ) τ}
  {callEntry : CallEntry σ τ} {c : Connection} {w w' : τ} {r : Except StatusCode Unit}

/-- An API that a service has when its call was entered, and whose surroundings are those of the
SPM. -/
structure Serving (api : AccessApi (Hosted σ τ) τ) : Prop where
  rest : ∀ {c w s}, api.At c w s → s.rest = w
  entered : ∀ {c s t b} (w : τ), Good s → SpmCall.enter c s = (.ok b, t) → api.At c w ⟨t, w⟩

theorem serving_sfnApi : Serving (sfnApi σ τ) :=
  ⟨fun h => h.2.2.2, fun w hs he => sfnApi_at_of_enter hs he w⟩

theorem serving_svcApi {n : ℕ} (others : τ → SvcStackFrame) (f : SfnCall (SpmIpc n)) :
    Serving (svcApi n τ others f) :=
  ⟨fun h => h.2.2, fun w hs he => svcApi_at_of_enter hs he others f w⟩

/-- On `c` with surroundings `w` the service returns `r` and leaves `w'`. -/
def Answers (api : AccessApi (Hosted σ τ) τ) (callEntry : CallEntry σ τ) (c : Connection) (w : τ)
    (r : Except StatusCode Unit) (w' : τ) : Prop :=
  ∀ s, api.At c w s → (callEntry c.msg s).1 = r ∧ ∃ c', api.At c' w' (callEntry c.msg s).2

/-- **A request that reaches the service has its answer.** -/
theorem request_served (hapi : Serving api) {req : SfnApi.Request} {s : σ} (hs : Good s)
    (h : req.Reaches s c) (hans : Answers api callEntry c w r w') :
    let x := SfnApi.call req id callEntry ⟨s, w⟩
    x.1 = r ∧ x.2.1 = req.outVecs ∧ x.2.2.rest = w' := by
  intro x
  obtain ⟨⟨outs, hacc⟩, b, t, henter⟩ := h
  obtain ⟨ty, i, o, hparams, rfl, hA⟩ := acceptCall_ok hacc
  obtain ⟨hstatus, c', hat⟩ := hans ⟨t, w⟩ (hapi.entered w hs henter)
  have hhosted : SpmCall.enter c (⟨s, w⟩ : Hosted σ τ) = (.ok b, ⟨t, w⟩) :=
    congrArg (fun x : _ × σ => (x.1, (⟨x.2, w⟩ : Hosted σ τ))) henter
  have hinit : (if b = true then id (⟨t, w⟩ : Hosted σ τ) else ⟨t, w⟩) = ⟨t, w⟩ := by
    rw [id, ite_self]
  have hrest := hapi.rest hat
  simp only [x]
  rw [SfnApi.call, hacc]
  dsimp only
  rw [SpmCall.call, hhosted]
  dsimp only
  rw [hinit]
  refine ⟨hstatus, ?_, hrest⟩
  rw [SfnApi.Request.outVecs, SfnApi.Request.ovecNum, hparams]

/-- The output vectors of a request are those of the client. -/
theorem ClientMemory.outVecs_request (m : ClientMemory) (perm : PermissionOracle)
    (caller : CallerAttributes) (handle : ServiceHandle) {cp : CtrlParam} {ty : ℤ}
    {ins : List FFInVec} {outs : List FFOutVec}
    (hcp : validateCallParams cp = .ok (ty, ins.length, outs.length)) :
    (m.request perm caller handle cp ins outs).outVecs = outs := by
  have hnum : (m.request perm caller handle cp ins outs).ovecNum = outs.length := by
    rw [SfnApi.Request.ovecNum, ClientMemory.request, hcp]
  rw [SfnApi.Request.outVecs, hnum]
  exact m.outVecs_mem ins outs (validateCallParams_ok hcp).2

omit [LawfulSpm σ] in
/-- The vectors of a request that reaches the service. -/
theorem accepted_of_reaches {m : ClientMemory} {perm : PermissionOracle} {caller : CallerAttributes}
    {handle : ServiceHandle} {cp : CtrlParam} {ty : ℤ} {ins : List FFInVec} {outs : List FFOutVec}
    {s : σ} (hcp : validateCallParams cp = .ok (ty, ins.length, outs.length))
    (h : (m.request perm caller handle cp ins outs).Reaches s c) :
    ∃ trace, Accepted handle ty caller ins outs c trace := by
  obtain ⟨⟨outs', hacc⟩, -⟩ := h
  obtain ⟨ty', i, o, hparams, rfl, hA⟩ := acceptCall_ok hacc
  obtain ⟨rfl, rfl, rfl⟩ : ty' = ty ∧ i = ins.length ∧ o = outs.length := by
    have heq := Except.ok.inj (hparams.symm.trans hcp)
    exact ⟨congrArg Prod.fst heq, congrArg (fun x => x.2.1) heq, congrArg (fun x => x.2.2) heq⟩
  have hle := (validateCallParams_ok hcp).2
  rw [ClientMemory.request, m.inVecs_mem ins outs hle, m.outVecs_mem ins outs hle] at hA
  exact ⟨_, hA⟩

/-- **A client function gets the answer of the service**, and the length of its own buffer. -/
theorem callForLen_of_served (hapi : Serving api) {m : ClientMemory} {perm : PermissionOracle}
    {caller : CallerAttributes} {handle : ServiceHandle} {cp : CtrlParam} {ty : ℤ} (ins : List Slice)
    {out : Slice} {s : σ} (hs : Good s) (hcp : validateCallParams cp = .ok (ty, ins.length, 1))
    (h : (m.request perm caller handle cp (ins.map fun v => ⟨v.base, v.len⟩)
      [⟨out.base, out.len⟩]).Reaches s c)
    (hans : Answers api callEntry c w r w') :
    (callForLen (clientCallTo callEntry m perm caller ⟨s, w⟩) handle cp ins out,
      restAfter callEntry m perm caller ⟨s, w⟩ handle cp ins out) =
      ((statusFromRaw (intoPsaStatus r)).map fun _ => out.len, w') := by
  obtain ⟨hstatus, houts, hrest⟩ := request_served hapi hs h hans
  have hcp' : validateCallParams cp =
      .ok (ty, (ins.map fun v => (⟨v.base, v.len⟩ : FFInVec)).length,
        [(⟨out.base, out.len⟩ : FFOutVec)].length) := by
    rw [hcp, List.length_map, List.length_singleton]
  rw [m.outVecs_request perm caller handle hcp'] at houts
  refine Prod.ext ?_ hrest
  have hcall : clientCallTo callEntry m perm caller ⟨s, w⟩ handle cp
      (ins.map fun v => ⟨v.base, v.len⟩) [⟨out.base, out.len⟩] =
      (intoPsaStatus r, [⟨out.base, out.len⟩]) :=
    Prod.ext (congrArg intoPsaStatus hstatus) houts
  rw [callForLen, hcall]
  dsimp only
  cases statusFromRaw (intoPsaStatus r) with
  | error e => rfl
  | ok u => rfl

end

/-! ## The slices of a service -/

section

variable {handle : ServiceHandle} {ty : ℤ} {caller : CallerAttributes} {c : Connection}
  {trace : List Touch} {ins : List FFInVec} {outs : List FFOutVec}

theorem Accepted.slice_in (h : Accepted handle ty caller ins outs c trace) {i : ℕ}
    (hi : i < ins.length) : c.slice ⟨false, i⟩ = .ofRaw ins[i].base ins[i].len := by
  rw [Connection.slice, h.sizeIn, h.baseIn i hi, List.getElem?_eq_getElem hi]
  rfl

theorem Accepted.slice_out (h : Accepted handle ty caller ins outs c trace) {i : ℕ}
    (hi : i < outs.length) : c.slice ⟨true, i⟩ = .ofRaw outs[i].base outs[i].len := by
  rw [Connection.slice, h.sizeOut, h.baseOut i hi, List.getElem?_eq_getElem hi]
  rfl

theorem len_ofRaw (base len : Usize) : (Slice.ofRaw base len).len = len := by
  rw [Slice.ofRaw]
  split_ifs with h
  · exact h.symm
  · rfl

open ByteMemory (Mem)

/-- An empty vector has no bytes, wherever it is. -/
theorem read_ofRaw (w : Mem 32) (base len : Usize) :
    w.read (Slice.ofRaw base len).base (Slice.ofRaw base len).len.toNat =
      w.read base len.toNat := by
  rw [Slice.ofRaw]
  split_ifs with h
  · rw [h]
    rfl
  · rfl

/-- Bytes that are written to a vector of their length. -/
theorem write_ofRaw (w : Mem 32) (base len : Usize) {bytes : List UInt8}
    (h : bytes.length = len.toNat) :
    w.write (Slice.ofRaw base len).base bytes = w.write base bytes := by
  rw [Slice.ofRaw]
  split_ifs with hlen
  · obtain rfl : bytes = [] := List.length_eq_zero_iff.mp (by rw [h, hlen]; rfl)
    rfl
  · rfl

end

/-! ## A client -/

/-- Byte `off` of an array of words. -/
def wordsByte (words : List Usize) (off : ℕ) : BitVec 8 :=
  ((words[off / 4]?).getD 0).extractLsb' (8 * (off % 4)) 8

/-- Two arrays of descriptors, one behind the other. -/
def descriptorArrays (p : Usize) (ins : List FFInVec) (outs : List FFOutVec) : Memory := fun a =>
  if (a - p).toNat < 32 then wordsByte (ins.flatMap fun v => [v.base, v.len]) (a - p).toNat
  else wordsByte (outs.flatMap fun v => [v.base, v.len]) (a - (p + 32)).toNat

theorem getElem?_flatMap_pair {α β : Type} (f g : α → β) (l : List α) (i : ℕ) :
    (l.flatMap fun x => [f x, g x])[2 * i]? = l[i]?.map f ∧
      (l.flatMap fun x => [f x, g x])[2 * i + 1]? = l[i]?.map g := by
  induction l generalizing i with
  | nil => exact ⟨rfl, rfl⟩
  | cons x l ih =>
    cases i with
    | zero => exact ⟨rfl, rfl⟩
    | succ i => exact ih i

theorem bytes_of_word (x : Usize) :
    x.extractLsb' 24 8 ++ x.extractLsb' 16 8 ++ x.extractLsb' 8 8 ++ x.extractLsb' 0 8 = x := by
  apply BitVec.eq_of_getLsbD_eq
  intro i hi
  simp only [BitVec.getLsbD_append, BitVec.getLsbD_extractLsb']
  grind

/-- The word at an offset that is a multiple of four. -/
theorem word_of_wordsByte {mem : Memory} {p : Usize} {words : List Usize} {j : ℕ} (hj : j < 8)
    (h : ∀ off < 32, mem (p + BitVec.ofNat 32 off) = wordsByte words off) :
    mem.word (p + BitVec.ofNat 32 (4 * j)) = (words[j]?).getD 0 := by
  have hbyte (k : ℕ) (hk : k < 4) : mem (p + BitVec.ofNat 32 (4 * j) + BitVec.ofNat 32 k) =
      ((words[j]?).getD 0).extractLsb' (8 * k) 8 := by
    have hadd : p + BitVec.ofNat 32 (4 * j) + BitVec.ofNat 32 k =
        p + BitVec.ofNat 32 (4 * j + k) := by
      rw [BitVec.add_assoc, ← BitVec.ofNat_add]
    rw [hadd, h _ (by omega), wordsByte, show (4 * j + k) / 4 = j by omega,
      show (4 * j + k) % 4 = k by omega]
  have h0 := hbyte 0 (by decide)
  rw [show BitVec.ofNat 32 0 = 0#32 from rfl, BitVec.add_zero] at h0
  rw [Memory.word, h0, show (3 : Usize) = BitVec.ofNat 32 3 from rfl, hbyte 3 (by decide),
    show (2 : Usize) = BitVec.ofNat 32 2 from rfl, hbyte 2 (by decide),
    show (1 : Usize) = BitVec.ofNat 32 1 from rfl, hbyte 1 (by decide)]
  exact bytes_of_word _

/-- Descriptors are read back from the words of an array. -/
theorem descriptors_of_wordsByte {mem : Memory} {p : Usize} {α : Type} {f g : α → Usize}
    {l : List α} (hl : l.length ≤ 4)
    (h : ∀ off < 32, mem (p + BitVec.ofNat 32 off) =
      wordsByte (l.flatMap fun x => [f x, g x]) off) {i : ℕ} (hi : i < l.length) :
    mem.word (descriptorAddr p i) = f l[i] ∧ mem.word (descriptorAddr p i + 4) = g l[i] := by
  obtain ⟨hf, hg⟩ := getElem?_flatMap_pair f g l i
  rw [List.getElem?_eq_getElem hi] at hf hg
  have hbase : descriptorAddr p i = p + BitVec.ofNat 32 (4 * (2 * i)) := by
    rw [descriptorAddr, descriptorSize, show 8 * i = 4 * (2 * i) by omega]
  have hlen : descriptorAddr p i + 4 = p + BitVec.ofNat 32 (4 * (2 * i + 1)) := by
    rw [hbase, BitVec.add_assoc, show (4 : Usize) = BitVec.ofNat 32 4 from rfl, ← BitVec.ofNat_add]
    rfl
  constructor
  · rw [hbase, word_of_wordsByte (by omega) h, hf]
    rfl
  · rw [hlen, word_of_wordsByte (by omega) h, hg]
    rfl

theorem inVecs_descriptorArrays (p : Usize) (ins : List FFInVec) (outs : List FFOutVec)
    (h : ins.length ≤ 4) : (descriptorArrays p ins outs).inVecs p ins.length = ins := by
  have hmem (off : ℕ) (hoff : off < 32) : descriptorArrays p ins outs (p + BitVec.ofNat 32 off) =
      wordsByte (ins.flatMap fun v => [v.base, v.len]) off := by
    have hsub : (p + BitVec.ofNat 32 off - p).toNat = off := by
      rw [BitVec.add_comm, BitVec.add_sub_cancel, BitVec.toNat_ofNat, Nat.mod_eq_of_lt (by omega)]
    rw [descriptorArrays, hsub, if_pos hoff]
  apply List.ext_getElem
  · rw [Memory.inVecs, List.length_map, List.length_range]
  · intro i hi hi'
    obtain ⟨hbase, hlen⟩ := descriptors_of_wordsByte h hmem hi'
    simp only [Memory.inVecs, List.getElem_map, List.getElem_range, hbase, hlen]

theorem outVecs_descriptorArrays (p : Usize) (ins : List FFInVec) (outs : List FFOutVec)
    (h : outs.length ≤ 4) :
    (descriptorArrays p ins outs).outVecs (p + 32) outs.length = outs := by
  have hmem (off : ℕ) (hoff : off < 32) :
      descriptorArrays p ins outs (p + 32 + BitVec.ofNat 32 off) =
        wordsByte (outs.flatMap fun v => [v.base, v.len]) off := by
    have hsub : (p + 32 + BitVec.ofNat 32 off - (p + 32)).toNat = off := by
      rw [BitVec.add_comm, BitVec.add_sub_cancel, BitVec.toNat_ofNat, Nat.mod_eq_of_lt (by omega)]
    have hbehind : ¬ (p + 32 + BitVec.ofNat 32 off - p).toNat < 32 := by
      have hsum : p + 32 + BitVec.ofNat 32 off - p = BitVec.ofNat 32 (32 + off) := by
        rw [BitVec.add_assoc, BitVec.add_comm, BitVec.add_sub_cancel, BitVec.ofNat_add]
        rfl
      rw [hsum, BitVec.toNat_ofNat, Nat.mod_eq_of_lt (by omega)]
      omega
    rw [descriptorArrays, if_neg hbehind, hsub]
  apply List.ext_getElem
  · rw [Memory.outVecs, List.length_map, List.length_range]
  · intro i hi hi'
    obtain ⟨hbase, hlen⟩ := descriptors_of_wordsByte h hmem hi'
    simp only [Memory.outVecs, List.getElem_map, List.getElem_range, hbase, hlen]

/-- A client with its arrays at `p`. -/
def clientAt (p : Usize) : ClientMemory where
  inVec := p
  outVec := p + 32
  mem := descriptorArrays p
  inVecs_mem ins outs h := inVecs_descriptorArrays p ins outs (le_trans (Nat.le_add_right _ _) h)
  outVecs_mem ins outs h := outVecs_descriptorArrays p ins outs (le_trans (Nat.le_add_left _ _) h)

/-- A request that is accepted reaches a service of a fresh SPM. -/
theorem SfnApi.Request.reaches_new {req : SfnApi.Request} (v : ServiceHandle → Option (BitVec 32))
    (h : (acceptCall req.mem req.perm req.handle req.ctrlParam req.inVec req.outVec
      req.caller).1.toBool = true) : ∃ c, req.Reaches (SpmFn.new v) c := by
  cases hacc : (acceptCall req.mem req.perm req.handle req.ctrlParam req.inVec req.outVec
    req.caller).1 with
  | error e =>
    rw [hacc] at h
    cases h
  | ok x => exact ⟨x.1, ⟨x.2, hacc⟩, false, _, rfl⟩

end RuSpe
