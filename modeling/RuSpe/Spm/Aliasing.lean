import RuSpe.Spm.Grants

set_option autoImplicit false

/-!
# Slices that alias

The overlap check of `call_from_slices` looks at pairs of input vectors. A service that asks for an
input and an output vector at once gets a shared and a mutable slice, whatever the client passed.

* `SfnApi.Request.vecs`: all vectors of a request in one list;
* `NoAlias`: no closure is shown two slices that overlap, and no two output vectors do;
* `shownBoth_of_accept`: a service of the request can ask for any pair;
* **`noAlias_iff`**: nothing aliases exactly when the overlap check accepts all non-empty vectors of
  the request together.
-/

namespace RuSpe

/-! ## Ranges -/

theorem byteRange_eq_empty {base len : Usize} (h : len = 0) : byteRange base len = ∅ := by
  subst h
  simp [byteRange]

/-- Without wrapping, the check on the vectors that have bytes is the check for overlaps. -/
theorem pairwise_clear_filter_iff {l : List FFInVec}
    (h : ∀ v ∈ l, v.len ≠ 0 → v.base.toNat + v.len.toNat < 2 ^ 32) :
    (l.filter fun v => v.len ≠ 0).Pairwise Clear ↔
      l.Pairwise fun a b => Disjoint (byteRange a.base a.len) (byteRange b.base b.len) := by
  induction l with
  | nil => simp
  | cons a l ih =>
    rw [List.forall_mem_cons] at h
    rw [List.pairwise_cons, ← ih h.2]
    by_cases ha : a.len = 0
    · rw [List.filter_cons_of_neg (by simpa using ha)]
      refine (and_iff_right fun b _ => ?_).symm
      rw [byteRange_eq_empty ha]
      exact Set.empty_disjoint _
    · rw [List.filter_cons_of_pos (by simpa using ha), List.pairwise_cons]
      refine and_congr_left fun _ => ⟨fun hb b hm => ?_, fun hb b hm => ?_⟩
      · by_cases hb0 : b.len = 0
        · rw [byteRange_eq_empty hb0]
          exact Set.disjoint_empty _
        · exact (hb b (List.mem_filter.mpr ⟨hm, by simpa using hb0⟩)).disjoint
      · obtain ⟨hm, hb0⟩ := List.mem_filter.mp hm
        have hb0 : b.len ≠ 0 := by simpa using hb0
        exact clear_of_disjoint (h.1 ha) (h.2 b hm hb0) ha hb0 (hb b hm)

/-! ## The vectors of a request -/

namespace SfnApi.Request

variable (req : SfnApi.Request)

def ins : List FFInVec := req.mem.inVecs req.inVec req.ctrlParam.inLen

def outs : List FFOutVec := req.mem.outVecs req.outVec req.ctrlParam.outLen

/-- All vectors of the request. -/
def vecs : List FFInVec := req.ins ++ req.outs.map fun v => ⟨v.base, v.len⟩

/-- The overlap check over all vectors that have bytes. -/
def Separate : Prop :=
  validateInvecPayloadNonoverlap (req.vecs.filter fun v => v.len ≠ 0) = .ok ()

instance : Decidable req.Separate := inferInstanceAs (Decidable (_ = _))

end SfnApi.Request

theorem byteRange_ofRaw (base len : Usize) :
    byteRange (Slice.ofRaw base len).base (Slice.ofRaw base len).len = byteRange base len := by
  rw [Slice.ofRaw]
  split_ifs with h
  · rw [byteRange_eq_empty h, byteRange_eq_empty rfl]
  · rfl

/-- What is granted lies in a vector of the request. -/
theorem SfnApi.Request.Grants.subset {req : SfnApi.Request} {v : Vec} {slice : Slice}
    (h : req.Grants v slice) : byteRange slice.base slice.len = ∅ ∨
      ∃ w, req.vec v = some w ∧ byteRange slice.base slice.len ⊆ byteRange w.base w.len := by
  rcases h with h0 | ⟨w, hw, hb, hl, -⟩
  · exact .inl (byteRange_eq_empty h0)
  · refine .inr ⟨w, hw, ?_⟩
    rw [byteRange, byteRange, hb]
    exact Set.Ico_subset_Ico_right (Nat.add_le_add_left hl _)

/-- No closure of `access_invec_outvec` is shown two slices that overlap while the request is
served, in any run, and no two output vectors of the request overlap. -/
def NoAlias (req : SfnApi.Request) : Prop :=
  (∀ (version : ServiceHandle → Option (BitVec 32)) (s : Observed SpmFn),
    Point ⟨SpmFn.new version, []⟩ s → ∀ handle i j invec outvec l,
      Event.shownBoth handle i j invec outvec :: l <:+ s.log →
      (ledger l).calls.head? = some req →
        Disjoint (byteRange invec.base invec.len) (byteRange outvec.base outvec.len)) ∧
  req.outs.Pairwise fun v w => Disjoint (byteRange v.base v.len) (byteRange w.base w.len)

/-- The input vectors are separate from the output vectors, and these from each other. -/
def OutvecsApart (req : SfnApi.Request) : Prop :=
  (∀ v ∈ req.ins, ∀ w ∈ req.outs, Disjoint (byteRange v.base v.len) (byteRange w.base w.len)) ∧
  req.outs.Pairwise fun v w => Disjoint (byteRange v.base v.len) (byteRange w.base w.len)

variable {req : SfnApi.Request} {c : Connection} {outs : List FFOutVec}

theorem separate_iff (h : req.accept = .ok (c, outs)) : req.Separate ↔ OutvecsApart req := by
  obtain ⟨hA, -, -⟩ := acceptable_of_ok (callFromSlices_of_accept h)
  have hwrap : ∀ v ∈ req.vecs, v.len ≠ 0 → v.base.toNat + v.len.toNat < 2 ^ 32 := by
    intro v hv h0
    rcases List.mem_append.mp hv with hv | hv
    · exact (hA.ins v hv h0).2.1
    · obtain ⟨w, hw, rfl⟩ := List.mem_map.mp hv
      exact (hA.outs w hw h0).2.1
  rw [SfnApi.Request.Separate, validateInvecPayloadNonoverlap_eq_ok_iff,
    pairwise_clear_filter_iff hwrap, SfnApi.Request.vecs, List.pairwise_append, List.pairwise_map,
    OutvecsApart]
  constructor
  · rintro ⟨-, ho, hio⟩
    exact ⟨fun v hv w hw => hio v hv _ (List.mem_map_of_mem hw), ho⟩
  · rintro ⟨hio, ho⟩
    refine ⟨hA.disjoint, ho, fun v hv w hw => ?_⟩
    obtain ⟨e, he, rfl⟩ := List.mem_map.mp hw
    exact hio v hv e he

/-! ## What a service of the request is shown -/

/-- Only slices inside the vectors of the request are shown. -/
theorem noAlias_of_outvecsApart (h : OutvecsApart req) : NoAlias req := by
  refine ⟨fun version s hp handle i j invec outvec l hl hr => ?_, h.2⟩
  obtain ⟨⟨req₁, hr₁, -, hin⟩, req₂, hr₂, -, hout⟩ := (validated_of_point
    (Observed.inv_new (s := SpmFn.new version) rfl rfl) hp).1 _ l hl
  obtain rfl := Option.some.inj (hr.symm.trans hr₁)
  obtain rfl := Option.some.inj (hr.symm.trans hr₂)
  rcases hin.subset with h0 | ⟨v, hv, hsv⟩
  · rw [h0]
    exact Set.empty_disjoint _
  rcases hout.subset with h0 | ⟨w, hw, hsw⟩
  · rw [h0]
    exact Set.disjoint_empty _
  obtain ⟨d, hd, rfl⟩ := Option.map_eq_some_iff.mp hv
  obtain ⟨e, he, rfl⟩ := Option.map_eq_some_iff.mp hw
  exact (h.1 d (List.mem_of_getElem? hd) e (List.mem_of_getElem? he)).mono hsv hsw

section

variable {σ : Type} [SpmCall σ] [MpuUse σ] [GrantingSpm σ]

open LawfulConnStore (conns put)

theorem Observed.log_withActiveConnection {ρ : Type} {s : Observed σ} (h : Observed.Inv s)
    (ha : (conns s).Active) (f : Connection → Observed σ → ρ × Connection × Observed σ) :
    (withActiveConnection f s).2.log = (f (conns s).topSlot (put (conns s).lent s)).2.2.log := by
  rw [withActiveConnection, takeActive_eq h.free h.wf, if_pos ha]
  dsimp only
  rcases f (conns s).topSlot (put (conns s).lent s) with ⟨r, c, t⟩
  dsimp only
  have hlog : (restoreActive ((conns s).topConnection - 1) c t).2.log = t.log := by
    rw [restoreActive]
    simp only [ConnStore.tryLock]
    rcases ConnStore.tryLock (·.restoreActiveConnection ((conns s).topConnection - 1) c) t.spm with
      ⟨⟨⟩ | r, u⟩ <;> rfl
  rcases hr : restoreActive ((conns s).topConnection - 1) c t with ⟨e | ⟨⟩, u⟩ <;> rw [hr] at hlog <;>
    exact hlog

/-- A service that only asks for two vectors at once. -/
def askBoth (handle : ServiceHandle) (i j : BitVec 32) : Service :=
  .accessInvecOutvec handle i j (fun _ _ => .done ⟨.ok (), 0, 0⟩) fun _ => .done ⟨.ok (), 0, 0⟩

/-- On a fresh connection any two vectors can be asked for. -/
theorem withMappedInvecOutvec_of_fresh {ρ τ : Type} {c : Connection} (hf : c.Fresh)
    {i j : BitVec 32} (hi : i.toNat < psaMaxIovec) (hj : j.toNat < psaMaxIovec)
    (f : Slice → Slice → τ → (ρ × Usize) × τ) (t : τ) :
    (withMappedInvecOutvec c i j f t).2.2 =
      (f (.ofRaw (c.base ⟨false, i.toNat⟩) ((c.size ⟨false, i.toNat⟩).getD 0))
        (.ofRaw (c.base ⟨true, j.toNat⟩) ((c.size ⟨true, j.toNat⟩).getD 0)) t).2 := by
  have hpi : prepareInvec c i = _ := prepare_eq c false i
  have hpj : prepareOutvec (c.setMapped ⟨false, i.toNat⟩ true) j = _ :=
    prepare_eq (c.setMapped ⟨false, i.toNat⟩ true) true j
  rw [if_pos ⟨hi, hf.mapped _, hf.used _⟩] at hpi
  rw [if_pos ⟨hj, by simp [hf.mapped], by simp [hf.used]⟩] at hpj
  simp only [withMappedInvecOutvec, hpi, hpj, Connection.base_setMapped, Connection.size_setMapped]
  rcases f _ _ t with ⟨⟨r, n⟩, u⟩
  dsimp only
  rcases commitOutvecWrite _ _ _ n with ⟨e | ⟨⟩, c₃⟩
  · rfl
  dsimp only
  rcases markInvecUnmapped c₃ _ with ⟨e | ⟨⟩, c₄⟩ <;> rfl

theorem log_askBoth {s : Observed σ} {mh : ServiceHandle} (h : Observed.Inv s)
    (ha : (conns s).Active) (hf : (conns s).topSlot.Fresh)
    (hh : (conns s).topSlot.msg.handle = mh) (ht : 0 ≤ (conns s).topSlot.msg.msgType)
    {i j : BitVec 32} (hi : i.toNat < psaMaxIovec) (hj : j.toNat < psaMaxIovec) :
    (observe (askBoth mh i j) s).2.log =
      .shownBoth mh i.toNat j.toNat
        (.ofRaw ((conns s).topSlot.base ⟨false, i.toNat⟩)
          (((conns s).topSlot.size ⟨false, i.toNat⟩).getD 0))
        (.ofRaw ((conns s).topSlot.base ⟨true, j.toNat⟩)
          (((conns s).topSlot.size ⟨true, j.toNat⟩).getD 0)) :: s.log := by
  let f (a b : Slice) (s : Observed σ) : (Outcome × Usize) × Observed σ :=
    ((⟨.ok (), 0, 0⟩, 0), s.note (.shownBoth mh i.toNat j.toNat a b))
  let body (connection : Connection) (s : Observed σ) :
      Except StatusCode Outcome × Connection × Observed σ :=
    if connection.msg.handle ≠ mh then (.error .invalidHandle, connection, s)
    else if connection.msg.msgType < 0 then (.error .programmerError, connection, s)
    else withMappedInvecOutvec connection i j f s
  have hrun : (observe (askBoth mh i j) s).2.log = (withActiveConnection body s).2.log := by
    have hv : (withValidatedConnection mh (fun c => withMappedInvecOutvec c i j f) s).2 =
        (withActiveConnection body s).2 := by
      rw [withValidatedConnection]
      rcases withActiveConnection _ s with ⟨e | r, t⟩ <;> rfl
    exact congrArg Observed.log hv
  rw [hrun, Observed.log_withActiveConnection h ha]
  simp only [body]
  rw [if_neg (not_not.mpr hh), if_neg (not_lt.mpr ht), withMappedInvecOutvec_of_fresh hf hi hj]
  rfl

end

/-- An accepted request finds a new SPM ready. -/
theorem Point.accepted (version : ServiceHandle → Option (BitVec 32))
    (h : req.accept = .ok (c, outs)) :
    ∃ s : Observed SpmFn, Point ⟨SpmFn.new version, []⟩ s ∧
      LawfulConnStore.conns s = ConnectionArray.new.pushed c ∧
      s.log = [.entered c, .called req] :=
  ⟨⟨{ SpmFn.new version with connections := ⟨false, ConnectionArray.new.pushed c⟩ },
    [.entered c, .called req]⟩, .call .start req h rfl, rfl, rfl⟩

/-- **Each pair of vectors of an accepted request is shown to some service.** -/
theorem shownBoth_of_accept (h : req.accept = .ok (c, outs)) {v : FFInVec} (hv : v ∈ req.ins)
    {w : FFOutVec} (hw : w ∈ req.outs) :
    ∃ s : Observed SpmFn, Point ⟨SpmFn.new fun _ => none, []⟩ s ∧ ∃ handle i j l,
      Event.shownBoth handle i j (.ofRaw v.base v.len) (.ofRaw w.base w.len) :: l <:+ s.log ∧
        (ledger l).calls.head? = some req := by
  have hcall := callFromSlices_of_accept h
  obtain ⟨hA, -, hD⟩ := acceptable_of_ok hcall
  obtain ⟨t, hcp, -, hacc⟩ := callFromSlices_ok hcall
  obtain ⟨s, hp, hs, hl⟩ := Point.accepted (fun _ => none) h
  have hinv := hp.inv (Observed.inv_new (s := SpmFn.new fun _ => none) rfl rfl)
  have h4 : ConnectionArray.new.topConnection < maxConnections := by decide
  have hact : (LawfulConnStore.conns s).Active := hs ▸ ConnectionArray.active_pushed h4 c
  have htop : (LawfulConnStore.conns s).topSlot = c := hs ▸ ConnectionArray.topSlot_pushed h4 c
  obtain ⟨i, hi, rfl⟩ := List.getElem_of_mem hv
  obtain ⟨j, hj, rfl⟩ := List.getElem_of_mem hw
  have hle : req.ins.length + req.outs.length ≤ 4 := (validateCallParams_ok hcp).2
  have hti : (BitVec.ofNat 32 i).toNat = i := by rw [BitVec.toNat_ofNat]; omega
  have htj : (BitVec.ofNat 32 j).toNat = j := by rw [BitVec.toNat_ofNat]; omega
  have hlog := log_askBoth (i := BitVec.ofNat 32 i) (j := BitVec.ofNat 32 j) hinv hact
    (htop ▸ hacc.fresh) (htop ▸ hacc.handle) (by rw [htop, hD.msgType]; exact hA.msgType)
    (show _ < 4 by omega) (show _ < 4 by omega)
  have hbi : c.base ⟨false, i⟩ = req.ins[i].base := hacc.baseIn i hi
  have hbj : c.base ⟨true, j⟩ = req.outs[j].base := hacc.baseOut j hj
  have hsi : c.size ⟨false, i⟩ = req.ins[i]?.map FFInVec.len := hacc.sizeIn i
  have hsj : c.size ⟨true, j⟩ = req.outs[j]?.map FFOutVec.len := hacc.sizeOut j
  rw [hti, htj, htop, hbi, hbj, hsi, hsj, List.getElem?_eq_getElem hi,
    List.getElem?_eq_getElem hj] at hlog
  refine ⟨_, hp.work (askBoth req.handle (BitVec.ofNat 32 i) (BitVec.ofNat 32 j)), req.handle, i, j,
    s.log, ?_, ?_⟩
  · rw [hlog]
    exact List.suffix_refl _
  · rw [hl]
    rfl

/-- **Nothing aliases exactly when the overlap check, run over all vectors of the request that have
bytes, accepts them.** -/
theorem noAlias_iff (h : req.accept = .ok (c, outs)) : NoAlias req ↔ req.Separate := by
  rw [separate_iff h]
  constructor
  · rintro ⟨hshown, ho⟩
    refine ⟨fun v hv w hw => ?_, ho⟩
    obtain ⟨s, hp, handle, i, j, l, hl, hr⟩ := shownBoth_of_accept h hv hw
    have hd := hshown _ s hp handle i j _ _ l hl hr
    rwa [byteRange_ofRaw, byteRange_ofRaw] at hd
  · exact noAlias_of_outvecsApart

/-! ## Two requests -/

/-- A request of 16 bytes in and 16 bytes out, with the output at `0x2000_0000 + 16 * k`. -/
def inOutRequest (k : BitVec 8) : SfnApi.Request where
  mem a :=
    if a = 0x1003 ∨ a = 0x100B then 0x20
    else if a = 0x1004 ∨ a = 0x100C then 16
    else if a = 0x1008 then 16 * k
    else 0
  perm _ _ _ _ := true
  handle := .crypto
  ctrlParam := .new 1 1 false 1 false
  inVec := 0x1000
  outVec := 0x1008
  caller := .nsUnprivileged

/-- Buffers beside each other do not alias. -/
theorem noAlias_beside : NoAlias (inOutRequest 1) :=
  have ⟨_, _, h⟩ : ∃ c outs, (inOutRequest 1).accept = .ok (c, outs) := ⟨_, _, rfl⟩
  (noAlias_iff h).mpr (by decide)

/-- A request that passes one buffer twice is accepted, and its service is shown it twice. -/
theorem not_noAlias_inPlace :
    (∃ c outs, (inOutRequest 0).accept = .ok (c, outs)) ∧ ¬ NoAlias (inOutRequest 0) := by
  have h : ∃ c outs, (inOutRequest 0).accept = .ok (c, outs) := ⟨_, _, rfl⟩
  refine ⟨h, fun hn => ?_⟩
  obtain ⟨c, outs, h⟩ := h
  obtain ⟨s, hp, handle, i, j, l, hl, hr⟩ := shownBoth_of_accept h
    (v := ⟨0x20000000, 16⟩) (w := ⟨0x20000000, 16⟩) (by decide) (by decide)
  have hd := hn.1 _ s hp handle i j _ _ l hl hr
  have hmem : 0x20000000 ∈ byteRange 0x20000000 16 := by simp [byteRange]
  exact Set.disjoint_left.mp hd hmem hmem

end RuSpe
