import RuSpe.Attest.TokenOutput
import RuSpe.Lib.ByteMemory
import RuSpe.Spm.FailedAccess

set_option autoImplicit false

/-!
# A token request through the SPM

The closure of the handler runs inside an access of both vectors, and the length that it reports is
checked when the output vector is given back.

* `AttestService.tokenClosureIn`: the closure on the memory of both vectors;
* `AttestService.handleGetTokenVia`: the handler, through either API;
* `Bookkeeping.Uses`, `run_of_fresh`: an access on a connection that was not used;
* **`token_or_zeros`**: what the closure leaves, that the commit takes it, and that its status is
  the one of the handler.
-/

namespace RuSpe

open Cbor (Bytes)
open ByteMemory (Mem)

/-! ## The handler -/

namespace AttestService

variable (self : AttestService) {σ : Type}

/-- The closure of `handle_get_token` on two slices of a memory. -/
def tokenClosureIn (claims : List AttestClaim) (challenge outvec : Slice) (w : Mem 32) :
    (Except StatusCode Unit × Usize) × Mem 32 :=
  let ((r, writtenLen), out) := self.tokenClosure (w.read challenge.base challenge.len.toNat) claims
    (w.read outvec.base outvec.len.toNat)
  ((r, BitVec.ofNat 32 writtenLen), w.write outvec.base out)

/-- `handle_get_token`. Both errors, of the access and of the closure, end it. -/
def handleGetTokenVia
    (accessInvecOutvec : Access (Mem 32) (Except StatusCode Unit) → σ →
      Except StatusCode (Except StatusCode Unit) × σ)
    (msgHandle : ServiceHandle) (s : σ) : Except StatusCode Unit × σ :=
  match PlatformBuffers.collect self.platform with
  | .error e => (.error e, s)
  | .ok claims =>
    match accessInvecOutvec (.invecOutvec msgHandle 0 0 (self.tokenClosureIn claims)) s with
    | (.error e, s) => (.error e, s)
    | (.ok r, s) => (r, s)

/-- What the closure does for the vectors of `c`. -/
def answer (claims : List AttestClaim) (c : Connection) (w : Mem 32) :
    (Except StatusCode Unit × ℕ) × Bytes :=
  self.tokenClosure (w.read (c.slice ⟨false, 0⟩).base (c.slice ⟨false, 0⟩).len.toNat) claims
    (w.read (c.slice ⟨true, 0⟩).base (c.slice ⟨true, 0⟩).len.toNat)

/-- The handler has ended with the status of the closure. The length that was reported is recorded,
and the output vector has the bytes that the closure left. -/
structure Served (service : AttestService) (claims : List AttestClaim) (c : Connection)
    (w : Mem 32) (status : Except StatusCode Unit) (c' : Connection) (w' : Mem 32) : Prop where
  status : status = (service.answer claims c w).1.1
  written : c'.size ⟨true, 0⟩ =
    (MaybeUsize.some (BitVec.ofNat 32 (service.answer claims c w).1.2)).asOption
  unmapped : c'.unmapped ⟨true, 0⟩ = true
  memory : w' = w.write (c.slice ⟨true, 0⟩).base (service.answer claims c w).2
  bytes : w'.read (c.slice ⟨true, 0⟩).base (c.slice ⟨true, 0⟩).len.toNat =
    (service.answer claims c w).2

end AttestService

/-! ## An access on an unused connection -/

/-- What a use does to the other flags and to the sizes. -/
structure Bookkeeping.Uses (k : Bookkeeping) : Prop extends k.Marks where
  unmapped_start : ∀ (v u : Vec) (c : Connection), c.unmapped u = false →
    (k.start v c).unmapped u = false
  unmapped_finish : ∀ (v u : Vec) (c : Connection),
    (k.finish v c).unmapped u = if u = v ∧ v.idx < psaMaxIovec then true else c.unmapped u
  size_start : ∀ (v u : Vec) (c : Connection), (k.start v c).size u = c.size u
  size_finish : ∀ (v u : Vec) (c : Connection), (k.finish v c).size u = c.size u
  base_start : ∀ (v u : Vec) (c : Connection), (k.start v c).base u = c.base u

theorem uses_sfnBookkeeping : sfnBookkeeping.Uses where
  toMarks := marks_sfnBookkeeping
  unmapped_start v u c h := (Connection.unmapped_setMapped c v u true).trans h
  unmapped_finish v u c := Connection.unmapped_setUnmapped c v u true
  size_start v u c := Connection.size_setMapped c v u true
  size_finish v u c := Connection.size_setUnmapped c v u true
  base_start v u c := Connection.base_setMapped c v u true

theorem uses_svcBookkeeping : svcBookkeeping.Uses where
  toMarks := marks_svcBookkeeping
  unmapped_start v u c h := by
    simp only [svcBookkeeping, Connection.unmapped_setUnmapped, Connection.unmapped_setMapped, h,
      ite_self]
  unmapped_finish v u c := by
    simp only [svcBookkeeping, Connection.unmapped_setUnmapped, Connection.unmapped_setMapped]
    split_ifs <;> rfl
  size_start v u c := by
    simp only [svcBookkeeping, Connection.size_setUnmapped, Connection.size_setMapped]
  size_finish v u c := by
    simp only [svcBookkeeping, Connection.size_setUnmapped, Connection.size_setMapped]
  base_start v u c := by
    simp only [svcBookkeeping, Connection.base_setUnmapped, Connection.base_setMapped]

section

variable {k : Bookkeeping} {c : Connection} {i o : BitVec 32} {τ ρ : Type}
  {g : Slice → Slice → τ → (ρ × Usize) × τ}

theorem Bookkeeping.Uses.slice_start (hk : k.Uses) (v u : Vec) (c : Connection) :
    (k.start v c).slice u = c.slice u := by
  rw [Connection.slice, Connection.slice, hk.base_start, hk.size_start]

/-- On a connection that was not used, the closure runs, and what it reports is committed if it fits
the vector. -/
theorem run_of_fresh (hk : k.Uses) (hc : c.Fresh) (hty : 0 ≤ c.msg.msgType)
    (hi : i.toNat < psaMaxIovec) (ho : o.toNat < psaMaxIovec) {w w' : τ} {r : ρ} {n : Usize}
    (hg : g (c.slice ⟨false, i.toNat⟩) (c.slice ⟨true, o.toNat⟩) w = ((r, n), w'))
    (hn : n ≤ (c.size ⟨true, o.toNat⟩).getD 0) :
    ∃ c', (Access.invecOutvec c.msg.handle i o g).run k c w = (.ok r, c', w') ∧
      c'.size ⟨true, o.toNat⟩ = (MaybeUsize.some n).asOption ∧
      c'.unmapped ⟨true, o.toNat⟩ = true := by
  have hne : (⟨true, o.toNat⟩ : Vec) ≠ ⟨false, i.toNat⟩ := nofun
  have hs : c.Startable ⟨false, i.toNat⟩ := ⟨hi, hc.mapped _, hc.used _⟩
  have hs' : (k.start ⟨false, i.toNat⟩ c).Startable ⟨true, o.toNat⟩ :=
    (hk.startable _ _ c hne).mpr ⟨ho, hc.mapped _, hc.used _⟩
  have hfree (v : Vec) :
      (k.start ⟨true, o.toNat⟩ (k.start ⟨false, i.toNat⟩ c)).unmapped v = false :=
    hk.unmapped_start _ _ _ (hk.unmapped_start _ _ _ (hc.unmapped v))
  have hcommit : (k.start ⟨true, o.toNat⟩ (k.start ⟨false, i.toNat⟩ c)).unmapped ⟨true, o.toNat⟩
      = false ∧ n ≤ ((k.start ⟨true, o.toNat⟩ (k.start ⟨false, i.toNat⟩ c)).size
        ⟨true, o.toNat⟩).getD 0 := by
    rw [hk.size_start, hk.size_start]
    exact ⟨hfree _, hn⟩
  rw [Access.run, validatedIn, Access.msgHandle, if_neg (not_not.mpr rfl),
    if_neg (not_lt.mpr hty), Access.body]
  dsimp only
  rw [if_pos hs, if_pos hs', hk.slice_start, hk.slice_start, hg]
  dsimp only
  rw [if_pos hcommit, if_pos]
  · refine ⟨_, rfl, ?_, ?_⟩
    · rw [hk.size_finish, hk.size_finish, Connection.size_setWritten, if_pos ⟨rfl, ho⟩]
    · rw [hk.unmapped_finish, if_neg fun h => hne h.1, hk.unmapped_finish, if_pos ⟨rfl, ho⟩]
  · rw [hk.unmapped_finish, if_neg fun h => hne h.1.symm, Connection.unmapped_setWritten]
    exact hfree _

end

/-! ## Both APIs -/

namespace AttestService

variable (self : AttestService) {c : Connection} {k : Bookkeeping}

/-- A slice of a connection has the size that is recorded. -/
theorem len_slice (c : Connection) (v : Vec) : (c.slice v).len = (c.size v).getD 0 := by
  rw [Connection.slice, Slice.ofRaw]
  split_ifs with h
  · exact h.symm
  · rfl

/-- The answer fits the output vector. -/
theorem answer_spec (claims : List AttestClaim) (c : Connection) (w : Mem 32) :
    (self.answer claims c w).1.2 ≤ (c.slice ⟨true, 0⟩).len.toNat ∧
      (self.answer claims c w).2.length = (c.slice ⟨true, 0⟩).len.toNat := by
  have h := self.tokenOrZeros_tokenClosure
    (w.read (c.slice ⟨false, 0⟩).base (c.slice ⟨false, 0⟩).len.toNat) claims
    (w.read (c.slice ⟨true, 0⟩).base (c.slice ⟨true, 0⟩).len.toNat)
  have hle := h.written_le
  have hlen := h.length_eq
  rw [ByteMemory.Mem.length_read] at hle hlen
  rw [answer]
  exact ⟨hle, hlen⟩

/-- The closure on the vectors of a connection. -/
theorem tokenClosureIn_slice (claims : List AttestClaim) (c : Connection) (w : Mem 32) :
    self.tokenClosureIn claims (c.slice ⟨false, 0⟩) (c.slice ⟨true, 0⟩) w =
      (((self.answer claims c w).1.1, BitVec.ofNat 32 (self.answer claims c w).1.2),
        w.write (c.slice ⟨true, 0⟩).base (self.answer claims c w).2) := by
  rw [tokenClosureIn, answer]

/-- What was left is read back. -/
theorem read_answer (claims : List AttestClaim) (c : Connection) (w : Mem 32) :
    (w.write (c.slice ⟨true, 0⟩).base (self.answer claims c w).2).read (c.slice ⟨true, 0⟩).base
      (c.slice ⟨true, 0⟩).len.toNat = (self.answer claims c w).2 := by
  have hlen := (self.answer_spec claims c w).2
  have hle : (self.answer claims c w).2.length ≤ 2 ^ 32 := by
    rw [hlen]
    exact (c.slice ⟨true, 0⟩).len.isLt.le
  rw [← hlen, w.read_write _ hle]

/-- The access of the handler, with either bookkeeping. -/
theorem run_tokenClosure (hk : k.Uses) (hc : c.Fresh) (hty : 0 ≤ c.msg.msgType)
    (claims : List AttestClaim) (w : Mem 32) :
    ∃ r c' w', (Access.invecOutvec c.msg.handle 0 0 (self.tokenClosureIn claims)).run k c w =
      (.ok r, c', w') ∧ self.Served claims c w r c' w' := by
  have hn : BitVec.ofNat 32 (self.answer claims c w).1.2 ≤ (c.size ⟨true, 0⟩).getD 0 := by
    rw [← len_slice, BitVec.le_def, BitVec.toNat_ofNat]
    exact (Nat.mod_le _ _).trans (self.answer_spec claims c w).1
  obtain ⟨c', hrun, hsize, hun⟩ := run_of_fresh hk hc hty (show (0 : BitVec 32).toNat < _ by decide)
    (show (0 : BitVec 32).toNat < _ by decide) (self.tokenClosureIn_slice claims c w) hn
  exact ⟨_, c', _, hrun, rfl, hsize, hun, rfl, self.read_answer claims c w⟩

section

variable {claims : List AttestClaim} (hcollect : PlatformBuffers.collect self.platform = .ok claims)
  (hc : c.Fresh) (hty : 0 ≤ c.msg.msgType) (w : Mem 32)

include hcollect hc hty

theorem served_sfn {s : SpmFn} (hs : Good s) (ha : s.connections.value.Active)
    (htop : s.connections.value.topSlot = c) :
    let x := self.handleGetTokenVia SfnApi.access c.msg.handle ⟨s, w⟩
    self.Served claims c w x.1 (connView x.2.spm) x.2.rest := by
  obtain ⟨r, c', w', hrun, hserved⟩ :=
    self.run_tokenClosure uses_sfnBookkeeping hc hty claims w
  have haccess := sfnAccess_eq hs ha
    (.invecOutvec c.msg.handle 0 0 (self.tokenClosureIn claims)) w
  rw [show (LawfulConnStore.conns s).topSlot = c from htop, hrun] at haccess
  rw [handleGetTokenVia, hcollect]
  dsimp only
  rw [haccess]
  have hview : connView (LawfulConnStore.put ((LawfulConnStore.conns s).filled c') s) = c' := by
    rw [connView, LawfulConnStore.conns_put]
    exact ConnectionArray.topSlot_filled hs.wf ha.1 c'
  dsimp only
  rw [hview]
  exact hserved

theorem served_svc {n p : ℕ} {t : SpmIpc n} (ht : OnTop p t) (htop : t.top = c)
    (others : Mem 32 → SvcStackFrame) (f : SfnCall (SpmIpc n)) :
    let x := self.handleGetTokenVia (SvcApi.access (Hosted.svcCall others f)) c.msg.handle ⟨t, w⟩
    self.Served claims c w x.1 x.2.spm.top x.2.rest := by
  obtain ⟨r, c', w', hrun, hserved⟩ :=
    self.run_tokenClosure uses_svcBookkeeping hc hty claims w
  have hends := svcAccess_eq others f ht
    (.invecOutvec c.msg.handle 0 0 (self.tokenClosureIn claims)) w
  rw [htop, hrun] at hends
  rw [handleGetTokenVia, hcollect]
  dsimp only
  rcases hx : SvcApi.access (Hosted.svcCall others f)
    (.invecOutvec c.msg.handle 0 0 (self.tokenClosureIn claims)) ⟨t, w⟩ with ⟨r', t', w''⟩
  rw [hx] at hends
  obtain ⟨-, hresult, hend, hrest⟩ := hends
  dsimp only at hresult hend hrest
  subst hresult hrest
  dsimp only
  rw [hend]
  exact hserved

end

/-- The length that the closure reports is never too long for the vector. -/
theorem commit_tokenClosure (challenge : Bytes) (claims : List AttestClaim) {outvec : Bytes}
    (hlen : outvec.length < 2 ^ 32) {c : Connection} (hc : c.unmapped ⟨true, 0⟩ = false) :
    (commitOutvecWrite c 0 (BitVec.ofNat 32 outvec.length)
      (BitVec.ofNat 32 (self.tokenClosure challenge claims outvec).1.2)).1 = .ok () := by
  have hle := (self.tokenOrZeros_tokenClosure challenge claims outvec).written_le
  rw [commitOutvecWrite_eq, if_pos]
  refine ⟨by decide, hc, ?_⟩
  rw [BitVec.le_def, BitVec.toNat_ofNat, BitVec.toNat_ofNat, Nat.mod_eq_of_lt (by omega),
    Nat.mod_eq_of_lt hlen]
  exact hle

/-- **The closure leaves a whole token and zeros behind it, or only zeros; the length that it
reports is always committed, and the status of the handler is the status of the closure.** -/
theorem token_or_zeros :
    (∀ (challenge : Bytes) (claims : List AttestClaim) (outvec : Bytes),
      self.TokenOrZeros (⟨.nonce, .bytes challenge⟩ :: claims) outvec.length
        (self.tokenClosure challenge claims outvec) ∧
      (self.tokenClosure challenge claims outvec).1.2 ≤ outvec.length ∧
      (outvec.length < 2 ^ 32 → ∀ c : Connection, c.unmapped ⟨true, 0⟩ = false →
        (commitOutvecWrite c 0 (BitVec.ofNat 32 outvec.length)
          (BitVec.ofNat 32 (self.tokenClosure challenge claims outvec).1.2)).1 = .ok ())) ∧
    (∀ (claims : List AttestClaim) (t : Bytes), self.minicbor.Preferred → self.minicbor.Reads →
      self.IsToken claims t →
      let signer := CoseSign1.new (PsaCryptoBackend.new self.client tempKeyId) {}
      ∃ signature, signer.Signs (claimMap claims).encode signature ∧
        t = (signer.message (claimMap claims).encode signature).encode) ∧
    ∀ {n : ℕ} (claims : List AttestClaim) (perm : PermissionOracle) (handle : ServiceHandle)
      (ctrlParam : CtrlParam) (ins : List FFInVec) (outs outs' : List FFOutVec)
      (caller : CallerAttributes) (c : Connection) (s₀ s : SpmFn) (t₀ t : SpmIpc n) (b b' : Bool)
      (others : Mem 32 → SvcStackFrame) (f : SfnCall (SpmIpc n)) (w : Mem 32),
      PlatformBuffers.collect self.platform = .ok claims →
      (callFromSlices perm handle ctrlParam ins outs caller).1 = .ok (c, outs') →
      Good s₀ → Good t₀ → SpmFn.enter c s₀ = (.ok b, s) → SpmIpc.enter c t₀ = (.ok b', t) →
      let x := self.handleGetTokenVia SfnApi.access c.msg.handle ⟨s, w⟩
      let y := self.handleGetTokenVia (SvcApi.access (Hosted.svcCall others f)) c.msg.handle ⟨t, w⟩
      self.Served claims c w x.1 (connView x.2.spm) x.2.rest ∧
        self.Served claims c w y.1 y.2.spm.top y.2.rest := by
  refine ⟨fun challenge claims outvec => ⟨?_, ?_, ?_⟩, fun claims t hm hr ht => ?_, ?_⟩
  · exact self.tokenOrZeros_tokenClosure challenge claims outvec
  · exact (self.tokenOrZeros_tokenClosure challenge claims outvec).written_le
  · exact fun hlen c hc => self.commit_tokenClosure challenge claims hlen hc
  · exact self.isToken_message hm hr ht
  · intro n claims perm handle ctrlParam ins outs outs' caller c s₀ s t₀ t b b' others f w hcollect
      hacc hs ht hes het
    obtain ⟨ty, hparams, -, hA⟩ := callFromSlices_ok hacc
    have hty : 0 ≤ c.msg.msgType := hA.msgType ▸ (validateCallParams_ok hparams).1
    obtain ⟨p, hp⟩ := paired_of_enter hA.fresh hs ht hes het
    obtain ⟨hfree, hlt, hconns⟩ := LawfulSpm.enter_ok hs.free hs.wf hes
    have hconns : s.connections.value = s₀.connections.value.pushed c := hconns
    have htop : s.connections.value.topSlot = c := by
      rw [hconns]
      exact ConnectionArray.topSlot_pushed hlt c
    exact ⟨self.served_sfn hcollect hA.fresh hty w hp.good hp.active htop,
      self.served_svc hcollect hA.fresh hty w hp.onTop (onTop_of_enter ht het).1 others f⟩

end AttestService

/-! ## A token of 249 bytes -/

namespace OneProcess

set_option maxRecDepth 4000

open EmptyPlatform (service)

/-- A challenge of 32 bytes, and room for 512 bytes. -/
def tokenAccept : Except StatusCode (Connection × List FFOutVec) :=
  (callFromSlices (fun _ _ _ _ => true) .crypto (.new 1001 1 true 1 true) [⟨0x28000000, 32⟩]
    [⟨0x28000100, 512⟩] .nsUnprivileged).1

def tokenConn : Connection := (tokenAccept.toOption.map Prod.fst).getD default

def fnToken : SpmFn := (SpmFn.enter tokenConn (.new fun _ => none)).2

def ipcToken : SpmIpc 1 := (SpmIpc.enter tokenConn spm).2

def claims : List AttestClaim := ((PlatformBuffers.collect service.platform).toOption).getD []

/-- The service gets its token through both APIs. -/
theorem token_or_zeros_served :
    (service.handleGetTokenVia SfnApi.access tokenConn.msg.handle ⟨fnToken, fun _ => 0x11⟩).1
      = .ok () ∧
    (service.handleGetTokenVia (SvcApi.access (Hosted.svcCall (fun _ => ⟨0, 0, 0, 0, 0, 0, 0, 0⟩)
      refuseCalls)) tokenConn.msg.handle ⟨ipcToken, fun _ => 0x11⟩).2.spm.top.size ⟨true, 0⟩
      = some 249 := by
  have hanswer : (service.answer claims tokenConn fun _ => 0x11).1 = (.ok (), 249) := by
    decide
  obtain ⟨hsfn, hsvc⟩ := service.token_or_zeros.2.2 claims (fun _ _ _ _ => true) .crypto
    (.new 1001 1 true 1 true) [⟨0x28000000, 32⟩] [⟨0x28000100, 512⟩] [⟨0x28000100, 512⟩]
    .nsUnprivileged tokenConn (.new fun _ => none) fnToken spm ipcToken false true
    (fun _ => ⟨0, 0, 0, 0, 0, 0, 0, 0⟩) refuseCalls (fun _ => 0x11) (by decide)
    (by decide) ⟨rfl, ConnectionArray.wf_new⟩ ⟨rfl, ConnectionArray.wf_new⟩
    (Prod.ext (by decide) rfl) (Prod.ext (by decide) rfl)
  refine ⟨hsfn.status.trans (congrArg Prod.fst hanswer), hsvc.written.trans ?_⟩
  rw [hanswer]
  rfl

end OneProcess

end RuSpe
