import RuSpe.Spm.Accesses

set_option autoImplicit false

/-!
# The attestation service over the SPM

The service gets its vectors from the SPM, in accesses whose lengths are checked. On a connection
that is fresh this is the service on the bytes of its vectors.

* `AttestService.handleGetTokenSizeVia`, `AttestService.callVia`: the service, through either API;
* `Reply.memory`, `Reply.committed`: what a reply does to the memory and to the connection;
* **`callVia_refines`**: through any API, the service does what `AttestService.call` says.
-/

namespace RuSpe

open Cbor (Bytes)
open ByteMemory (Mem)

namespace AttestService

/-! ## The handlers -/

variable (self : AttestService) {σ : Type}

/-- The closure that reads the size of the challenge. -/
def readSizeIn (buf : Slice) (w : Mem 32) : Except StatusCode ℕ × Mem 32 :=
  (readChallengeSize (w.read buf.base buf.len.toNat), w)

/-- The closure that writes the size of the token. -/
def writeSizeIn (tokenSize : ℕ) (outvec : Slice) (w : Mem 32) :
    (Except StatusCode Unit × Usize) × Mem 32 :=
  let tokenSizeBytes := toLeBytes sizeOfUsize tokenSize
  let buf := w.read outvec.base outvec.len.toNat
  if buf.length < tokenSizeBytes.length then
    ((.error .bufferTooSmall, 0), w.write outvec.base (zeros buf))
  else
    ((.ok (), BitVec.ofNat 32 tokenSizeBytes.length),
      w.write outvec.base (copyAt buf 0 tokenSizeBytes))

/-- What `handle_get_token_size` computes between its two accesses. -/
def tokenSizeOf (challengeSize : ℕ) : Except StatusCode ℕ := do
  let ((), bootSeed) ← collectWith self.platform.bootSeed
  self.initialAttestGetTokenSize challengeSize [⟨.bootSeed, .bytes bootSeed.toList⟩,
    ⟨.swComponents, .swComponents self.platform.swComponents⟩]

/-- `handle_get_token_size`. -/
def handleGetTokenSizeVia (api : AccessApi σ (Mem 32)) (msgHandle : ServiceHandle) (s : σ) :
    Except StatusCode Unit × σ :=
  match api.access (.invec msgHandle 0 readSizeIn) s with
  | (.error e, s) => (.error e, s)
  | (.ok (.error e), s) => (.error e, s)
  | (.ok (.ok challengeSize), s) =>
    match self.tokenSizeOf challengeSize with
    | .error e => (.error e, s)
    | .ok tokenSize => flattenAccess (api.access (.outvec msgHandle 0 (writeSizeIn tokenSize)) s)

/-- `Service::call`. -/
def callVia (api : AccessApi σ (Mem 32)) (msg : PsaMsg) (s : σ) : Except StatusCode Unit × σ :=
  if hasExactlyOneIovec msg = false then (.error .invalidArgument, s)
  else if msg.msgType = 1001 then self.handleGetTokenVia api.access msg.handle s
  else if msg.msgType = 1002 then self.handleGetTokenSizeVia api msg.handle s
  else (.error .notSupported, s)

/-! ## Replies -/

/-- The memory after a reply. -/
def Reply.memory (r : Reply) (outvec : Slice) (w : Mem 32) : Mem 32 :=
  r.outvec.elim w (w.write outvec.base)

/-- The length that is committed for the output vector. -/
def Reply.committed (r : Reply) : Option Usize := r.outvec.map fun _ => BitVec.ofNat 32 r.written

@[simp] theorem Reply.memory_some (r : Except StatusCode Unit) (buf : Bytes) (n : ℕ) (outvec : Slice)
    (w : Mem 32) : Reply.memory ⟨r, some buf, n⟩ outvec w = w.write outvec.base buf := rfl

@[simp] theorem Reply.committed_some (r : Except StatusCode Unit) (buf : Bytes) (n : ℕ) :
    Reply.committed ⟨r, some buf, n⟩ = some (BitVec.ofNat 32 n) := rfl

theorem commit_of_le {outvec : Bytes} {f : Bytes → (Except StatusCode Unit × ℕ) × Bytes}
    (h : (f outvec).1.2 ≤ outvec.length) :
    commit outvec f = ⟨(f outvec).1.1, some (f outvec).2, (f outvec).1.2⟩ := if_neg (not_lt.mpr h)

/-- The closure that writes the size, on bytes. -/
def writeSize (tokenSize : ℕ) (outvec : Bytes) : (Except StatusCode Unit × ℕ) × Bytes :=
  if outvec.length < sizeOfUsize then ((.error .bufferTooSmall, 0), zeros outvec)
  else ((.ok (), sizeOfUsize), copyAt outvec 0 (toLeBytes sizeOfUsize tokenSize))

theorem writeSize_le (tokenSize : ℕ) (outvec : Bytes) :
    (writeSize tokenSize outvec).1.2 ≤ outvec.length := by
  unfold writeSize
  split_ifs with h
  · exact Nat.zero_le _
  · exact not_lt.mp h

theorem writeSizeIn_eq (tokenSize : ℕ) (outvec : Slice) (w : Mem 32) :
    writeSizeIn tokenSize outvec w =
      let x := writeSize tokenSize (w.read outvec.base outvec.len.toNat)
      ((x.1.1, BitVec.ofNat 32 x.1.2), w.write outvec.base x.2) := by
  unfold writeSizeIn writeSize
  dsimp only
  rw [length_toLeBytes]
  split_ifs <;> rfl

theorem handleGetTokenSize_eq (buf outvec : Bytes) :
    self.handleGetTokenSize (.ok buf) (.ok outvec) =
      match readChallengeSize buf with
      | .error e => ⟨.error e, none, 0⟩
      | .ok challengeSize =>
        match self.tokenSizeOf challengeSize with
        | .error e => ⟨.error e, none, 0⟩
        | .ok tokenSize => commit outvec (writeSize tokenSize) := by
  have hfor : self.tokenSizeFor (.ok buf) = readChallengeSize buf >>= self.tokenSizeOf := rfl
  unfold handleGetTokenSize
  rw [hfor]
  cases readChallengeSize buf with
  | error e => rfl
  | ok challengeSize =>
    rw [ok_bind]
    dsimp only
    cases self.tokenSizeOf challengeSize with
    | error e => rfl
    | ok tokenSize =>
      dsimp only
      rw [length_toLeBytes]
      rfl

/-! ## On a fresh connection -/

section

variable {self} {c : Connection} (api : AccessApi σ (Mem 32)) (hc : c.Fresh)
  (hty : 0 ≤ c.msg.msgType) {w : Mem 32} {s : σ} (hs : api.At c w s)

/-- The result `x` of a request on `c` is that of the reply. -/
structure Follows (api : AccessApi σ (Mem 32)) (c : Connection) (w : Mem 32)
    (x : Except StatusCode Unit × σ) (r : Reply) : Prop where
  result : x.1 = r.result
  leaves : ∃ c', api.At c' (r.memory (c.slice ⟨true, 0⟩) w) x.2 ∧
    c'.size ⟨true, 0⟩ = r.committed.elim (c.size ⟨true, 0⟩) fun n => (MaybeUsize.some n).asOption

omit hc hty in
/-- A reply without accesses. -/
theorem follows_error (hs : api.At c w s) (e : StatusCode) :
    Follows api c w (.error e, s) ⟨.error e, none, 0⟩ := ⟨rfl, c, hs, rfl⟩

omit hc hty hs in
/-- A reply whose bytes were committed. -/
theorem follows_committed {c' : Connection} {s' : σ} {x : (Except StatusCode Unit × ℕ) × Bytes}
    (hat : api.At c' (w.write (c.slice ⟨true, 0⟩).base x.2) s')
    (hsize : c'.size ⟨true, 0⟩ = (MaybeUsize.some (BitVec.ofNat 32 x.1.2)).asOption) :
    Follows api c w (x.1.1, s') ⟨x.1.1, some x.2, x.1.2⟩ := by
  refine ⟨rfl, c', ?_, ?_⟩
  · rw [Reply.memory_some]
    exact hat
  · rw [Reply.committed_some, Option.elim_some, hsize]

include hc hty hs

theorem handleGetTokenVia_follows :
    Follows api c w (self.handleGetTokenVia api.access c.msg.handle s)
      (self.handleGetToken (.ok (w.read (c.slice ⟨false, 0⟩).base (c.slice ⟨false, 0⟩).len.toNat,
        w.read (c.slice ⟨true, 0⟩).base (c.slice ⟨true, 0⟩).len.toNat))) := by
  cases hcollect : PlatformBuffers.collect self.platform with
  | error e =>
    rw [handleGetTokenVia, handleGetToken, hcollect]
    exact follows_error api hs e
  | ok claims =>
    have hle := (self.answer_spec claims c w).1
    have hn : BitVec.ofNat 32 (self.answer claims c w).1.2 ≤ (c.slice ⟨true, 0⟩).len := by
      rw [BitVec.le_def, BitVec.toNat_ofNat]
      exact (Nat.mod_le _ _).trans hle
    obtain ⟨c', s', haccess, hat, hsize⟩ := api.invecOutvec_of_unused hs hty (v := ⟨false, 0⟩)
      (u := ⟨true, 0⟩) (i := 0) (o := 0) rfl rfl (hc.unused (by decide)) (hc.unused (by decide))
      (self.tokenClosureIn_slice claims c w) hn
    rw [self.handleGetToken_eq hcollect, commit_of_le (by rw [w.length_read]; exact hle),
      handleGetTokenVia, hcollect]
    dsimp only
    rw [haccess, ← answer]
    exact follows_committed api hat hsize

theorem handleGetTokenSizeVia_follows :
    Follows api c w (self.handleGetTokenSizeVia api c.msg.handle s)
      (self.handleGetTokenSize
        (.ok (w.read (c.slice ⟨false, 0⟩).base (c.slice ⟨false, 0⟩).len.toNat))
        (.ok (w.read (c.slice ⟨true, 0⟩).base (c.slice ⟨true, 0⟩).len.toNat))) := by
  obtain ⟨c₁, s₁, hfirst, hat₁, haside⟩ := api.invec_of_unused hs hty (v := ⟨false, 0⟩) (i := 0) rfl
    (hc.unused (by decide)) (f := readSizeIn) Prod.mk.eta.symm
  have hsize : c₁.size ⟨true, 0⟩ = c.size ⟨true, 0⟩ := by
    rw [Connection.size, haside.msg, Connection.size]
  rw [handleGetTokenSizeVia, hfirst, handleGetTokenSize_eq, readSizeIn]
  cases readChallengeSize (w.read (c.slice ⟨false, 0⟩).base (c.slice ⟨false, 0⟩).len.toNat) with
  | error e => exact ⟨rfl, c₁, hat₁, hsize⟩
  | ok challengeSize =>
    dsimp only
    cases self.tokenSizeOf challengeSize with
    | error e => exact ⟨rfl, c₁, hat₁, hsize⟩
    | ok tokenSize =>
      have hle := writeSize_le tokenSize
        (w.read (c.slice ⟨true, 0⟩).base (c.slice ⟨true, 0⟩).len.toNat)
      have hn : BitVec.ofNat 32 (writeSize tokenSize
          (w.read (c.slice ⟨true, 0⟩).base (c.slice ⟨true, 0⟩).len.toNat)).1.2 ≤
          (c.slice ⟨true, 0⟩).len := by
        rw [w.length_read] at hle
        rw [BitVec.le_def, BitVec.toNat_ofNat]
        exact (Nat.mod_le _ _).trans hle
      -- the output vector is as unused as it was before the size was read
      obtain ⟨c₂, s₂, hsecond, hat₂, hwritten⟩ := api.outvec_of_unused hat₁ (haside.msg ▸ hty)
        (u := ⟨true, 0⟩) (o := 0) rfl (haside.unused _ (by decide) (hc.unused (by decide)))
        (by rw [haside.slice]; exact writeSizeIn_eq tokenSize (c.slice ⟨true, 0⟩) w)
        (by rw [haside.slice]; exact hn)
      dsimp only
      rw [commit_of_le hle, ← haside.msg, hsecond]
      exact follows_committed api hat₂ hwritten

/-- **On a fresh connection the service is the service on the bytes of its vectors**, through any
API. -/
theorem callVia_refines :
    Follows api c w (self.callVia api c.msg s)
      (let input := w.read (c.slice ⟨false, 0⟩).base (c.slice ⟨false, 0⟩).len.toNat
        let output := w.read (c.slice ⟨true, 0⟩).base (c.slice ⟨true, 0⟩).len.toNat
        self.call c.msg (.ok (input, output)) (.ok input) (.ok output)) := by
  unfold callVia call
  dsimp only
  split_ifs
  · exact follows_error api hs _
  · exact handleGetTokenVia_follows api hc hty hs
  · exact handleGetTokenSizeVia_follows api hc hty hs
  · exact follows_error api hs _

end

end AttestService

end RuSpe
