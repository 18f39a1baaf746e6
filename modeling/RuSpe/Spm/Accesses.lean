import RuSpe.Attest.TokenAccess

set_option autoImplicit false

/-!
# Accesses one after another

A service whose request has several vectors uses them in turn. A vector that was not used yet can be
used after the use of another one, through either API.

* `AccessApi`: an API, and the connection it works on; `sfnApi`, `svcApi`;
* `Connection.Unused`, `Connection.Aside`: a vector that can be used, and a connection on which
  another vector was used;
* **`run_invec_of_unused`**, **`run_outvec_of_unused`**, **`run_invecOutvec_of_unused`**: the closure
  runs, what it reports is committed, and after an input vector the others are unused still.
-/

namespace RuSpe

variable {σ τ ρ : Type} {k : Bookkeeping} {c : Connection}

/-! ## One API -/

/-- What the use of a vector leaves as it is. -/
structure Bookkeeping.Steps (k : Bookkeeping) : Prop extends k.Uses where
  msg_start : ∀ (v : Vec) (c : Connection), (k.start v c).msg = c.msg
  msg_finish : ∀ (v : Vec) (c : Connection), (k.finish v c).msg = c.msg
  base_finish : ∀ (v u : Vec) (c : Connection), (k.finish v c).base u = c.base u
  startable_finish : ∀ (v u : Vec) (c : Connection), u ≠ v →
    ((k.finish v c).Startable u ↔ c.Startable u)

theorem steps_sfnBookkeeping : sfnBookkeeping.Steps where
  toUses := uses_sfnBookkeeping
  msg_start v c := Connection.msg_setMapped c v true
  msg_finish v c := Connection.msg_setUnmapped c v true
  base_finish v u c := Connection.base_setUnmapped c v u true
  startable_finish v u c _ := by
    rw [Connection.Startable, Connection.Startable, sfnBookkeeping, Connection.mapped_setUnmapped,
      Connection.used_setUnmapped]

theorem steps_svcBookkeeping : svcBookkeeping.Steps where
  toUses := uses_svcBookkeeping
  msg_start v c := msg_start v c
  msg_finish v c := msg_finish v c
  base_finish v u c := by
    simp only [svcBookkeeping, Connection.base_setUnmapped, Connection.base_setMapped]
  startable_finish v u c hu := by
    rw [Connection.Startable, Connection.Startable, svcBookkeeping, Connection.mapped_setUnmapped,
      Connection.mapped_setMapped, if_neg fun h => hu h.1, Connection.mapped_setUnmapped,
      Connection.used_setUnmapped, Connection.used_setMapped, Connection.used_setUnmapped]

/-- An API for the vectors of a call: what it does on a connection with surroundings is `Access.run`
with its bookkeeping. -/
structure AccessApi (σ τ : Type) where
  k : Bookkeeping
  steps : k.Steps
  access : {ρ : Type} → Access τ ρ → σ → Except StatusCode ρ × σ
  /-- The connection is the active one, in these surroundings. -/
  At : Connection → τ → σ → Prop
  access_at : ∀ {ρ : Type} (op : Access τ ρ) {c : Connection} {w : τ} {s : σ}, At c w s →
    (access op s).1 = (op.run k c w).1 ∧
      At (op.run k c w).2.1 (op.run k c w).2.2 (access op s).2

/-- `??` on the result of an access: both errors, of the access and of the closure, end a service. -/
def flattenAccess (x : Except StatusCode (Except StatusCode Unit) × σ) : Except StatusCode Unit × σ :=
  match x with
  | (.error e, s) => (.error e, s)
  | (.ok r, s) => (r, s)

/-- `SfnApi`. -/
def sfnApi (σ τ : Type) [SpmCall σ] [LawfulSpm σ] : AccessApi (Hosted σ τ) τ where
  k := sfnBookkeeping
  steps := steps_sfnBookkeeping
  access := SfnApi.access
  At c w s := Good s.spm ∧ (LawfulConnStore.conns s.spm).Active ∧
    (LawfulConnStore.conns s.spm).topSlot = c ∧ s.rest = w
  access_at := by
    rintro ρ op c w ⟨s, w⟩ ⟨hgood, hactive, rfl, rfl⟩
    rw [sfnAccess_eq hgood hactive op w]
    refine ⟨rfl, ⟨LawfulConnStore.free_put _ hgood.free, ?_⟩, ?_, ?_, rfl⟩
    · rw [LawfulConnStore.conns_put]
      exact hgood.wf.filled hactive.1 _
    · rw [LawfulConnStore.conns_put]
      exact ConnectionArray.active_filled hgood.wf hactive.1 _
    · rw [LawfulConnStore.conns_put]
      exact ConnectionArray.topSlot_filled hgood.wf hactive.1 _

/-- `SvcApi`. -/
def svcApi (n : ℕ) (τ : Type) (others : τ → SvcStackFrame) (f : SfnCall (SpmIpc n)) :
    AccessApi (Hosted (SpmIpc n) τ) τ where
  k := svcBookkeeping
  steps := steps_svcBookkeeping
  access := SvcApi.access (Hosted.svcCall others f)
  At c w s := (∃ p, OnTop p s.spm) ∧ s.spm.top = c ∧ s.rest = w
  access_at := by
    rintro ρ op c w ⟨t, w⟩ ⟨⟨p, hp⟩, rfl, rfl⟩
    obtain ⟨hon, hresult, htop, hrest⟩ := svcAccess_eq others f hp op w
    exact ⟨hresult, ⟨p, hon⟩, htop, hrest⟩

/-- Where a call was entered, its connection is active. -/
theorem sfnApi_at_of_enter [SpmCall σ] [LawfulSpm σ] {s₀ s : σ} {b : Bool} (h : Good s₀)
    (he : SpmCall.enter c s₀ = (.ok b, s)) (w : τ) : (sfnApi σ τ).At c w ⟨s, w⟩ := by
  obtain ⟨hfree, hlt, hconns⟩ := LawfulSpm.enter_ok h.free h.wf he
  refine ⟨⟨hfree, ?_⟩, ?_, ?_, rfl⟩
  · rw [hconns]
    exact h.wf.pushed hlt c
  · rw [hconns]
    exact ConnectionArray.active_pushed hlt c
  · rw [hconns]
    exact ConnectionArray.topSlot_pushed hlt c

theorem svcApi_at_of_enter {n : ℕ} {s₀ s : SpmIpc n} {b : Bool} (h : Good s₀)
    (he : SpmIpc.enter c s₀ = (.ok b, s)) (others : τ → SvcStackFrame) (f : SfnCall (SpmIpc n))
    (w : τ) : (svcApi n τ others f).At c w ⟨s, w⟩ := by
  obtain ⟨htop, p, hp⟩ := onTop_of_enter h he
  exact ⟨⟨p, hp⟩, htop, rfl⟩

/-! ## Vectors that were not used -/

/-- The vector can be used, and given back. -/
structure Connection.Unused (c : Connection) (v : Vec) : Prop where
  startable : c.Startable v
  unmapped : c.unmapped v = false

theorem Connection.Fresh.unused (h : c.Fresh) {v : Vec} (hv : v.idx < psaMaxIovec) : c.Unused v :=
  ⟨⟨hv, h.mapped v, h.used v⟩, h.unmapped v⟩

/-- Nothing happened to the vectors other than `v`, and the connection is the same. -/
structure Connection.Aside (c : Connection) (v : Vec) (c' : Connection) : Prop where
  msg : c'.msg = c.msg
  slice : ∀ u, c'.slice u = c.slice u
  unused : ∀ u ≠ v, c.Unused u → c'.Unused u

section

variable (hk : k.Steps)

include hk

/-- What is left to be done for a vector that was started. -/
theorem Bookkeeping.Steps.unused_start {v u : Vec} (hu : u ≠ v) (h : c.Unused u) :
    (k.start v c).Unused u :=
  ⟨(hk.startable v u c hu).mpr h.startable, hk.unmapped_start v u c h.unmapped⟩

theorem Bookkeeping.Steps.unused_finish {v u : Vec} (hu : u ≠ v) (h : c.Unused u) :
    (k.finish v c).Unused u := by
  refine ⟨(hk.startable_finish v u c hu).mpr h.startable, ?_⟩
  rw [hk.unmapped_finish, if_neg fun he => hu he.1]
  exact h.unmapped

theorem Bookkeeping.Steps.slice_finish (v u : Vec) (c : Connection) :
    (k.finish v c).slice u = c.slice u := by
  rw [Connection.slice, Connection.slice, hk.base_finish, hk.size_finish]

/-- **An unused input vector is shown to the closure, and is given back.** -/
theorem run_invec_of_unused {i : BitVec 32} (hty : 0 ≤ c.msg.msgType)
    (hv : c.Unused ⟨false, i.toNat⟩) (f : Slice → τ → ρ × τ) (w : τ) :
    ∃ c', (Access.invec c.msg.handle i f).run k c w =
        (.ok (f (c.slice ⟨false, i.toNat⟩) w).1, c', (f (c.slice ⟨false, i.toNat⟩) w).2) ∧
      c.Aside ⟨false, i.toNat⟩ c' := by
  refine ⟨k.finish ⟨false, i.toNat⟩ (k.start ⟨false, i.toNat⟩ c), ?_, ⟨?_, fun u => ?_,
    fun u hu h => hk.unused_finish hu (hk.unused_start hu h)⟩⟩
  · rw [Access.run, validatedIn, Access.msgHandle, if_neg (not_not.mpr rfl),
      if_neg (not_lt.mpr hty), Access.body]
    dsimp only
    rw [if_pos hv.startable, if_pos (hk.unmapped_start _ _ _ hv.unmapped)]
  · rw [hk.msg_finish, hk.msg_start]
  · rw [hk.slice_finish, hk.toUses.slice_start]

/-- **An unused output vector is shown to the closure, and the length that it reports is committed if
it fits.** -/
theorem run_outvec_of_unused {o : BitVec 32} (hty : 0 ≤ c.msg.msgType)
    (hu : c.Unused ⟨true, o.toNat⟩) {f : Slice → τ → (ρ × Usize) × τ} {w w' : τ} {r : ρ} {n : Usize}
    (hf : f (c.slice ⟨true, o.toNat⟩) w = ((r, n), w')) (hn : n ≤ (c.slice ⟨true, o.toNat⟩).len) :
    ∃ c', (Access.outvec c.msg.handle o f).run k c w = (.ok r, c', w') ∧
      c'.size ⟨true, o.toNat⟩ = (MaybeUsize.some n).asOption := by
  rw [AttestService.len_slice] at hn
  rw [Access.run, validatedIn, Access.msgHandle, if_neg (not_not.mpr rfl),
    if_neg (not_lt.mpr hty), Access.body]
  dsimp only
  rw [if_pos hu.startable, hf]
  dsimp only
  rw [if_pos ⟨hk.unmapped_start _ _ _ hu.unmapped, by rw [hk.size_start]; exact hn⟩]
  refine ⟨_, rfl, ?_⟩
  rw [hk.size_finish, Connection.size_setWritten, if_pos ⟨rfl, hu.startable.1⟩]

/-- **Two unused vectors are shown to the closure, and the length that it reports is committed if it
fits.** -/
theorem run_invecOutvec_of_unused {i o : BitVec 32} (hty : 0 ≤ c.msg.msgType)
    (hv : c.Unused ⟨false, i.toNat⟩) (hu : c.Unused ⟨true, o.toNat⟩)
    {f : Slice → Slice → τ → (ρ × Usize) × τ} {w w' : τ} {r : ρ} {n : Usize}
    (hf : f (c.slice ⟨false, i.toNat⟩) (c.slice ⟨true, o.toNat⟩) w = ((r, n), w'))
    (hn : n ≤ (c.slice ⟨true, o.toNat⟩).len) :
    ∃ c', (Access.invecOutvec c.msg.handle i o f).run k c w = (.ok r, c', w') ∧
      c'.size ⟨true, o.toNat⟩ = (MaybeUsize.some n).asOption := by
  have hne : (⟨true, o.toNat⟩ : Vec) ≠ ⟨false, i.toNat⟩ := nofun
  have hu₁ := hk.unused_start hne hu
  have hfree : (k.start ⟨true, o.toNat⟩ (k.start ⟨false, i.toNat⟩ c)).unmapped ⟨true, o.toNat⟩ =
      false := hk.unmapped_start _ _ _ hu₁.unmapped
  have hfree' : (k.start ⟨true, o.toNat⟩ (k.start ⟨false, i.toNat⟩ c)).unmapped ⟨false, i.toNat⟩ =
      false := hk.unmapped_start _ _ _ (hk.unmapped_start _ _ _ hv.unmapped)
  rw [AttestService.len_slice] at hn
  rw [Access.run, validatedIn, Access.msgHandle, if_neg (not_not.mpr rfl),
    if_neg (not_lt.mpr hty), Access.body]
  dsimp only
  rw [if_pos hv.startable, if_pos hu₁.startable, hk.toUses.slice_start, hk.toUses.slice_start, hf]
  dsimp only
  rw [if_pos ⟨hfree, by rw [hk.size_start, hk.size_start]; exact hn⟩, if_pos]
  · refine ⟨_, rfl, ?_⟩
    rw [hk.size_finish, hk.size_finish, Connection.size_setWritten,
      if_pos ⟨rfl, hu.startable.1⟩]
  · rw [hk.unmapped_finish, if_neg fun h => hne h.1.symm, Connection.unmapped_setWritten]
    exact hfree'

end

section

variable (api : AccessApi σ τ) {w w' : τ} {s : σ} (hs : api.At c w s) (hty : 0 ≤ c.msg.msgType)

include hs hty

/-- **An unused input vector, through the API.** -/
theorem AccessApi.invec_of_unused {v : Vec} {i : BitVec 32} (he : v = ⟨false, i.toNat⟩)
    (hv : c.Unused v) {f : Slice → τ → ρ × τ} {r : ρ} (hf : f (c.slice v) w = (r, w')) :
    ∃ c' s', api.access (.invec c.msg.handle i f) s = (.ok r, s') ∧ api.At c' w' s' ∧
      c.Aside v c' := by
  subst he
  obtain ⟨c', hrun, haside⟩ := run_invec_of_unused api.steps hty hv f w
  obtain ⟨hresult, hat⟩ := api.access_at (.invec c.msg.handle i f) hs
  rw [hrun, hf] at hresult hat
  exact ⟨c', _, Prod.ext hresult rfl, hat, haside⟩

/-- **An unused output vector, through the API.** -/
theorem AccessApi.outvec_of_unused {u : Vec} {o : BitVec 32} (he : u = ⟨true, o.toNat⟩)
    (hu : c.Unused u) {f : Slice → τ → (ρ × Usize) × τ} {r : ρ} {n : Usize}
    (hf : f (c.slice u) w = ((r, n), w')) (hn : n ≤ (c.slice u).len) :
    ∃ c' s', api.access (.outvec c.msg.handle o f) s = (.ok r, s') ∧ api.At c' w' s' ∧
      c'.size u = (MaybeUsize.some n).asOption := by
  subst he
  obtain ⟨c', hrun, hwritten⟩ := run_outvec_of_unused api.steps hty hu hf hn
  obtain ⟨hresult, hat⟩ := api.access_at (.outvec c.msg.handle o f) hs
  rw [hrun] at hresult hat
  exact ⟨c', _, Prod.ext hresult rfl, hat, hwritten⟩

/-- **Two unused vectors, through the API.** -/
theorem AccessApi.invecOutvec_of_unused {v u : Vec} {i o : BitVec 32} (hvi : v = ⟨false, i.toNat⟩)
    (huo : u = ⟨true, o.toNat⟩) (hv : c.Unused v) (hu : c.Unused u)
    {f : Slice → Slice → τ → (ρ × Usize) × τ} {r : ρ} {n : Usize}
    (hf : f (c.slice v) (c.slice u) w = ((r, n), w')) (hn : n ≤ (c.slice u).len) :
    ∃ c' s', api.access (.invecOutvec c.msg.handle i o f) s = (.ok r, s') ∧ api.At c' w' s' ∧
      c'.size u = (MaybeUsize.some n).asOption := by
  subst hvi huo
  obtain ⟨c', hrun, hwritten⟩ := run_invecOutvec_of_unused api.steps hty hv hu hf hn
  obtain ⟨hresult, hat⟩ := api.access_at (.invecOutvec c.msg.handle i o f) hs
  rw [hrun] at hresult hat
  exact ⟨c', _, Prod.ext hresult rfl, hat, hwritten⟩

end

end RuSpe
