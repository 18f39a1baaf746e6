import RuSpe.Spm.Access
import RuSpe.Spm.VecUse

set_option autoImplicit false

/-!
# The two APIs against each other

The same operations are run through `SfnApi` on the function-call SPM and through `SvcApi` on the
process SPM, and their results, the slices the closures were shown and the committed lengths are
compared. After a release the function-call SPM keeps the vector marked as mapped; the process SPM
clears the mark, so that a vector without written bytes can be started again.

* `Access.watched`, `trace`, `SameOutcome`: what is compared;
* `Access.Repeats`, `NoneRepeats`: an operation that starts a released vector again;
* `Alike`, **`alike_run`**: the simulation;
* **`apis_agree_iff`**: the APIs agree exactly when no operation repeats.
-/

namespace RuSpe

variable {σ τ ρ : Type}

/-! ## What is compared -/

/-- The operation, with a note of what its closure is shown. -/
def Access.watched : Access τ ρ → Access (τ × List Slice) ρ
  | .invec mh i f => .invec mh i fun invec w =>
    let (result, t) := f invec w.1
    (result, t, w.2 ++ [invec])
  | .outvec mh o f => .outvec mh o fun outvec w =>
    let (result, t) := f outvec w.1
    (result, t, w.2 ++ [outvec])
  | .invecOutvec mh i o f => .invecOutvec mh i o fun invec outvec w =>
    let (result, t) := f invec outvec w.1
    (result, t, w.2 ++ [invec, outvec])

/-- An API, for operations that are watched. -/
abbrev WatchedApi (σ τ ρ : Type) := Access (τ × List Slice) ρ → Hosted σ (τ × List Slice) →
  Except StatusCode ρ × Hosted σ (τ × List Slice)

/-- One operation: its result, what its closure was shown, and the state after it. -/
def watch (api : WatchedApi σ τ ρ) (op : Access τ ρ) (s : Hosted σ τ) :
    (Except StatusCode ρ × List Slice) × Hosted σ τ :=
  let (result, t) := api op.watched ⟨s.spm, s.rest, []⟩
  ((result, t.rest.2), ⟨t.spm, t.rest.1⟩)

/-- Operations one after another. -/
def trace (api : WatchedApi σ τ ρ) : List (Access τ ρ) → Hosted σ τ →
    List (Except StatusCode ρ × List Slice) × Hosted σ τ
  | [], s => ([], s)
  | op :: ops, s =>
    let (x, s) := watch api op s
    let (l, s) := trace api ops s
    (x :: l, s)

/-- The lengths committed for the output vectors, as counted and as recorded in the message. -/
def Connection.committed (c : Connection) :
    Vector Usize psaMaxIovec × Vector MaybeUsize psaMaxIovec :=
  (c.outvecWritten, c.msg.outSize)

/-- The same results, slices and committed lengths. -/
def SameOutcome {n : ℕ} (x : List (Except StatusCode ρ × List Slice) × Hosted SpmFn τ)
    (y : List (Except StatusCode ρ × List Slice) × Hosted (SpmIpc n) τ) : Prop :=
  x.1 = y.1 ∧ x.2.spm.connections.value.topSlot.committed = y.2.spm.top.committed

/-! ## Starting a vector again -/

/-- The operation is for this connection, all its vectors can be started, and one of them was
released before. -/
def Access.Repeats (op : Access τ ρ) (c : Connection) : Prop :=
  c.msg.handle = op.msgHandle ∧ 0 ≤ c.msg.msgType ∧ (∀ v ∈ op.vecs, c.Startable v) ∧
    ∃ v ∈ op.vecs, c.unmapped v = true

instance (op : Access τ ρ) (c : Connection) : Decidable (op.Repeats c) :=
  inferInstanceAs (Decidable (_ ∧ _ ∧ _ ∧ _))

/-- No operation of the run repeats when its turn comes. -/
def NoneRepeats {n : ℕ} (api : WatchedApi (SpmIpc n) τ ρ) : List (Access τ ρ) →
    Hosted (SpmIpc n) τ → Prop
  | [], _ => True
  | op :: ops, s => ¬ op.Repeats s.spm.top ∧ NoneRepeats api ops (watch api op s).2

instance decidableNoneRepeats {n : ℕ} (api : WatchedApi (SpmIpc n) τ ρ) :
    (ops : List (Access τ ρ)) → (s : Hosted (SpmIpc n) τ) → Decidable (NoneRepeats api ops s)
  | [], _ => inferInstanceAs (Decidable True)
  | op :: ops, s =>
    have := decidableNoneRepeats api ops (watch api op s).2
    inferInstanceAs (Decidable (¬ op.Repeats s.spm.top ∧ NoneRepeats api ops _))

/-! ## The simulation -/

namespace Connection

variable (c : Connection) (v : Vec) (b : Bool)

/-- The connection without its flags. -/
def forget : Connection :=
  { c with
    invecMapped := Vector.replicate _ false
    invecUnmapped := Vector.replicate _ false
    outvecMapped := Vector.replicate _ false
    outvecUnmapped := Vector.replicate _ false }

@[simp] theorem forget_setMapped : (c.setMapped v b).forget = c.forget := by
  unfold setMapped forget
  split_ifs <;> rfl

@[simp] theorem forget_setUnmapped : (c.setUnmapped v b).forget = c.forget := by
  unfold setUnmapped forget
  split_ifs <;> rfl

theorem forget_setWritten (i : ℕ) (n : Usize) :
    (c.setWritten i n).forget = c.forget.setWritten i n := rfl

end Connection

/-- Connections that differ in their flags only: a vector is untouched on both sides, or it is
blocked for `SfnApi`, and blocked or released for `SvcApi`. -/
structure Alike (c d : Connection) : Prop where
  forget : d.forget = c.forget
  flags : ∀ v, c.mapped v = false ∧ c.unmapped v = false ∧ d.mapped v = false ∧
      d.unmapped v = false ∨
    c.mapped v = true ∧ (d.mapped v = true ∨ d.unmapped v = true)

namespace Alike

variable {c d : Connection}

theorem of_fresh (h : c.Fresh) : Alike c c :=
  ⟨rfl, fun v => .inl ⟨h.mapped v, h.unmapped v, h.mapped v, h.unmapped v⟩⟩

variable (h : Alike c d)

include h

/-- Whatever does not look at the flags is the same. -/
theorem eq_of_forget {α : Type} {F : Connection → α} (hF : ∀ c, F c.forget = F c) : F d = F c := by
  rw [← hF d, h.forget, hF c]

theorem msg : d.msg = c.msg := h.eq_of_forget fun _ => rfl

theorem used (v : Vec) : d.used v = c.used v := h.eq_of_forget (F := (·.used v)) fun _ => rfl

theorem size (v : Vec) : d.size v = c.size v := h.eq_of_forget (F := (·.size v)) fun _ => rfl

theorem slice (v : Vec) : d.slice v = c.slice v := h.eq_of_forget (F := (·.slice v)) fun _ => rfl

theorem committed : d.committed = c.committed := h.eq_of_forget fun _ => rfl

/-- **What `SfnApi` can start are the vectors that `SvcApi` can start for the first time.** -/
theorem startable_iff (v : Vec) : c.Startable v ↔ d.Startable v ∧ d.unmapped v = false := by
  rw [Connection.Startable, Connection.Startable, h.used v]
  rcases h.flags v with ⟨hc, -, hd, hu⟩ | ⟨hc, hd⟩
  · simp [hc, hd, hu]
  · rcases hd with hd | hd <;> simp [hc, hd]

theorem unmapped_of_startable {v : Vec} (hs : c.Startable v) : c.unmapped v = false := by
  rcases h.flags v with ⟨-, hu, -, -⟩ | ⟨hc, -⟩
  · exact hu
  · exact absurd (hc.symm.trans hs.2.1) Bool.noConfusion

theorem start (v : Vec) :
    Alike (sfnBookkeeping.start v c) (svcBookkeeping.start v d) := by
  refine ⟨?_, fun u => ?_⟩
  · simp only [sfnBookkeeping, svcBookkeeping, Connection.forget_setUnmapped,
      Connection.forget_setMapped, h.forget]
  · simp only [sfnBookkeeping, svcBookkeeping, Connection.mapped_setUnmapped,
      Connection.mapped_setMapped, Connection.unmapped_setUnmapped, Connection.unmapped_setMapped]
    by_cases hu : u = v ∧ v.idx < psaMaxIovec
    · simp [hu]
    · simpa only [if_neg hu] using h.flags u

/-- The other side starts a vector again. -/
theorem start_svc {v : Vec} (hi : v.idx < psaMaxIovec) (hc : c.mapped v = true) :
    Alike c (svcBookkeeping.start v d) := by
  refine ⟨?_, fun u => ?_⟩
  · simp only [svcBookkeeping, Connection.forget_setUnmapped, Connection.forget_setMapped, h.forget]
  · simp only [svcBookkeeping, Connection.mapped_setUnmapped, Connection.mapped_setMapped,
      Connection.unmapped_setUnmapped, Connection.unmapped_setMapped]
    by_cases hu : u = v
    · subst hu
      simp [hi, hc]
    · simpa only [hu, false_and, if_false] using h.flags u

theorem finish {v : Vec} (hi : v.idx < psaMaxIovec) (hc : c.mapped v = true) :
    Alike (sfnBookkeeping.finish v c) (svcBookkeeping.finish v d) := by
  refine ⟨?_, fun u => ?_⟩
  · simp only [sfnBookkeeping, svcBookkeeping, Connection.forget_setUnmapped,
      Connection.forget_setMapped, h.forget]
  · simp only [sfnBookkeeping, svcBookkeeping, Connection.mapped_setUnmapped,
      Connection.mapped_setMapped, Connection.unmapped_setUnmapped, Connection.unmapped_setMapped]
    by_cases hu : u = v
    · subst hu
      simp [hi, hc]
    · simpa only [hu, false_and, if_false] using h.flags u

theorem setWritten (i : ℕ) (n : Usize) : Alike (c.setWritten i n) (d.setWritten i n) := by
  refine ⟨?_, h.flags⟩
  rw [Connection.forget_setWritten, Connection.forget_setWritten, h.forget]

end Alike

/-- The vector that was started is mapped. -/
theorem mapped_sfnStart {c : Connection} {v : Vec} (hi : v.idx < psaMaxIovec) :
    (sfnBookkeeping.start v c).mapped v = true := by
  rw [sfnBookkeeping, Connection.mapped_setMapped, if_pos ⟨rfl, hi⟩]

/-- Starting one vector leaves the others alone. -/
theorem startable_svcStart {c : Connection} {v u : Vec} (hu : u ≠ v) :
    ((svcBookkeeping.start v c).Startable u ↔ c.Startable u) ∧
      (svcBookkeeping.start v c).unmapped u = c.unmapped u := by
  simp [svcBookkeeping, Connection.Startable, hu]

theorem startable_sfnStart {c : Connection} {v u : Vec} (hu : u ≠ v) :
    (sfnBookkeeping.start v c).Startable u ↔ c.Startable u := by
  simp [sfnBookkeeping, Connection.Startable, hu]

/-! ## One operation -/

/-- Two runs of an operation end alike. -/
structure SameEnd (x y : Except StatusCode ρ × Connection × τ) : Prop where
  result : x.1 = y.1
  alike : Alike x.2.1 y.2.1
  rest : x.2.2 = y.2.2

variable {c d : Connection} (h : Alike c d)

include h

/-- A vector that both sides start is not released on either. -/
theorem unmapped_start {v : Vec} (hc : c.Startable v) :
    (sfnBookkeeping.start v c).unmapped v = false ∧
      (svcBookkeeping.start v d).unmapped v = false := by
  constructor
  · exact (Connection.unmapped_setMapped _ _ _ _).trans (h.unmapped_of_startable hc)
  · rw [svcBookkeeping, Connection.unmapped_setUnmapped, if_pos ⟨rfl, hc.1⟩]

theorem sameEnd_invec (mh : ServiceHandle) (i : BitVec 32) (f : Slice → τ → ρ × τ) (w : τ)
    (hn : d.Startable ⟨false, i.toNat⟩ → c.Startable ⟨false, i.toNat⟩) :
    SameEnd ((Access.invec mh i f).body sfnBookkeeping c w)
      ((Access.invec mh i f).body svcBookkeeping d w) := by
  rw [Access.body, Access.body]
  by_cases hd : d.Startable ⟨false, i.toNat⟩
  swap
  · rw [if_neg hd, if_neg fun hc => hd ((h.startable_iff _).mp hc).1]
    exact ⟨rfl, h, rfl⟩
  have hc := hn hd
  obtain ⟨hu, hu'⟩ := unmapped_start h hc
  rw [if_pos hd, if_pos hc, h.slice]
  dsimp only
  rw [if_pos hu, if_pos hu']
  exact ⟨rfl, (h.start _).finish hc.1 (mapped_sfnStart hc.1), rfl⟩

theorem sameEnd_outvec (mh : ServiceHandle) (o : BitVec 32) (f : Slice → τ → (ρ × Usize) × τ)
    (w : τ) (hn : d.Startable ⟨true, o.toNat⟩ → c.Startable ⟨true, o.toNat⟩) :
    SameEnd ((Access.outvec mh o f).body sfnBookkeeping c w)
      ((Access.outvec mh o f).body svcBookkeeping d w) := by
  rw [Access.body, Access.body]
  by_cases hd : d.Startable ⟨true, o.toNat⟩
  swap
  · rw [if_neg hd, if_neg fun hc => hd ((h.startable_iff _).mp hc).1]
    exact ⟨rfl, h, rfl⟩
  have hc := hn hd
  obtain ⟨hu, hu'⟩ := unmapped_start h hc
  have hstart := h.start ⟨true, o.toNat⟩
  rw [if_pos hd, if_pos hc, h.slice]
  dsimp only
  rw [hstart.size]
  -- both sides check the reported length against the same size
  by_cases hle : (f (c.slice ⟨true, o.toNat⟩) w).1.2 ≤
      ((sfnBookkeeping.start ⟨true, o.toNat⟩ c).size ⟨true, o.toNat⟩).getD 0
  · rw [if_pos ⟨hu, hle⟩, if_pos ⟨hu', hle⟩]
    exact ⟨rfl, (hstart.setWritten _ _).finish hc.1 (mapped_sfnStart hc.1), rfl⟩
  · rw [if_neg fun hb => hle hb.2, if_neg fun hb => hle hb.2]
    exact ⟨rfl, hstart, rfl⟩

theorem sameEnd_invecOutvec (mh : ServiceHandle) (i o : BitVec 32)
    (f : Slice → Slice → τ → (ρ × Usize) × τ) (w : τ)
    (hn : d.Startable ⟨false, i.toNat⟩ → d.Startable ⟨true, o.toNat⟩ →
      c.Startable ⟨false, i.toNat⟩ ∧ c.Startable ⟨true, o.toNat⟩) :
    SameEnd ((Access.invecOutvec mh i o f).body sfnBookkeeping c w)
      ((Access.invecOutvec mh i o f).body svcBookkeeping d w) := by
  have hne : (⟨true, o.toNat⟩ : Vec) ≠ ⟨false, i.toNat⟩ := by simp
  have hne' : (⟨false, i.toNat⟩ : Vec) ≠ ⟨true, o.toNat⟩ := by simp
  have hstart := h.start ⟨false, i.toNat⟩
  rw [Access.body, Access.body]
  by_cases hd : d.Startable ⟨false, i.toNat⟩
  swap
  · rw [if_neg hd, if_neg fun hc => hd ((h.startable_iff _).mp hc).1]
    exact ⟨rfl, h, rfl⟩
  rw [if_pos hd]
  by_cases hdo : d.Startable ⟨true, o.toNat⟩
  swap
  · -- the second vector is refused on both sides, but only one may have started the first
    have hco : ¬ c.Startable ⟨true, o.toNat⟩ := fun hc => hdo ((h.startable_iff _).mp hc).1
    dsimp only
    rw [if_neg (mt (startable_svcStart hne).1.mp hdo)]
    by_cases hc : c.Startable ⟨false, i.toNat⟩
    · rw [if_pos hc, if_neg (mt (startable_sfnStart hne).mp hco)]
      exact ⟨rfl, hstart, rfl⟩
    · rw [if_neg hc]
      refine ⟨rfl, h.start_svc hd.1 ?_, rfl⟩
      rcases h.flags ⟨false, i.toNat⟩ with ⟨hm, -, hdm, hdu⟩ | ⟨hm, -⟩
      · exact absurd ((h.startable_iff _).mpr ⟨hd, hdu⟩) hc
      · exact hm
  obtain ⟨hc, hco⟩ := hn hd hdo
  obtain ⟨hu, hu'⟩ := unmapped_start h hc
  have hco₁ := (startable_sfnStart hne).mpr hco
  obtain ⟨huo, huo'⟩ := unmapped_start hstart hco₁
  have hstart₂ := hstart.start ⟨true, o.toNat⟩
  rw [if_pos hc]
  dsimp only
  rw [if_pos hco₁, if_pos ((startable_svcStart hne).1.mpr hdo), hstart.slice, hstart.slice]
  generalize f ((sfnBookkeeping.start ⟨false, i.toNat⟩ c).slice ⟨false, i.toNat⟩)
    ((sfnBookkeeping.start ⟨false, i.toNat⟩ c).slice ⟨true, o.toNat⟩) w = r
  rw [hstart₂.size]
  generalize hc₂ : sfnBookkeeping.start ⟨true, o.toNat⟩
    (sfnBookkeeping.start ⟨false, i.toNat⟩ c) = c₂ at *
  generalize hd₂ : svcBookkeeping.start ⟨true, o.toNat⟩
    (svcBookkeeping.start ⟨false, i.toNat⟩ d) = d₂ at *
  by_cases hle : r.1.2 ≤ (c₂.size ⟨true, o.toNat⟩).getD 0
  swap
  · rw [if_neg fun hb => hle hb.2, if_neg fun hb => hle hb.2]
    exact ⟨rfl, hstart₂, rfl⟩
  have hb : c₂.unmapped ⟨true, o.toNat⟩ = false ∧
      r.1.2 ≤ (c₂.size ⟨true, o.toNat⟩).getD 0 := ⟨huo, hle⟩
  have hb' : d₂.unmapped ⟨true, o.toNat⟩ = false ∧
      r.1.2 ≤ (c₂.size ⟨true, o.toNat⟩).getD 0 := ⟨huo', hle⟩
  rw [if_pos hb, if_pos hb']
  have hmo : c₂.mapped ⟨true, o.toNat⟩ = true := hc₂ ▸ mapped_sfnStart hco.1
  have hfin := (hstart₂.setWritten o.toNat r.1.2).finish hco.1 hmo
  have hm : c₂.mapped ⟨false, i.toNat⟩ = true := by
    rw [← hc₂]
    simp [sfnBookkeeping, hc.1]
  have hv : c₂.unmapped ⟨false, i.toNat⟩ = false := by
    rw [← hc₂]
    simpa [sfnBookkeeping] using hu
  have hv' : d₂.unmapped ⟨false, i.toNat⟩ = false := by
    rw [← hd₂]
    simpa [svcBookkeeping] using hu'
  rw [if_pos (by simpa [sfnBookkeeping] using hv), if_pos (by simpa [svcBookkeeping] using hv')]
  exact ⟨rfl, hfin.finish hc.1 (by simpa [sfnBookkeeping] using hm), rfl⟩

/-- **An operation that does not repeat ends alike on both sides.** -/
theorem alike_run (op : Access τ ρ) (hn : ¬ op.Repeats d) (w : τ) :
    SameEnd (op.run sfnBookkeeping c w) (op.run svcBookkeeping d w) := by
  rw [Access.run, Access.run, validatedIn, validatedIn, h.msg]
  by_cases hh : c.msg.handle = op.msgHandle
  swap
  · rw [if_pos hh, if_pos hh]
    exact ⟨rfl, h, rfl⟩
  rw [if_neg (not_not.mpr hh), if_neg (not_not.mpr hh)]
  by_cases hty : c.msg.msgType < 0
  · rw [if_pos hty, if_pos hty]
    exact ⟨rfl, h, rfl⟩
  rw [if_neg hty, if_neg hty]
  have hfirst : (∀ v ∈ op.vecs, d.Startable v) → ∀ v ∈ op.vecs, c.Startable v := fun hall v hv =>
    (h.startable_iff v).mpr ⟨hall v hv, by
      rw [← Bool.not_eq_true]
      exact fun hu => hn ⟨h.msg ▸ hh, h.msg ▸ not_lt.mp hty, hall, v, hv, hu⟩⟩
  cases op with
  | invec mh i f =>
    exact sameEnd_invec h mh i f w (by simpa [Access.vecs] using hfirst)
  | outvec mh o f =>
    exact sameEnd_outvec h mh o f w (by simpa [Access.vecs] using hfirst)
  | invecOutvec mh i o f =>
    exact sameEnd_invecOutvec h mh i o f w (by simpa [Access.vecs] using hfirst)

omit h

/-! ### What the closures are shown -/

theorem repeats_watched (op : Access τ ρ) (c : Connection) :
    op.watched.Repeats c ↔ op.Repeats c := by
  cases op <;> rfl

/-- Where a vector cannot be started, the closure does not run. -/
theorem shown_of_not_startable (op : Access τ ρ) {v : Vec} (hv : v ∈ op.vecs)
    (hc : ¬ c.Startable v) (w : τ) : (op.watched.run sfnBookkeeping c (w, [])).2.2.2 = [] := by
  rw [Access.run, validatedIn]
  split_ifs
  · rfl
  · rfl
  cases op with
  | invec mh i f =>
    obtain rfl := List.mem_singleton.mp hv
    rw [Access.watched, Access.body, if_neg hc]
  | outvec mh o f =>
    obtain rfl := List.mem_singleton.mp hv
    rw [Access.watched, Access.body, if_neg hc]
  | invecOutvec mh i o f =>
    rw [Access.watched, Access.body]
    by_cases hi : c.Startable ⟨false, i.toNat⟩
    · have ho : ¬ c.Startable ⟨true, o.toNat⟩ := by
        rcases List.mem_pair.mp hv with rfl | rfl
        · exact absurd hi hc
        · exact hc
      dsimp only
      rw [if_pos hi, if_neg (mt (startable_sfnStart (by simp)).mp ho)]
    · rw [if_neg hi]

/-- Where all vectors can be started, it does. -/
theorem shown_of_startable (op : Access τ ρ) (hh : d.msg.handle = op.msgHandle)
    (hty : 0 ≤ d.msg.msgType) (hd : ∀ v ∈ op.vecs, d.Startable v) (w : τ) :
    (op.watched.run svcBookkeeping d (w, [])).2.2.2 ≠ [] := by
  have hh : ¬ d.msg.handle ≠ op.watched.msgHandle := by
    cases op <;> exact not_not.mpr hh
  rw [Access.run, validatedIn, if_neg hh, if_neg (not_lt.mpr hty)]
  cases op with
  | invec mh i f =>
    rw [Access.watched, Access.body, if_pos (hd _ (by simp [Access.vecs]))]
    dsimp only
    split_ifs <;> simp
  | outvec mh o f =>
    rw [Access.watched, Access.body, if_pos (hd _ (by simp [Access.vecs]))]
    dsimp only
    split_ifs <;> simp
  | invecOutvec mh i o f =>
    rw [Access.watched, Access.body, if_pos (hd _ (by simp [Access.vecs]))]
    dsimp only
    rw [if_pos ((startable_svcStart (by simp)).1.mpr (hd _ (by simp [Access.vecs])))]
    split_ifs <;> simp

/-- **An operation that repeats is seen**: only one of the closures runs. -/
theorem shown_of_repeats (h : Alike c d) (op : Access τ ρ) (hr : op.Repeats d) (w : τ) :
    (op.watched.run sfnBookkeeping c (w, [])).2.2.2 ≠
      (op.watched.run svcBookkeeping d (w, [])).2.2.2 := by
  obtain ⟨hh, hty, hd, v, hv, hu⟩ := hr
  have hc : ¬ c.Startable v := fun hc => by
    have := ((h.startable_iff v).mp hc).2
    rw [hu] at this
    cases this
  rw [shown_of_not_startable op hv hc]
  exact (shown_of_startable op hh hty hd w).symm

/-! ## A sequence of operations -/

section

variable {n p : ℕ} {s : SpmFn} {t : SpmIpc n} (others : τ × List Slice → SvcStackFrame)
  (f : SfnCall (SpmIpc n))

/-- The active connections of both SPMs. -/
structure Paired (p : ℕ) (s : SpmFn) (t : SpmIpc n) : Prop where
  good : Good s
  active : s.connections.value.Active
  onTop : OnTop p t
  alike : Alike s.connections.value.topSlot t.top

theorem Paired.step (h : Paired p s t) {c : Connection} {t' : SpmIpc n} (ht : OnTop p t')
    (hc : Alike c t'.top) :
    Paired p (LawfulConnStore.put (s.connections.value.filled c) s) t' where
  good := ⟨h.good.free, h.good.wf.filled h.active.1 c⟩
  active := ConnectionArray.active_filled h.good.wf h.active.1 c
  onTop := ht
  alike := by
    have htop : (s.connections.value.filled c).topSlot = c :=
      ConnectionArray.topSlot_filled h.good.wf h.active.1 c
    exact htop.symm ▸ hc

theorem watch_sfn (h : Paired p s t) (op : Access τ ρ) (w : τ) :
    watch SfnApi.access op ⟨s, w⟩ =
      let x := op.watched.run sfnBookkeeping s.connections.value.topSlot (w, [])
      ((x.1, x.2.2.2), ⟨LawfulConnStore.put (s.connections.value.filled x.2.1) s, x.2.2.1⟩) := by
  rw [watch, sfnAccess_eq h.good h.active]
  rfl

theorem trace_iff (h : Paired p s t) (ops : List (Access τ ρ)) (w : τ) :
    SameOutcome (trace SfnApi.access ops ⟨s, w⟩)
        (trace (SvcApi.access (Hosted.svcCall others f)) ops ⟨t, w⟩) ↔
      NoneRepeats (SvcApi.access (Hosted.svcCall others f)) ops ⟨t, w⟩ := by
  induction ops generalizing s t w with
  | nil => exact iff_of_true ⟨rfl, h.alike.committed.symm⟩ trivial
  | cons op ops ih =>
    rw [NoneRepeats, trace, trace, watch_sfn h]
    have hsvc := svcAccess_eq others f h.onTop op.watched (w, [])
    rw [watch]
    dsimp only
    rcases hr : SvcApi.access (Hosted.svcCall others f) op.watched ⟨t, w, []⟩ with ⟨r, t', w', l⟩
    rw [hr] at hsvc
    obtain ⟨hon, hres, htop, hrest⟩ := hsvc
    dsimp only at hon hres htop hrest ⊢
    by_cases hrep : op.Repeats t.top
    · refine iff_of_false (fun hsame => ?_) fun hb => hb.1 hrep
      have hfst := List.cons.inj hsame.1
      have hshown := (Prod.mk.inj hfst.1).2
      rw [show l = _ from congrArg Prod.snd hrest] at hshown
      exact shown_of_repeats h.alike op hrep w hshown
    · have hend := alike_run h.alike op.watched (mt (repeats_watched op _).mp hrep) (w, [])
      generalize op.watched.run sfnBookkeeping s.connections.value.topSlot (w, []) = x at hend ⊢
      have hpair : Paired p (LawfulConnStore.put (s.connections.value.filled x.2.1) s) t' :=
        h.step hon (htop ▸ hend.alike)
      have hx : (x.1, x.2.2.2) = (r, l) := by
        rw [hres, hend.result, hend.rest, ← hrest]
      have hw : x.2.2.1 = w' := by
        rw [hend.rest, ← hrest]
      have hrec := ih hpair w'
      rw [hx, hw, iff_true_intro hrep, true_and, ← hrec, SameOutcome, SameOutcome]
      dsimp only
      rw [List.cons_inj_right]

/-- A call that both SPMs have just entered. -/
theorem paired_of_enter {c : Connection} (hc : c.Fresh) {s₀ : SpmFn} {t₀ : SpmIpc n} {b b' : Bool}
    (hs : Good s₀) (ht : Good t₀) (hes : SpmFn.enter c s₀ = (.ok b, s))
    (het : SpmIpc.enter c t₀ = (.ok b', t)) : ∃ p, Paired p s t := by
  obtain ⟨htop, p, hp⟩ := onTop_of_enter ht het
  obtain ⟨hfree, hlt, hconns⟩ := LawfulSpm.enter_ok hs.free hs.wf hes
  have hconns : s.connections.value = s₀.connections.value.pushed c := hconns
  have hs' : s.connections.value.topSlot = c := by
    rw [hconns]
    exact ConnectionArray.topSlot_pushed hlt c
  refine ⟨p, ⟨hfree, ?_⟩, ?_, hp, ?_⟩
  · rw [show LawfulConnStore.conns s = _ from hconns]
    exact hs.wf.pushed hlt c
  · rw [hconns]
    exact ConnectionArray.active_pushed hlt c
  · rw [hs', htop]
    exact .of_fresh hc

variable {perm : PermissionOracle} {handle : ServiceHandle} {ctrlParam : CtrlParam}
  {ins : List FFInVec} {outs outs' : List FFOutVec} {caller : CallerAttributes} {c : Connection}

/-- **On every accepted connection the two APIs give the same results, show the closures the same
slices and commit the same lengths, exactly when no operation starts a released vector again.** -/
theorem apis_agree_iff
    (hacc : (callFromSlices perm handle ctrlParam ins outs caller).1 = .ok (c, outs'))
    {s₀ : SpmFn} {t₀ : SpmIpc n} {b b' : Bool} (hs : Good s₀) (ht : Good t₀)
    (hes : SpmFn.enter c s₀ = (.ok b, s)) (het : SpmIpc.enter c t₀ = (.ok b', t))
    (ops : List (Access τ ρ)) (w : τ) :
    SameOutcome (trace SfnApi.access ops ⟨s, w⟩)
        (trace (SvcApi.access (Hosted.svcCall others f)) ops ⟨t, w⟩) ↔
      NoneRepeats (SvcApi.access (Hosted.svcCall others f)) ops ⟨t, w⟩ := by
  obtain ⟨_, -, -, hA⟩ := callFromSlices_ok hacc
  obtain ⟨p, hp⟩ := paired_of_enter hA.fresh hs ht hes het
  exact trace_iff others f hp ops w

end

/-! ## A call with two vectors -/

namespace OneProcess

/-- 16 bytes in and 8 bytes out. -/
def inOutAccept : Except StatusCode (Connection × List FFOutVec) :=
  (callFromSlices (fun _ _ _ _ => true) .crypto (.new 1 1 true 1 true) [⟨0x28000000, 16⟩]
    [⟨0x28000100, 8⟩] .nsUnprivileged).1

def inOutConn : Connection := (inOutAccept.toOption.map Prod.fst).getD default

def fnEntered : SpmFn := (SpmFn.enter inOutConn (.new fun _ => none)).2

def ipcEntered : SpmIpc 1 := (SpmIpc.enter inOutConn spm).2

def readIn : Access Unit ℕ := .invec .crypto 0 fun invec w => (invec.len.toNat, w)

/-- Reports four bytes too many. -/
def writeTooMuch : Access Unit ℕ := .outvec .crypto 0 fun outvec w => ((0, outvec.len + 4), w)

def noOthers : Unit × List Slice → SvcStackFrame := fun _ => ⟨0, 0, 0, 0, 0, 0, 0, 0⟩

theorem accept_inOut : inOutAccept = .ok (inOutConn, [⟨0x28000100, 8⟩]) := by decide

theorem enter_fn : SpmFn.enter inOutConn (.new fun _ => none) = (.ok false, fnEntered) :=
  Prod.ext (by decide) rfl

theorem enter_ipc : SpmIpc.enter inOutConn spm = (.ok true, ipcEntered) := Prod.ext (by decide) rfl

end OneProcess

open OneProcess in
/-- A reported length that is too large is refused by both, and blocks the vector for both. -/
theorem apis_agree_too_long :
    SameOutcome (trace SfnApi.access [readIn, writeTooMuch, writeTooMuch] ⟨fnEntered, ()⟩)
      (trace (SvcApi.access (Hosted.svcCall noOthers refuseCalls))
        [readIn, writeTooMuch, writeTooMuch] ⟨ipcEntered, ()⟩) :=
  (apis_agree_iff noOthers refuseCalls accept_inOut ⟨rfl, ConnectionArray.wf_new⟩
    ⟨rfl, ConnectionArray.wf_new⟩ enter_fn enter_ipc _ _).mpr (by decide)

open OneProcess in
/-- An input vector can be read twice through `SvcApi` only. -/
theorem not_apis_agree_read_twice :
    inOutAccept = .ok (inOutConn, [⟨0x28000100, 8⟩]) ∧
      SpmFn.enter inOutConn (.new fun _ => none) = (.ok false, fnEntered) ∧
      SpmIpc.enter inOutConn spm = (.ok true, ipcEntered) ∧
      ¬ SameOutcome (trace SfnApi.access [readIn, readIn] ⟨fnEntered, ()⟩)
        (trace (SvcApi.access (Hosted.svcCall noOthers refuseCalls)) [readIn, readIn]
          ⟨ipcEntered, ()⟩) := by
  refine ⟨accept_inOut, enter_fn, enter_ipc, ?_⟩
  rintro ⟨h, -⟩
  have hsfn : (trace SfnApi.access [readIn, readIn] ⟨fnEntered, ()⟩).1 =
      [(.ok 16, [⟨0x28000000, 16⟩]), (.error .programmerError, [])] := by decide
  have hsvc : (trace (SvcApi.access (Hosted.svcCall noOthers refuseCalls)) [readIn, readIn]
      ⟨ipcEntered, ()⟩).1 = [(.ok 16, [⟨0x28000000, 16⟩]), (.ok 16, [⟨0x28000000, 16⟩])] := by
    decide
  rw [hsfn, hsvc] at h
  exact absurd h (by decide)

end RuSpe
