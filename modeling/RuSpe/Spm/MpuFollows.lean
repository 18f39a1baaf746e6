import RuSpe.Spm.IpcRun

set_option autoImplicit false

/-!
# The MPU follows the active connection

Every region of a programmed configuration was asked for by `apply_mpu_config`: for the ROM or the
RAM of the process, for a custom region of its platform, or for a vector that is in use now. What
unprivileged code may read or write is bounded by these.

* `Readable`, `Writable`: the bounds;
* `Within`, `within_tryAllocate`, …: one lemma for each function that builds a configuration;
* **`mpuFollows_of_reachable`**: the bounds hold whenever code of a process runs.
-/

namespace RuSpe

open Armv8Mpu (Access Region)
open SpmIpc

/-! ## The bounds -/

/-- The bytes from `start` up to `limit`. -/
def InWindow (start limit a : Usize) : Prop := start ≤ a ∧ a < limit

instance (start limit a : Usize) : Decidable (InWindow start limit a) :=
  inferInstanceAs (Decidable (_ ∧ _))

/-- The `size` bytes from `base` on. -/
def InRegion (base size a : Usize) : Prop :=
  base.toNat ≤ a.toNat ∧ a.toNat < base.toNat + size.toNat

/-- The `size` bytes from `base` on, rounded out to 32 bytes. -/
def Rounded (base size a : Usize) : Prop :=
  base.toNat / 32 * 32 ≤ a.toNat ∧ a.toNat < (base.toNat + size.toNat + 31) / 32 * 32

/-- What `proc` may read while it serves `c`. -/
inductive Readable (platform : IpcPlatform) (proc : ServiceProcess) (c : Connection) (a : Usize) :
    Prop
  | rom (h : InWindow proc.vectors.romStart proc.vectors.romLimit a)
  | ram (h : InWindow proc.vectors.ramStart proc.vectors.ramLimit a)
  | custom (region : CustomMpuRegion) (hr : region ∈ platform.customMpuRegions proc.handle)
      (h : InRegion region.base region.size a)
  | vec (v : Vec) (n : Usize) (hv : c.Open v) (hn : c.size v = some n) (h : Rounded (c.base v) n a)

/-- What `proc` may write while it serves `c`. -/
inductive Writable (platform : IpcPlatform) (proc : ServiceProcess) (c : Connection) (a : Usize) :
    Prop
  | ram (h : InWindow proc.vectors.ramStart proc.vectors.ramLimit a)
  | custom (region : CustomMpuRegion) (hr : region ∈ platform.customMpuRegions proc.handle)
      (hp : region.permissions.grants .write = true) (h : InRegion region.base region.size a)
  | outvec (v : Vec) (n : Usize) (hv : c.Open v) (ho : v.isOutvec = true) (hn : c.size v = some n)
      (h : Rounded (c.base v) n a)

/-- The two bounds as one; execution is not bounded here. -/
def Permitted (platform : IpcPlatform) (proc : ServiceProcess) (c : Connection) :
    Access → Usize → Prop
  | .read => Readable platform proc c
  | .write => Writable platform proc c
  | .execute => fun _ => True

/-! ## Configurations -/

/-- What the regions of `config` let unprivileged code read and write is in `P`. -/
def Within (P : Access → Usize → Prop) (config : MpuConfig 8) : Prop :=
  ∀ i : Fin 8, ∀ r ∈ getElem config i i.isLt, ∀ acc a, acc ≠ .execute → r.Covers a →
    r.allows acc = true → P acc a

variable {P : Access → Usize → Prop} {config : MpuConfig 8}

theorem within_default : Within P (MpuConfig.default 8) := by
  intro i r hr
  simp [MpuConfig.default] at hr

/-- Reading and writing, the stored pair grants what the permission says. -/
theorem allows_regionFor_of_ne {acc : Access} (h : acc ≠ .execute) (base size : Usize)
    (p : Permissions) : (regionFor base size p).allows acc = p.grants acc := by
  rw [allows_regionFor]
  cases acc <;> cases p <;> simp [Permissions.grants] at h ⊢

theorem within_tryAllocate {base size : Usize} {p : Permissions} (h : Within P config)
    (hnew : ∀ acc a, p.grants acc = true → InRegion base size a → P acc a) :
    Within P (tryAllocate base size p config) := by
  rw [tryAllocate]
  cases ha : allocateRegion base size p config with
  | error e => exact h
  | ok config' =>
    obtain ⟨hal, -, j, -, rfl⟩ := allocateRegion_eq_ok_iff.mp ha
    intro i r hr acc a hx hc hallow
    by_cases hij : (j : ℕ) = i
    · obtain rfl : regionFor base size p = r := by simpa [hij] using hr
      rw [allows_regionFor_of_ne hx] at hallow
      exact hnew acc a hallow ((covers_regionFor base size p hal a).mp hc).2
    · exact h i r (by simpa [hij] using hr) acc a hx hc hallow

/-- The bytes between the two aligned ends of `allocate_vec`. -/
theorem rounded_of_inRegion {base size a : Usize}
    (h : InRegion (base &&& ~~~0x1F#32)
      (((base + size + 0x1F) &&& ~~~0x1F#32) - (base &&& ~~~0x1F#32)) a) :
    Rounded base size a := by
  have hmask : ~~~0x1F#32 = 0xFFFFFFE0#32 := by decide
  rw [InRegion] at h
  rw [hmask, BitVec.toNat_sub, Armv8Mpu.toNat_and_base, Armv8Mpu.toNat_and_base, BitVec.toNat_add,
    BitVec.toNat_add] at h
  rw [show (0x1F : Usize).toNat = 31 from rfl] at h
  rw [Rounded]
  have hb := base.isLt
  have hz := size.isLt
  omega

variable {platform : IpcPlatform} {proc : ServiceProcess} {c : Connection}

theorem within_processConfig :
    Within (Permitted platform proc c) (processConfig platform proc) := by
  rw [processConfig]
  refine List.foldlRecOn _ _ (within_tryAllocate (within_tryAllocate within_default ?_) ?_) ?_
  · intro acc a hg h
    have hin : InWindow proc.vectors.romStart proc.vectors.romLimit a := by
      simp only [InRegion, ServiceVectors.romRegion, saturatingSub] at h
      split_ifs at h <;> rw [InWindow] <;> bv_omega
    cases acc with
    | read => exact .rom hin
    | write => exact absurd hg (by decide)
    | execute => trivial
  · intro acc a hg h
    have hin : InWindow proc.vectors.ramStart proc.vectors.ramLimit a := by
      simp only [InRegion, ServiceVectors.ramRegion, saturatingSub] at h
      split_ifs at h <;> rw [InWindow] <;> bv_omega
    cases acc with
    | read => exact .ram hin
    | write => exact .ram hin
    | execute => trivial
  · intro config hc region hr
    refine within_tryAllocate hc fun acc a hg h => ?_
    cases acc with
    | read => exact .custom region hr h
    | write => exact .custom region hr hg h
    | execute => trivial

theorem within_allocateMapped {p : Permissions} {v : Vec}
    (h : Within (Permitted platform proc c) config)
    (hp : p.grants .write = true → v.isOutvec = true) :
    Within (Permitted platform proc c) (allocateMapped c p config v) := by
  rw [allocateMapped]
  split_ifs with ho
  swap
  · exact h
  cases hn : c.size v with
  | none => exact h
  | some n =>
    dsimp only
    rw [allocateVec]
    split_ifs with h0
    swap
    · exact h
    refine within_tryAllocate h fun acc a hg hin => ?_
    have hr := rounded_of_inRegion hin
    cases acc with
    | read => exact .vec v n ho hn hr
    | write => exact .outvec v n ho (hp hg) hn hr
    | execute => trivial

theorem within_vecConfig (h : Within (Permitted platform proc c) config) :
    Within (Permitted platform proc c) (vecConfig c config) := by
  rw [vecConfig]
  refine List.foldlRecOn _ _ (List.foldlRecOn _ _ h ?_) ?_
  · intro config hc i _
    exact within_allocateMapped hc fun hw => absurd hw (by decide)
  · intro config hc i _
    exact within_allocateMapped hc fun _ => rfl

/-- A register pair that allows an access stands for a region of the configuration. -/
theorem permitted_of_allows (h : Within P config) {acc : Access} {a : Usize} (hx : acc ≠ .execute)
    (ha : Armv8Mpu.Allows (configureMpu config).toList acc a) : P acc a := by
  obtain ⟨r, hr, hc, hallow⟩ := ha.exists_covers
  obtain ⟨i, hi, rfl⟩ := List.getElem_of_mem hr
  have hi8 : i < 8 := by simpa using hi
  cases hreg : config[i] with
  | none =>
    have : ¬ (Region.mk 0 0).Covers a := fun hcov => Bool.noConfusion hcov.1
    simp [configureMpu, hreg] at hc
    exact absurd hc this
  | some region =>
    simp [configureMpu, hreg] at hc hallow
    exact h ⟨i, hi8⟩ region hreg acc a hx hc hallow

/-! ## Runs -/

namespace IpcRun

variable {n : ℕ} {processes : Vector ServiceProcess n} {mpu : Vector Region 8}

/-- The states of the runs that start with a new SPM. -/
def Reachable (platform : IpcPlatform) (processes : Vector ServiceProcess n)
    (mpu : Vector Region 8) : IpcRun n → Prop :=
  Relation.ReflTransGen (fun r r' => ∃ w, Step r w r') ⟨SpmIpc.new platform processes mpu, []⟩

theorem Reachable.inv {r : IpcRun n} (h : Reachable platform processes mpu r) :
    Inv platform processes r := by
  induction h with
  | refl => exact inv_new mpu
  | tail _ hs ih =>
    obtain ⟨w, hs⟩ := hs
    exact inv_step ih hs

/-- The process of the innermost invocation, and what the MPU lets it read and write. -/
structure BoundedBy (platform : IpcPlatform) (s : SpmIpc n) (proc : ServiceProcess) : Prop where
  own : s.state.value.connections.Active ∧ s.top.msg.handle = proc.handle
  read : ∀ a, Armv8Mpu.Allows s.mpu.toList .read a → Readable platform proc s.top a
  write : ∀ a, Armv8Mpu.Allows s.mpu.toList .write a → Writable platform proc s.top a

theorem Inv.boundedBy {s : SpmIpc n} {i : Invocation} {rest : List Invocation}
    (h : Inv platform processes ⟨s, i :: rest⟩) :
    ∃ proc, processes[i.proc]? = some proc ∧ BoundedBy platform s proc := by
  have ht := h.onTop
  obtain ⟨proc, hp, hh⟩ := SpmIpc.findProcessIndex_eq_some ht.find
  have hmpu : s.mpu = configureMpu (vecConfig s.top (processConfig platform proc)) := by
    rw [h.mpu i rfl proc hp, ht.configFor, show s.platform = platform from h.platform_eq]
  refine ⟨proc, ?_, ⟨ht.active, hh.symm⟩, fun a ha => ?_, fun a ha => ?_⟩
  · rw [← h.processes_eq]
    exact hp
  · rw [hmpu] at ha
    exact permitted_of_allows (within_vecConfig within_processConfig) (by decide) ha
  · rw [hmpu] at ha
    exact permitted_of_allows (within_vecConfig within_processConfig) (by decide) ha

/-- **Whenever code of a process runs, the MPU lets it read and write no more than its own windows,
its custom regions and the vectors of its own connection that are in use.** -/
theorem boundedBy_of_reachable {r : IpcRun n} (h : Reachable platform processes mpu r)
    {i : Invocation} (hi : i ∈ r.invs.head?) :
    ∃ proc, processes[i.proc]? = some proc ∧ BoundedBy platform r.spm proc := by
  obtain ⟨s, invs⟩ := r
  cases invs with
  | nil => cases hi
  | cons j rest =>
    obtain rfl := Option.some.inj hi
    exact h.inv.boundedBy

open OneProcess in
theorem reachable_init : Reachable OneProcess.platform (Vector.replicate 1 crypto)
    (Vector.replicate 8 ⟨0, 0⟩) ⟨entered, [⟨0, conn.msg, .init, 0⟩]⟩ := by
  have hcall : Step ⟨OneProcess.spm, []⟩ [] ⟨entered, [⟨0, conn.msg, .initStart, 0⟩]⟩ :=
    Step.called (r := ⟨OneProcess.spm, []⟩) (canCall_nil 0) enter_conn rfl
  have hinit : Step ⟨entered, [⟨0, conn.msg, .initStart, 0⟩]⟩ (startInit crypto.vectors).1
      ⟨entered, [⟨0, conn.msg, .init, 0⟩]⟩ :=
    Step.startInit rfl rfl
  exact (Relation.ReflTransGen.single ⟨_, hcall⟩).tail ⟨_, hinit⟩

open OneProcess in
theorem boundedBy_init :
    ∃ proc, (Vector.replicate 1 crypto)[0]? = some proc ∧
      BoundedBy OneProcess.platform entered proc :=
  boundedBy_of_reachable reachable_init rfl

end IpcRun

end RuSpe
