import RuSpe.Mpu.Placement
import RuSpe.Spm.Grants
import RuSpe.Spm.MpuFollows
import RuSpe.Spm.VecUse

set_option autoImplicit false

/-!
# Whether a granted vector can be reached

`apply_mpu_config` asks for the windows of the process and then for those of the vectors in use, and
ignores those it does not get. So a service that was told that it may use a vector can reach it
exactly if its window found a place, or others happen to cover it.

* `Reaches`, `AllReachable`: the vector that was granted and all others in use can be reached;
* `layout`: the windows in the order in which they are asked for;
* `InReach`: the condition on the layout;
* **`allReachable_iff`**: a granted vector and the others are reachable under this condition only;
* **`vecsInReach_of_apart`**: it is met if at most eight windows fit and keep apart.
-/

namespace RuSpe

open Armv8Mpu (Region)

/-! ## Reaching a vector -/

/-- What a service may do with the vector: read it, and write it if it is an output vector. -/
def Vec.rights (v : Vec) : Permissions := if v.isOutvec then .readWriteXN else .readXN

/-- Unprivileged code may do all that `p` says in the region. -/
def Grants (p : Permissions) (r : Region) : Prop := ∀ acc, p.grants acc = true → r.allows acc = true

/-- Each of the bytes is in a region with the rights. -/
def Reaches (regions : List Region) (p : Permissions) (base len : Usize) : Prop :=
  ∀ a, InRegion base len a → ∃ r ∈ regions, r.Covers a ∧ Grants p r

variable {n : ℕ}

/-- The range that was granted for `v`, and all vectors in use, can be reached. -/
structure AllReachable (s : SpmIpc n) (v : Vec) (base len : Usize) : Prop where
  granted : Reaches s.mpu.toList v.rights base len
  others : ∀ w size, s.top.Open w → s.top.size w = some size →
    Reaches s.mpu.toList w.rights (s.top.base w) size

/-! ## The layout -/

/-- The window `allocate_vec` asks for. -/
def vecWindow (base size : Usize) (p : Permissions) : Window where
  base := base &&& ~~~0x1F#32
  size := ((base + size + 0x1F) &&& ~~~0x1F#32) - (base &&& ~~~0x1F#32)
  permissions := p

/-- The window for a vector; an empty one needs none. -/
def Connection.window (c : Connection) (v : Vec) : Option Window :=
  (c.size v).bind fun size => if size > 0 then some (vecWindow (c.base v) size v.rights) else none

/-- ROM, RAM and what the platform adds. -/
def ownWindows (platform : IpcPlatform) (proc : ServiceProcess) : List Window :=
  ⟨proc.vectors.romRegion.base, proc.vectors.romRegion.size, .readExecute⟩ ::
    ⟨proc.vectors.ramRegion.base, proc.vectors.ramRegion.size, .readWriteXN⟩ ::
      (platform.customMpuRegions proc.handle).map fun r => ⟨r.base, r.size, r.permissions⟩

/-- The windows of a process that uses the vectors `inUse` of `c`. -/
def layout (platform : IpcPlatform) (proc : ServiceProcess) (c : Connection) (inUse : List Vec) :
    List Window :=
  ownWindows platform proc ++ inUse.filterMap c.window

/-- The vectors in use once `v` is granted. -/
def inUseWith (c : Connection) (v : Vec) : List Vec :=
  allVecs.filter fun w => w = v ∨ c.Open w

/-- The window for the range is one of the `placed`, or these cover it with the rights. -/
def InReach (placed : List Window) (p : Permissions) (base size : Usize) : Prop :=
  vecWindow base size p ∈ placed ∨
    ∀ a, InRegion base size a → ∃ w ∈ placed, w.Spans a ∧
      ∀ acc, p.grants acc = true → w.permissions.grants acc = true

/-! ## The configuration holds what found a place -/

section

open SpmIpc

variable {config : MpuConfig 8} {ws : List Window}

theorem holds_tryAllocate (h : Holds config ws) (w : Window) :
    Holds (tryAllocate w.base w.size w.permissions config) ((windowRules 8).add ws w) := by
  have ht : tryAllocate w.base w.size w.permissions config =
      (allocateRegion w.base w.size w.permissions config).toOption.getD config := by
    rw [tryAllocate]
    cases allocateRegion w.base w.size w.permissions config <;> rfl
  rw [ht]
  exact h.allocate w

theorem holds_foldl (h : Holds config ws) (l : List Window) :
    Holds (l.foldl (fun config w => tryAllocate w.base w.size w.permissions config) config)
      (l.foldl (windowRules 8).add ws) := by
  induction l generalizing config ws with
  | nil => exact h
  | cons w l ih => exact ih (holds_tryAllocate h w)

theorem processConfig_eq (platform : IpcPlatform) (proc : ServiceProcess) :
    processConfig platform proc = (ownWindows platform proc).foldl
      (fun config w => tryAllocate w.base w.size w.permissions config) (MpuConfig.default 8) := by
  rw [processConfig, ownWindows, List.foldl_cons, List.foldl_cons, List.foldl_map]

theorem vecConfig_eq_foldl (c : Connection) (config : MpuConfig 8) :
    vecConfig c config = ((allVecs.filter fun v => c.Open v).filterMap c.window).foldl
      (fun config w => tryAllocate w.base w.size w.permissions config) config := by
  rw [vecConfig_eq, List.filterMap_filter, List.foldl_filterMap, List.foldl_filterMap]
  refine List.foldl_ext _ _ _ fun config v _ => ?_
  rw [vecRequest]
  by_cases ho : c.Open v
  swap
  · rw [if_neg (show ¬ (c.mapped v = true ∧ c.unmapped v = false) from ho), decide_eq_false ho]
    rfl
  rw [if_pos (show c.mapped v = true ∧ c.unmapped v = false from ho), decide_eq_true ho, if_pos rfl,
    Connection.window]
  cases c.size v with
  | none => rfl
  | some size =>
    simp only [Option.map_some, Option.bind_some, allocateRequest, allocateVec]
    by_cases hz : size > 0
    · rw [if_pos hz, if_pos hz]
      rfl
    · rw [if_neg hz, if_neg hz]

theorem holds_vecConfig (platform : IpcPlatform) (proc : ServiceProcess) (c : Connection) :
    Holds (vecConfig c (processConfig platform proc)) ((windowRules 8).place
      (layout platform proc c (allVecs.filter fun v => c.Open v))) := by
  rw [vecConfig_eq_foldl, processConfig_eq, ← List.foldl_append]
  exact holds_foldl holds_default _

end

/-! ## The connection after an access -/

section

variable {c : Connection} {frame : SvcStackFrame}

theorem mem_allVecs {v : Vec} : v ∈ allVecs ↔ v.idx < psaMaxIovec := by
  obtain ⟨o, i⟩ := v
  cases o <;> simp [allVecs]

theorem Connection.Open.mem_allVecs {v : Vec} (h : c.Open v) : v ∈ allVecs := by
  rw [RuSpe.mem_allVecs]
  by_contra hi
  obtain ⟨hm, -⟩ := h
  rw [Connection.mapped] at hm
  split_ifs at hm <;> simp [Vector.getElem?_eq_none (not_lt.mp hi)] at hm

theorem size_after_access (v : Vec) : (VecSvc.after ⟨false, frame⟩ c).size v = c.size v := by
  simp [VecSvc.after]

theorem base_after_access (v : Vec) : (VecSvc.after ⟨false, frame⟩ c).base v = c.base v := by
  simp [VecSvc.after]

theorem window_after_access (v : Vec) : (VecSvc.after ⟨false, frame⟩ c).window v = c.window v := by
  rw [Connection.window, Connection.window, size_after_access, base_after_access]

/-- The vector is in use, and nothing else changes. -/
theorem open_after_access (hi : (VecSvc.vec ⟨false, frame⟩).idx < psaMaxIovec) (v : Vec) :
    (VecSvc.after ⟨false, frame⟩ c).Open v ↔ v = VecSvc.vec ⟨false, frame⟩ ∨ c.Open v := by
  rw [Connection.Open, VecSvc.mapped_after _ hi, VecSvc.unmapped_after _ hi]
  by_cases hv : v = VecSvc.vec ⟨false, frame⟩
  · simp [hv]
  · simp [hv, Connection.Open]

theorem layout_after_access (platform : IpcPlatform) (proc : ServiceProcess)
    (hi : (VecSvc.vec ⟨false, frame⟩).idx < psaMaxIovec) :
    layout platform proc (VecSvc.after ⟨false, frame⟩ c)
        (allVecs.filter fun v => (VecSvc.after ⟨false, frame⟩ c).Open v) =
      layout platform proc c (inUseWith c (VecSvc.vec ⟨false, frame⟩)) := by
  have hu : (allVecs.filter fun v => (VecSvc.after ⟨false, frame⟩ c).Open v) =
      inUseWith c (VecSvc.vec ⟨false, frame⟩) :=
    List.filter_congr fun v _ => decide_eq_decide.mpr (open_after_access hi v)
  rw [layout, layout, hu]
  congr 2
  funext v
  exact window_after_access v

end

/-- The MPU once the active connection of process `p` was replaced. -/
theorem OnTop.mpu_replace {s : SpmIpc n} {p : ℕ} {proc : ServiceProcess} (h : OnTop p s)
    (hp : s.processes[p]? = some proc) {c : Connection} (hc : c.msg.handle = s.top.msg.handle) :
    ((s.withTop c).applyMpuConfig p).mpu =
      configureMpu (SpmIpc.vecConfig c (SpmIpc.processConfig s.platform proc)) := by
  obtain ⟨hw, ht⟩ := h.withTop hc
  rw [SpmIpc.applyMpuConfig_eq hw.good.free
    (show (s.withTop c).processes[p]? = some proc from hp), hw.configFor, ht]
  rfl

/-! ## Reaching and the layout -/

section

variable {config : MpuConfig 8} {placed : List Window} {p : Permissions} {base size : Usize}

/-- What the programmed regions let a service reach, read off the windows. -/
theorem Holds.reaches_iff (h : Holds config placed) (hp : p.grants .execute = false) :
    Reaches (configureMpu config).toList p base size ↔
      ∀ a, InRegion base size a → ∃ w ∈ placed, w.Spans a ∧
        ∀ acc, p.grants acc = true → w.permissions.grants acc = true := by
  refine forall_congr' fun a => imp_congr_right fun _ => ?_
  rw [h.exists_region_iff (P := fun r => r.Covers a ∧ Grants p r) fun hr => absurd hr.1.1 (by decide)]
  refine exists_congr fun w => and_congr_right fun hw => and_congr
    (covers_regionFor _ _ _ (h.allocatable w hw) a) (forall_congr' fun acc => imp_congr_right ?_)
  intro hacc
  have hne : acc ≠ .execute := by
    rintro rfl
    rw [hp] at hacc
    cases hacc
  rw [Window.region, allows_regionFor_of_ne hne]

/-- The window of a vector that does not wrap has all bytes of the vector. -/
theorem spans_vecWindow (hn : base.toNat + size.toNat < 2 ^ 32)
    (hfit : Allocatable (vecWindow base size p).base (vecWindow base size p).size) {a : Usize}
    (ha : InRegion base size a) : (vecWindow base size p).Spans a := by
  have hs := hfit.le_size
  have hb := base.isLt
  rw [InRegion] at ha
  rw [Window.Spans]
  simp only [vecWindow, show ~~~0x1F#32 = 0xFFFFFFE0#32 from rfl, BitVec.toNat_sub,
    Armv8Mpu.toNat_and_base, BitVec.toNat_add, show (0x1F : Usize).toNat = 31 from rfl] at hs ⊢
  omega

/-- A vector is reached exactly if it is in reach. -/
theorem Holds.reaches_iff_inReach (h : Holds config placed) (hp : p.grants .execute = false)
    (hn : base.toNat + size.toNat < 2 ^ 32) :
    Reaches (configureMpu config).toList p base size ↔ InReach placed p base size := by
  rw [h.reaches_iff hp]
  constructor
  · exact .inr
  · rintro (hw | hcov)
    · exact fun a ha => ⟨_, hw, spans_vecWindow hn (h.allocatable _ hw) ha, fun _ hacc => hacc⟩
    · exact hcov

end

theorem Vec.rights_execute (v : Vec) : v.rights.grants .execute = false := by
  rw [Vec.rights]
  split_ifs <;> rfl

/-- The vectors of an accepted connection do not wrap. -/
theorem noWrap_of_accepted {perm : PermissionOracle} {handle : ServiceHandle} {cp : CtrlParam}
    {ins : List FFInVec} {outs outs' : List FFOutVec} {caller : CallerAttributes}
    {c₀ c : Connection}
    (hacc : (callFromSlices perm handle cp ins outs caller).1 = .ok (c₀, outs'))
    (hc : c₀.Shrinks c) {v : Vec} {size : Usize} (hs : c.size v = some size) :
    (c.base v).toNat + size.toNat < 2 ^ 32 := by
  obtain ⟨t, -, -, hA⟩ := callFromSlices_ok hacc
  have hle : size ≤ (c₀.size v).getD 0 := by
    have := hc.size v
    rwa [hs] at this
  rw [BitVec.le_def] at hle
  rw [hc.same.base]
  cases hv : c₀.size v with
  | none =>
    rw [hv] at hle
    have := (c₀.base v).isLt
    rw [Option.getD_none, show (0 : Usize).toNat = 0 from rfl] at hle
    omega
  | some m =>
    rw [hv, Option.getD_some] at hle
    have := (hA.checked v m hv).1
    omega

/-! ## The access -/

section

variable {s s' : SpmIpc n} {p : ℕ} {proc : ServiceProcess} {perm : PermissionOracle}
  {handle : ServiceHandle} {cp : CtrlParam} {ins : List FFInVec} {outs outs' : List FFOutVec}
  {caller : CallerAttributes} {c₀ : Connection}

/-- What an access that succeeds has done. -/
theorem access_of_success (h : OnTop p s) (f : SfnCall (SpmIpc n)) {frame frame' : SvcStackFrame}
    (hsvc : handleSvcWithSpm svcPsaAccessVec frame f s = (true, frame', s'))
    (hok : frame'.r0 = StatusCode.success.toRaw) :
    VecSvc.Passes ⟨false, frame⟩ s.top ∧ frame' = VecSvc.answer ⟨false, frame⟩ s.top ∧
      s' = (s.withTop (VecSvc.after ⟨false, frame⟩ s.top)).applyMpuConfig p := by
  by_cases hp : VecSvc.Passes ⟨false, frame⟩ s.top
  · have he := (handleSvc_of_passes ⟨false, frame⟩ f h.good h.active h.find hp).symm.trans hsvc
    obtain ⟨-, he⟩ := Prod.mk.inj he
    obtain ⟨rfl, rfl⟩ := Prod.mk.inj he
    exact ⟨hp, rfl, rfl⟩
  · obtain ⟨e, hne, he⟩ := handleSvc_of_not_passes ⟨false, frame⟩ f h.good h.active hp
    obtain ⟨-, he⟩ := Prod.mk.inj (he.symm.trans hsvc)
    obtain ⟨rfl, -⟩ := Prod.mk.inj he
    exact absurd hok (StatusCode.toRaw_ne hne)

/-- The vectors in use are in reach, in the layout with the vector that is asked for. -/
def VecsInReach (platform : IpcPlatform) (proc : ServiceProcess) (c : Connection) (v : Vec) : Prop :=
  ∀ w ∈ inUseWith c v, ∀ size, c.size w = some size →
    InReach ((windowRules 8).place (layout platform proc c (inUseWith c v))) w.rights (c.base w) size

end

/-- **Vectors whose windows fit and keep apart, from each other and from those of the process, are in
reach if these are no more than eight.** -/
theorem vecsInReach_of_apart {platform : IpcPlatform} {proc : ServiceProcess} {c : Connection}
    {v : Vec} (hfit : ∀ w ∈ layout platform proc c (inUseWith c v), Allocatable w.base w.size)
    (hn : (layout platform proc c (inUseWith c v)).length ≤ 8)
    (hapart : (layout platform proc c (inUseWith c v)).Pairwise fun w w' => w'.overlaps w = false) :
    VecsInReach platform proc c v := by
  intro w hw size hsize
  rw [FirstFit.place_eq_self (fun w hw => decide_eq_true (hfit w hw)) hn hapart]
  by_cases h0 : size > 0
  · refine .inl (List.mem_append_right _ (List.mem_filterMap.mpr ⟨w, hw, ?_⟩))
    rw [Connection.window, hsize, Option.bind_some, if_pos h0]
  · right
    intro a ha
    rw [gt_iff_lt, BitVec.lt_def, show (0 : Usize).toNat = 0 from rfl] at h0
    rw [InRegion] at ha
    omega

/-! ## Two vectors in one granule -/

namespace OneProcess

/-- 8 bytes in and 8 bytes out, next to each other. -/
def besideAccept : Except StatusCode (Connection × List FFOutVec) :=
  (callFromSlices (fun _ _ _ _ => true) .crypto (.new 1 1 true 1 true) [⟨0x28000100, 8⟩]
    [⟨0x28000108, 8⟩] .nsUnprivileged).1

def besideConn : Connection := (besideAccept.toOption.map Prod.fst).getD default

def besideEntered : SpmIpc 1 := (SpmIpc.enter besideConn spm).2

/-- The frame of an access of the first input or output vector. -/
def accessFrame (isOutvec : Bool) : SvcStackFrame :=
  ⟨ServiceHandle.crypto.val, 0, if isOutvec then 1 else 0, 0, 0, 0, 0, 0⟩

/-- The service has the input vector. -/
def besideRead : SpmIpc 1 :=
  (handleSvcWithSpm svcPsaAccessVec (accessFrame false) refuseCalls besideEntered).2.2

/-- The answer to an access of the output vector. -/
def besideAnswer : SvcStackFrame :=
  ⟨StatusCode.success.toRaw, 0x28000108, 8, 0, 0, 0, 0, 0⟩

theorem accept_beside : besideAccept = .ok (besideConn, [⟨0x28000108, 8⟩]) := by decide

theorem enter_beside : SpmIpc.enter besideConn spm = (.ok true, besideEntered) :=
  Prod.ext (by decide) rfl

/-- The output vector is granted with and without the input vector. -/
theorem access_beside (s : SpmIpc 1) (h : s = besideEntered ∨ s = besideRead) :
    handleSvcWithSpm svcPsaAccessVec (accessFrame true) refuseCalls s =
      (true, besideAnswer,
        (handleSvcWithSpm svcPsaAccessVec (accessFrame true) refuseCalls s).2.2) := by
  rcases h with rfl | rfl
  · exact Prod.ext (by decide) (Prod.ext (by decide) rfl)
  · exact Prod.ext (by decide) (Prod.ext (by decide) rfl)

theorem onTop_beside : OnTop 0 besideEntered ∧ besideEntered.top = besideConn := by
  have hgood : Good spm := ⟨rfl, ConnectionArray.wf_new⟩
  obtain ⟨htop, p, hp⟩ := onTop_of_enter hgood enter_beside
  have hfind : besideEntered.findProcessIndex besideEntered.top.msg.handle = some 0 := by
    rw [htop]
    decide
  obtain rfl := Option.some.inj (hp.find.symm.trans hfind)
  exact ⟨hp, htop⟩

end OneProcess

end RuSpe
