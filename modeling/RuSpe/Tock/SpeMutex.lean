import RuSpe.Lib.HeldSection
import RuSpe.Spm.Veneers

set_option autoImplicit false

/-!
# The mutex of the non-secure kernel

A veneer that is entered while another call is inside returns an error. The processes of the
non-secure kernel can be preempted inside a call, so they reserve a mutex of the kernel around it.
The kernel does not know when the owner of the mutex is gone.

* `SpeMutex`, `SpeMutex.command`: the driver;
* `Tock.Step`, `Tock.Run`: processes that use any command of it, and the veneers between a
  reservation and its release;
* **`mutex_serializes`**: no veneer rejects them, and the replies are those of the calls in a row;
* **`never_freed`**: when the owner is gone, nobody gets the mutex again.
-/

namespace RuSpe

open GuardedSection (Body)
open HeldSection (Serial Whole begun ended serial_of_run owner_of_inside)
open LockSteps (LockStep)
open LockSteps.Lockable (locked)
open LawfulConnStore (Free)

/-! ## The driver -/

/-- A process of the kernel. One that is started again has another id. -/
abbrev ProcessId := ℕ

/-- The errors of the driver. -/
inductive ErrorCode
  | already
  | busy
  | inval
  deriving DecidableEq, Repr

/-- `CommandReturn`. -/
inductive CommandReturn
  | success
  | successU32 (value : BitVec 32)
  | failure (error : ErrorCode)
  deriving DecidableEq, Repr

/-- `Cmd`. -/
inductive Cmd
  | exists
  | reserve
  | release
  | isAvailable
  deriving DecidableEq, Repr

/-- `Cmd::from_usize`. -/
def Cmd.fromUsize (n : Usize) : Option Cmd :=
  if n = 0 then some .exists
  else if n = 1 then some .reserve
  else if n = 2 then some .release
  else if n = 3 then some .isAvailable
  else none

/-- `SpeMutex`. -/
structure SpeMutex where
  owner : Option ProcessId

namespace SpeMutex

def new : SpeMutex := ⟨none⟩

variable (self : SpeMutex) (processId : ProcessId)

/-- `reserve`. -/
def reserve : CommandReturn × SpeMutex :=
  match self.owner with
  | none => (.success, ⟨some processId⟩)
  | some ownerId =>
    if ownerId = processId then (.failure .already, self) else (.failure .busy, self)

/-- `release`. -/
def release : CommandReturn × SpeMutex :=
  match self.owner with
  | some ownerId =>
    if ownerId = processId then (.success, ⟨none⟩) else (.failure .inval, self)
  | none => (.failure .inval, self)

/-- `is_available`. -/
def isAvailable : CommandReturn :=
  if self.owner.isNone then .successU32 1 else .successU32 0

/-- `command`. Its two arguments are not used. -/
def command (cmdNum : Usize) : CommandReturn × SpeMutex :=
  if cmdNum = 0 then (.success, self)
  else
    match Cmd.fromUsize cmdNum with
    | none => (.failure .inval, self)
    | some .exists => (.success, self)
    | some .reserve => self.reserve processId
    | some .release => self.release processId
    | some .isAvailable => (self.isAvailable, self)

/-- What a command does to the owner. -/
inductive Effect
  | reserved
  | released
  | nothing
  deriving DecidableEq

/-- Which effect the reply to a command tells of. -/
def effect (cmdNum : Usize) (reply : CommandReturn) : Effect :=
  if cmdNum = 1 ∧ reply = .success then .reserved
  else if cmdNum = 2 ∧ reply = .success then .released
  else .nothing

theorem command_reserve : self.command processId 1 = self.reserve processId := rfl

theorem command_release : self.command processId 2 = self.release processId := rfl

/-- Any other command leaves the mutex alone. -/
theorem command_of_ne {cmdNum : Usize} (h₁ : cmdNum ≠ 1) (h₂ : cmdNum ≠ 2) :
    (self.command processId cmdNum).2 = self := by
  rw [command, Cmd.fromUsize]
  split_ifs <;> rfl

/-- **The reply to a command tells what it did.** -/
theorem command_cases (cmdNum : Usize) :
    (effect cmdNum (self.command processId cmdNum).1 = .reserved ∧ self.owner = none ∧
      (self.command processId cmdNum).2 = ⟨some processId⟩) ∨
    (effect cmdNum (self.command processId cmdNum).1 = .released ∧ self.owner = some processId ∧
      (self.command processId cmdNum).2 = ⟨none⟩) ∨
    (effect cmdNum (self.command processId cmdNum).1 = .nothing ∧
      (self.command processId cmdNum).2 = self ∧
      (cmdNum = 1 → self.owner ≠ none) ∧ (cmdNum = 2 → self.owner ≠ some processId)) := by
  obtain ⟨owner⟩ := self
  by_cases h₁ : cmdNum = 1
  · subst h₁
    rw [command_reserve, reserve]
    cases owner with
    | none => exact .inl ⟨rfl, rfl, rfl⟩
    | some ownerId =>
      refine .inr (.inr ?_)
      dsimp only
      split_ifs with h
      · exact ⟨rfl, rfl, fun _ => nofun, nofun⟩
      · exact ⟨rfl, rfl, fun _ => nofun, nofun⟩
  by_cases h₂ : cmdNum = 2
  · subst h₂
    rw [command_release, release]
    cases owner with
    | none => exact .inr (.inr ⟨rfl, rfl, nofun, fun _ => nofun⟩)
    | some ownerId =>
      dsimp only
      split_ifs with h
      · subst h
        exact .inr (.inl ⟨rfl, rfl, rfl⟩)
      · exact .inr (.inr ⟨rfl, rfl, nofun, fun _ he => h (Option.some.inj he)⟩)
  refine .inr (.inr ⟨?_, command_of_ne _ processId h₁ h₂, fun h => absurd h h₁,
    fun h => absurd h h₂⟩)
  rw [effect, if_neg fun h => h₁ h.1, if_neg fun h => h₂ h.1]

/-- While another process owns the mutex, a command does nothing, and a reservation is refused. -/
theorem command_of_owner {ownerId : ProcessId} (h : self.owner = some ownerId)
    (hne : ownerId ≠ processId) (cmdNum : Usize) :
    (self.command processId cmdNum).2 = self ∧
      (cmdNum = 1 → (self.command processId cmdNum).1 = .failure .busy) := by
  rcases self.command_cases processId cmdNum with ⟨-, hnone, -⟩ | ⟨-, howner, -⟩ | ⟨-, hsame, -, -⟩
  · rw [h] at hnone
    cases hnone
  · rw [h] at howner
    exact absurd (Option.some.inj howner) hne
  · refine ⟨hsame, ?_⟩
    rintro rfl
    rw [command_reserve, reserve, h]
    exact congrArg Prod.fst (if_neg hne)

end SpeMutex

/-! ## Processes -/

namespace Tock

/-- The mutex, the veneers, and the processes that are between a reservation and its release. -/
structure System (σ : Type) where
  mutex : SpeMutex
  veneers : GuardedSection.State ProcessId (LockStep σ) σ Answer
  reserved : ProcessId → Bool

/-- What a process does. -/
inductive Event
  | command (p : ProcessId) (cmdNum : Usize) (reply : CommandReturn)
  | call (p : ProcessId) (v : Veneer)
  | rejected (p : ProcessId) (v : Veneer)
  | step (p : ProcessId)
  | returned (p : ProcessId) (a : Answer)

def Event.process : Event → ProcessId
  | .command p _ _ | .call p _ | .rejected p _ | .step p | .returned p _ => p

section

variable {σ : Type} [SpmCall σ] [LockTrace σ]

def boot (s₀ : σ) : System σ := ⟨.new, ⟨false, s₀, fun _ => none⟩, fun _ => false⟩

/-- How a command changes what its process may do. A process that released the mutex goes on without
it, also where the command failed. -/
def reservedAfter (reserved : ProcessId → Bool) (p : ProcessId) (cmdNum : Usize)
    (reply : CommandReturn) : ProcessId → Bool :=
  if cmdNum = 1 ∧ reply = .success then Function.update reserved p true
  else if cmdNum = 2 then Function.update reserved p false
  else reserved

/-- The steps of all processes. Any process uses any command, when it is not inside a veneer. It
calls a veneer between a reservation and its release. -/
inductive Step : System σ → Event → System σ → Prop
  | command {x : System σ} (p : ProcessId) (cmdNum : Usize) (hp : x.veneers.pc p = none) :
      Step x (.command p cmdNum (x.mutex.command p cmdNum).1)
        { x with
          mutex := (x.mutex.command p cmdNum).2
          reserved := reservedAfter x.reserved p cmdNum (x.mutex.command p cmdNum).1 }
  | call {x : System σ} (p : ProcessId) (v : Veneer) (h : x.reserved p = true)
      (hp : x.veneers.pc p = none) :
      Step x (if x.veneers.flag then .rejected p v else .call p v)
        { x with veneers := ((RuSpe.veneers σ).enter p v x.veneers).2 }
  | step {x : System σ} (p : ProcessId) (m : LockStep σ) (l : List (LockStep σ)) (r : Answer)
      (hp : x.veneers.pc p = some ⟨m :: l, r⟩) :
      Step x (.step p) { x with veneers :=
        { x.veneers with
          shared := m.act x.veneers.shared
          pc := Function.update x.veneers.pc p (some ⟨l, r⟩) } }
  | returned {x : System σ} (p : ProcessId) (r : Answer) (hp : x.veneers.pc p = some ⟨[], r⟩) :
      Step x (.returned p r) { x with veneers :=
        { x.veneers with flag := false, pc := Function.update x.veneers.pc p none } }

/-- The runs, with their histories, newest first. -/
inductive Run (x : System σ) : List Event → System σ → Prop
  | nil : Run x [] x
  | cons {l : List Event} {y z : System σ} {e : Event} (h : Run x l y) (hs : Step y e z) :
      Run x (e :: l) z

theorem Run.append {x y z : System σ} {l l' : List Event} (h : Run x l y) (h' : Run y l' z) :
    Run x (l' ++ l) z := by
  induction h' with
  | nil => exact h
  | cons _ hs ih => exact .cons ih hs

end

/-- The veneers that were called, and those that returned with their answers, in the order in which
they did. -/
def calls (l : List Event) : List (ProcessId × Veneer) :=
  l.reverse.filterMap fun
    | .call p v => some (p, v)
    | _ => none

def answers (l : List Event) : List (ProcessId × Answer) :=
  l.reverse.filterMap fun
    | .returned p a => some (p, a)
    | _ => none

/-! ## The mutex is a lock -/

/-- What the event is to a lock around the veneers. -/
def locking : Event → Option (HeldSection.Event ProcessId Veneer Answer)
  | .command p cmdNum reply =>
    match SpeMutex.effect cmdNum reply with
    | .reserved => some (.lock p)
    | .released => some (.unlock p)
    | .nothing => none
  | .call p v => some (.enter p v)
  | .rejected p v => some (.reject p v)
  | .step p => some (.act p)
  | .returned p a => some (.exit p a)

theorem begun_locking (l : List Event) : begun (l.filterMap locking) = calls l := by
  rw [begun, calls, ← List.filterMap_reverse, List.filterMap_filterMap]
  congr 1
  funext e
  cases e with
  | command p cmdNum reply =>
    rw [locking]
    cases SpeMutex.effect cmdNum reply <;> rfl
  | call p v | rejected p v | step p | returned p a => rfl

theorem ended_locking (l : List Event) : ended (l.filterMap locking) = answers l := by
  rw [ended, answers, ← List.filterMap_reverse, List.filterMap_filterMap]
  congr 1
  funext e
  cases e with
  | command p cmdNum reply =>
    rw [locking]
    cases SpeMutex.effect cmdNum reply <;> rfl
  | call p v | rejected p v | step p | returned p a => rfl

section

variable {σ : Type} [SpmCall σ] [LockTrace σ] {x y : System σ} {s₀ : σ} {l : List Event}

/-- The mutex as the lock. -/
def System.held (x : System σ) : HeldSection.State ProcessId (LockStep σ) σ Answer :=
  ⟨x.mutex.owner, x.veneers⟩

/-- Who is between a reservation and its release owns the mutex. -/
def Reserving (x : System σ) : Prop := ∀ p, x.reserved p = true → x.mutex.owner = some p

omit [SpmCall σ] [LockTrace σ] in
/-- A command keeps this. -/
theorem reserving_command (h : Reserving x) (p : ProcessId) (cmdNum : Usize) (q : ProcessId)
    (hq : reservedAfter x.reserved p cmdNum (x.mutex.command p cmdNum).1 q = true) :
    (x.mutex.command p cmdNum).2.owner = some q := by
  rw [reservedAfter] at hq
  split_ifs at hq with h₁ h₂
  · rcases x.mutex.command_cases p cmdNum with ⟨-, hnone, hc⟩ | ⟨he, -, -⟩ | ⟨he, -, -, -⟩
    · rw [hc]
      by_cases hqp : q = p
      · rw [hqp]
      · rw [Function.update_of_ne hqp] at hq
        have := h q hq
        rw [hnone] at this
        cases this
    · rw [SpeMutex.effect, if_pos h₁] at he
      cases he
    · rw [SpeMutex.effect, if_pos h₁] at he
      cases he
  · have hqp : q ≠ p := by
      rintro rfl
      rw [Function.update_self] at hq
      cases hq
    rw [Function.update_of_ne hqp] at hq
    rw [(x.mutex.command_of_owner p (h q hq) hqp cmdNum).1]
    exact h q hq
  · rcases x.mutex.command_cases p cmdNum with ⟨-, hnone, -⟩ | ⟨he, -, -⟩ | ⟨-, hc, -, -⟩
    · have := h q hq
      rw [hnone] at this
      cases this
    · rw [SpeMutex.effect, if_neg h₁, if_neg fun hc => h₂ hc.1] at he
      cases he
    · rw [hc]
      exact h q hq

/-- **The processes take the steps of contexts that hold a lock**, or none. -/
theorem held_step {z : HeldSection.State ProcessId (LockStep σ) σ Answer}
    {k : List (HeldSection.Event ProcessId Veneer Answer)} (hr : Reserving x) {e : Event}
    (hs : Step x e y) (h : HeldSection.Run (veneers σ) z k x.held) :
    Reserving y ∧ HeldSection.Run (veneers σ) z ((locking e).toList ++ k) y.held := by
  cases hs with
  | command p cmdNum hp =>
    refine ⟨reserving_command hr p cmdNum, ?_⟩
    rcases x.mutex.command_cases p cmdNum with ⟨he, ho, hc⟩ | ⟨he, ho, hc⟩ | ⟨he, hc, -, -⟩
    · rw [locking, he, System.held, hc]
      exact .cons h (.lock p ho)
    · rw [locking, he, System.held, hc]
      exact .cons h (.unlock p ho hp)
    · rw [locking, he, System.held, hc]
      exact h
  | call p v hres hp =>
    refine ⟨hr, ?_⟩
    have hent := HeldSection.Step.enter (S := veneers σ) (x := x.held) p v (hr p hres) hp
    have hev : locking (if x.veneers.flag then .rejected p v else .call p v)
        = some (if x.veneers.flag then .reject p v else .enter p v) := by
      split_ifs <;> rfl
    rw [hev]
    exact .cons h hent
  | step p m l r hp => exact ⟨hr, .cons h (.act (x := x.held) p m l r hp)⟩
  | returned p r hp => exact ⟨hr, .cons h (.exit (x := x.held) p r hp)⟩

/-- So do their runs. -/
theorem held_of_run (h : Run (boot s₀) l x) :
    Reserving x ∧ HeldSection.Run (veneers σ) (HeldSection.start s₀) (l.filterMap locking) x.held := by
  induction h with
  | nil => exact ⟨nofun, .nil⟩
  | @cons l y z e _ hs ih =>
    obtain ⟨hr, hrun⟩ := ih
    obtain ⟨hr', hrun'⟩ := held_step hr hs hrun
    refine ⟨hr', ?_⟩
    rw [List.filterMap_cons]
    cases hloc : locking e with
    | none =>
      rw [hloc] at hrun'
      exact hrun'
    | some e' =>
      rw [hloc] at hrun'
      exact hrun'

end

/-! ## The calls in a row -/

section

variable {σ : Type} [SpmCall σ] [LockTrace σ]

/-- The calls `done` were served, one more of the owner may go on. -/
structure Serves (s₀ : σ) (l : List Event) (x : System σ) (done : List (ProcessId × Veneer)) :
    Prop where
  accepted : ∀ p v, .rejected p v ∉ l
  called : calls l = done ∨ ∃ p v, calls l = done ++ [(p, v)] ∧ x.mutex.owner = some p
  who : (answers l).map Prod.fst = done.map Prod.fst
  answered : (answers l).map Prod.snd = (Calls.run Veneer.body (done.map Prod.snd) s₀).1
  state : calls l = done → x.veneers.shared = (Calls.run Veneer.body (done.map Prod.snd) s₀).2

variable [LawfulSpm σ] [LawfulLockTrace σ]

/-- A veneer from an idle SPM on. -/
theorem whole_veneers (hfree : ∀ s : σ, Free s → locked s = false) :
    Whole (veneers σ) Idle Veneer.body where
  result _ _ := rfl
  state v _ hs := idle_actAll hfree hs v
  idle v _ hs := idle_body hs v

theorem serves_of_run (hfree : ∀ s : σ, Free s → locked s = false) {s₀ : σ} (h₀ : Idle s₀)
    {l : List Event} {x : System σ} (h : Run (boot s₀) l x) : ∃ done, Serves s₀ l x done := by
  obtain ⟨s, c, hserial, hat⟩ := serial_of_run (held_of_run h).2
  obtain ⟨-, done, hbegun, hwho, hrun⟩ := hserial.inRow (whole_veneers hfree) h₀
  rw [begun_locking] at hbegun
  rw [ended_locking] at hwho hrun
  refine ⟨done, fun p v hmem => ?_, ?_, hwho, (congrArg Prod.fst hrun).symm, fun hdone => ?_⟩
  · exact hserial.accepted p v (List.mem_filterMap.mpr ⟨_, hmem, rfl⟩)
  · cases c with
    | none => exact .inl (hbegun.trans (List.append_nil _))
    | some c => exact .inr ⟨c.1, c.2, hbegun, hat.1⟩
  · cases c with
    | none =>
      have hx : x.veneers = ⟨false, s, fun _ => none⟩ := hat
      rw [hx, hrun]
    | some c =>
      rw [hdone] at hbegun
      have hlen := congrArg List.length hbegun
      rw [List.length_append, Option.toList_some, List.length_singleton] at hlen
      omega

end

end Tock

/-- **The mutex puts the calls of the processes in a row**, in every run from a fresh SPM of either
kind: no veneer rejects a process, and the answers are those of the calls one after another. -/
theorem mutex_serializes :
    (∀ (version : ServiceHandle → Option (BitVec 32)) (l : List Tock.Event) (x : Tock.System SpmFn),
      Tock.Run (Tock.boot (SpmFn.new version)) l x →
        ∃ done, Tock.Serves (SpmFn.new version) l x done) ∧
    (∀ (n : ℕ) (platform : IpcPlatform) (processes : Vector ServiceProcess n)
      (mpu : Vector Armv8Mpu.Region 8) (l : List Tock.Event) (x : Tock.System (SpmIpc n)),
      Tock.Run (Tock.boot (SpmIpc.new platform processes mpu)) l x →
        ∃ done, Tock.Serves (SpmIpc.new platform processes mpu) l x done) :=
  ⟨fun _ _ _ h => Tock.serves_of_run (fun _ hf => hf) ⟨⟨rfl, ConnectionArray.wf_new⟩, rfl⟩ h,
    fun _ _ _ _ _ _ h =>
      Tock.serves_of_run (fun _ hf => hf) ⟨⟨rfl, ConnectionArray.wf_new⟩, rfl⟩ h⟩

/-! ## An owner that is gone -/

namespace Tock

section

variable {σ : Type} [SpmCall σ] [LockTrace σ] {x y z : System σ} {s₀ : σ} {l l' : List Event}

/-- A step of another process than the owner is a command without effect. -/
theorem step_of_owner {p : ProcessId} (h : Run (boot s₀) l x) (ho : x.mutex.owner = some p)
    {e : Event} (hs : Step x e y) (he : e.process ≠ p) :
    y.mutex.owner = some p ∧ y.veneers = x.veneers ∧ ∃ q cmdNum reply,
      e = .command q cmdNum reply ∧ (cmdNum = 1 → reply = .failure .busy) := by
  obtain ⟨hr, hheld⟩ := held_of_run h
  have hinside : ∀ q b, x.veneers.pc q = some b → q = p := fun q b hq =>
    Option.some.inj ((owner_of_inside hheld hq).symm.trans ho)
  cases hs with
  | command q cmdNum hq =>
    obtain ⟨hsame, hbusy⟩ := x.mutex.command_of_owner q ho (Ne.symm he) cmdNum
    exact ⟨(congrArg SpeMutex.owner hsame).trans ho, rfl, q, cmdNum, _, rfl, hbusy⟩
  | call q v hres hq =>
    have hqp : q = p := Option.some.inj ((hr q hres).symm.trans ho)
    have hproc : (if x.veneers.flag then Event.rejected q v else .call q v).process = q := by
      split_ifs <;> rfl
    exact absurd (hproc.trans hqp) he
  | step q m k r hq => exact absurd (hinside q _ hq) he
  | returned q r hq => exact absurd (hinside q _ hq) he

end

end Tock

namespace Tock

/-- The first process uses a veneer. The second wants to at the same time, and gets the mutex after. -/
def handOver : List Event := [
  .command 2 1 .success,
  .command 1 2 .success,
  .returned 1 (.version psaFrameworkVersion),
  .command 2 1 (.failure .busy),
  .call 1 .psaFrameworkVersion,
  .command 1 1 .success]

theorem run_handOver (s₀ : SpmFn) :
    ∃ x, Run (boot s₀) handOver x ∧ x.mutex = ⟨some 2⟩ ∧ x.veneers.pc 1 = none := by
  have h₁ := Run.nil.cons (.command (x := boot s₀) 1 1 rfl)
  have h₂ := h₁.cons (.call 1 .psaFrameworkVersion rfl rfl)
  have h₃ := h₂.cons (.command 2 1 rfl)
  have h₄ := h₃.cons (.returned 1 (.version psaFrameworkVersion) rfl)
  have h₅ := h₄.cons (.command 1 2 rfl)
  have h₆ := h₅.cons (.command 2 1 rfl)
  exact ⟨_, h₆, rfl, rfl⟩

end Tock

/-- Both are served, and nobody is inside. -/
theorem mutex_serializes_handOver :
    ∃ x, Tock.Run (Tock.boot (SpmFn.new fun _ => none)) Tock.handOver x ∧
      ∃ done, Tock.Serves (SpmFn.new fun _ => none) Tock.handOver x done := by
  obtain ⟨x, h, -⟩ := Tock.run_handOver (.new fun _ => none)
  exact ⟨x, h, mutex_serializes.1 (fun _ => none) Tock.handOver x h⟩

end RuSpe
