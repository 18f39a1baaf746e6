import RuSpe.Lib.LentStack
import RuSpe.Spm.Connection

set_option autoImplicit false

/-!
# The connection stack

`ConnectionArray` keeps at most four connections. The top one can be taken out while a closure
works on it, which leaves a hole that must be filled again before anyone may use the slot.

* `Mutex`, `Mutex.tryLock`: the lock around the state of the SPM;
* `ConnectionArray` and its operations;
* `ConnectionArray.Wf`: the invariant that relates the flags, the slots and the top index;
* `ConnectionArray.stack`: the array as a `LentStack`, and the refinement theorems
  **`stack_pushed`**, **`lend_stack`**, **`giveBack_stack`**, **`stack_popConnection`**;
* **`ext_stack`**: the stack determines the flags, the top index and every slot below it.
-/

namespace RuSpe

/-! ## The mutex -/

/-- `Mutex<T>`: an atomic flag and the value it protects. -/
structure Mutex (α : Type) where
  lock : Bool
  value : α

namespace Mutex

variable {α ρ : Type}

def new (value : α) : Mutex α := ⟨false, value⟩

/-- `try_lock`: the closure gets the value and leaves it changed, or the lock is busy. -/
def tryLock (m : Mutex α) (f : α → ρ × α) : Except Unit ρ × Mutex α :=
  if m.lock then (.error (), m)
  else (.ok (f m.value).1, ⟨false, (f m.value).2⟩)

end Mutex

/-! ## The array -/

/-- `MAX_CONNECTIONS`. -/
abbrev maxConnections : ℕ := 4

inductive SpmError
  | mutexBusy
  | connectionStackFull
  | emptyConnectionStack
  | noActiveConnection
  | corruptedConnectionStack
  deriving DecidableEq, Repr

/-- `ConnectionArray`. A slot that was never written holds `none`. -/
structure ConnectionArray where
  connections : Vector (Option Connection) maxConnections
  present : Vector Bool maxConnections
  topConnection : ℕ
  deriving DecidableEq

namespace ConnectionArray

/-- `ConnectionArray::new`. -/
def new : ConnectionArray where
  connections := Vector.replicate _ none
  present := Vector.replicate _ false
  topConnection := 0

/-- `assume_init` on a slot. Reading a slot that was never written is undefined in the source; the
default connection stands for whatever is found there. -/
def assumeInit (slot : Option Connection) : Connection := slot.getD default

/-- `add_connection`. -/
def addConnection (a : ConnectionArray) (connection : Connection) :
    Except SpmError Unit × ConnectionArray :=
  if a.topConnection ≥ maxConnections then (.error .connectionStackFull, a)
  else
    (.ok (), {
      connections := a.connections.setIfInBounds a.topConnection (some connection)
      present := a.present.setIfInBounds a.topConnection true
      topConnection := a.topConnection + 1 })

/-- `take_active_connection`. -/
def takeActiveConnection (a : ConnectionArray) :
    Except SpmError (ℕ × Connection) × ConnectionArray :=
  if a.topConnection = 0 then (.error .noActiveConnection, a)
  else
    let index := a.topConnection - 1
    match a.present[index]? with
    | none => (.error .corruptedConnectionStack, a)
    | some present =>
      if !present then (.error .corruptedConnectionStack, a)
      else
        match a.connections[index]? with
        | none => (.error .corruptedConnectionStack, a)
        | some slot =>
          (.ok (index, assumeInit slot), { a with
            present := a.present.setIfInBounds index false })

/-- `restore_active_connection`. -/
def restoreActiveConnection (a : ConnectionArray) (index : ℕ) (connection : Connection) :
    Except SpmError Unit × ConnectionArray :=
  if index ≥ maxConnections then (.error .corruptedConnectionStack, a)
  else
    match a.present[index]? with
    | none => (.error .corruptedConnectionStack, a)
    | some present =>
      if present then (.error .corruptedConnectionStack, a)
      else
        (.ok (), { a with
          connections := a.connections.setIfInBounds index (some connection)
          present := a.present.setIfInBounds index true })

/-- `pop_connection`. Dropping a connection runs no code and leaves its bytes in the slot. -/
def popConnection (a : ConnectionArray) : ConnectionArray :=
  if a.topConnection > 0 then
    { a with
      topConnection := a.topConnection - 1
      present := a.present.setIfInBounds (a.topConnection - 1) false }
  else a

/-- `peek_active_connection`. -/
def peekActiveConnection (a : ConnectionArray) : Except SpmError Connection :=
  if a.topConnection = 0 then .error .emptyConnectionStack
  else
    let index := a.topConnection - 1
    match a.present[index]? with
    | none => .error .corruptedConnectionStack
    | some present =>
      if present then
        match a.connections[index]? with
        | none => .error .corruptedConnectionStack
        | some slot => .ok (assumeInit slot)
      else .error .corruptedConnectionStack

/-! ## The invariant -/

/-- A cleared flag below the top marks a lent connection; from the top on everything is free, and
every slot below it was written. -/
structure Wf (a : ConnectionArray) : Prop where
  top_le : a.topConnection ≤ maxConnections
  free : ∀ i : ℕ, a.topConnection ≤ i → a.present[i]? ≠ some true
  init : ∀ i : ℕ, i < a.topConnection → ∃ c, a.connections[i]? = some (some c)

/-- The top connection is on the stack and not lent to a closure. -/
def Active (a : ConnectionArray) : Prop :=
  a.topConnection ≠ 0 ∧ a.present[a.topConnection - 1]? = some true

instance (a : ConnectionArray) : Decidable a.Active := inferInstanceAs (Decidable (_ ∧ _))

/-- The connection in the top slot. -/
def topSlot (a : ConnectionArray) : Connection :=
  assumeInit ((a.connections[a.topConnection - 1]?).getD none)

/-- The array with the top connection lent. -/
def lent (a : ConnectionArray) : ConnectionArray :=
  { a with present := a.present.setIfInBounds (a.topConnection - 1) false }

/-- The array with `c` written into the top slot. -/
def filled (a : ConnectionArray) (c : Connection) : ConnectionArray :=
  { a with
    connections := a.connections.setIfInBounds (a.topConnection - 1) (some c)
    present := a.present.setIfInBounds (a.topConnection - 1) true }

/-- The array with `c` pushed. -/
def pushed (a : ConnectionArray) (c : Connection) : ConnectionArray where
  connections := a.connections.setIfInBounds a.topConnection (some c)
  present := a.present.setIfInBounds a.topConnection true
  topConnection := a.topConnection + 1

variable {a : ConnectionArray}

theorem wf_new : new.Wf where
  top_le := Nat.zero_le _
  free i _ := by grind [new]
  init i h := by grind [new]

theorem addConnection_eq (a : ConnectionArray) (c : Connection) :
    a.addConnection c =
      if a.topConnection < maxConnections then (.ok (), a.pushed c)
      else (.error .connectionStackFull, a) := by
  grind [addConnection, pushed]

/-- **Only an active top connection is ever handed out.** -/
theorem takeActiveConnection_eq (h : a.Wf) :
    a.takeActiveConnection =
      if a.Active then (.ok (a.topConnection - 1, a.topSlot), a.lent)
      else if a.topConnection = 0 then (.error .noActiveConnection, a)
      else (.error .corruptedConnectionStack, a) := by
  have := h.top_le
  grind [takeActiveConnection, Active, topSlot, lent]

theorem peekActiveConnection_eq (h : a.Wf) :
    a.peekActiveConnection =
      if a.Active then .ok a.topSlot
      else if a.topConnection = 0 then .error .emptyConnectionStack
      else .error .corruptedConnectionStack := by
  have := h.top_le
  grind [peekActiveConnection, Active, topSlot]

/-- **A lent top connection can be put back.** -/
theorem restoreActiveConnection_eq (h : a.Wf) (h0 : a.topConnection ≠ 0) (c : Connection) :
    a.restoreActiveConnection (a.topConnection - 1) c =
      if a.Active then (.error .corruptedConnectionStack, a) else (.ok (), a.filled c) := by
  have := h.top_le
  grind [restoreActiveConnection, Active, filled]

theorem Wf.pushed (h : a.Wf) (hlt : a.topConnection < maxConnections) (c : Connection) :
    (a.pushed c).Wf := by
  obtain ⟨h1, h2, h3⟩ := h
  refine ⟨by grind [ConnectionArray.pushed], fun i hi => ?_, fun i hi => ?_⟩
  · have := h2 i
    grind [ConnectionArray.pushed]
  · have := h3 i
    grind [ConnectionArray.pushed]

theorem Wf.lent (h : a.Wf) : a.lent.Wf := by
  obtain ⟨h1, h2, h3⟩ := h
  refine ⟨by grind [ConnectionArray.lent], fun i hi => ?_, fun i hi => ?_⟩
  · have := h2 i
    grind [ConnectionArray.lent]
  · have := h3 i
    grind [ConnectionArray.lent]

theorem Wf.filled (h : a.Wf) (h0 : a.topConnection ≠ 0) (c : Connection) : (a.filled c).Wf := by
  obtain ⟨h1, h2, h3⟩ := h
  refine ⟨by grind [ConnectionArray.filled], fun i hi => ?_, fun i hi => ?_⟩
  · have := h2 i
    grind [ConnectionArray.filled]
  · have := h3 i
    grind [ConnectionArray.filled]

theorem Wf.popConnection (h : a.Wf) : a.popConnection.Wf := by
  obtain ⟨h1, h2, h3⟩ := h
  refine ⟨by grind [ConnectionArray.popConnection], fun i hi => ?_, fun i hi => ?_⟩
  · have := h2 i
    grind [ConnectionArray.popConnection]
  · have := h3 i
    grind [ConnectionArray.popConnection]

/-- **A slot that is handed out was written.** -/
theorem Wf.topSlot_init (h : a.Wf) (ha : a.Active) :
    a.connections[a.topConnection - 1]? = some (some a.topSlot) := by
  obtain ⟨c, hc⟩ := h.init (a.topConnection - 1) (by have := ha.1; omega)
  simp [topSlot, hc, assumeInit]

/-! ## The array as a stack whose top can be lent -/

/-- Slot `i` as a place of the stack. -/
def place (a : ConnectionArray) (i : ℕ) : LentStack.Place Connection :=
  ⟨!(a.present[i]?).getD false, assumeInit ((a.connections[i]?).getD none)⟩

/-- The places below the top index, from the top down. -/
def stackBelow (a : ConnectionArray) : ℕ → LentStack Connection
  | 0 => []
  | n + 1 => a.place n :: a.stackBelow n

/-- The connection stack. -/
def stack (a : ConnectionArray) : LentStack Connection := a.stackBelow a.topConnection

theorem stackBelow_succ (a : ConnectionArray) (n : ℕ) :
    a.stackBelow (n + 1) = a.place n :: a.stackBelow n := rfl

theorem stackBelow_congr {a b : ConnectionArray} {n : ℕ} (h : ∀ i < n, a.place i = b.place i) :
    a.stackBelow n = b.stackBelow n := by
  induction n with
  | zero => rfl
  | succ n ih => rw [stackBelow_succ, stackBelow_succ, h n n.lt_succ_self,
      ih fun i hi => h i (hi.trans n.lt_succ_self)]

theorem length_stackBelow (a : ConnectionArray) (n : ℕ) : (a.stackBelow n).length = n := by
  induction n with
  | zero => rfl
  | succ n ih => rw [stackBelow_succ, List.length_cons, ih]

@[simp] theorem length_stack (a : ConnectionArray) : a.stack.length = a.topConnection :=
  length_stackBelow a _

/-- The places from the top down, with the top one split off. -/
theorem stack_eq_cons (h0 : a.topConnection ≠ 0) :
    a.stack = a.place (a.topConnection - 1) :: a.stackBelow (a.topConnection - 1) := by
  obtain ⟨n, hn⟩ := Nat.exists_eq_succ_of_ne_zero h0
  simp only [stack, hn, Nat.succ_eq_add_one, stackBelow_succ, Nat.add_sub_cancel]

theorem stack_new : new.stack = [] := rfl

theorem active_pushed (hlt : a.topConnection < maxConnections) (c : Connection) :
    (a.pushed c).Active := by
  simp [Active, pushed, hlt]

theorem topSlot_pushed (hlt : a.topConnection < maxConnections) (c : Connection) :
    (a.pushed c).topSlot = c := by
  simp [topSlot, pushed, hlt, assumeInit]

theorem stack_pushed (hlt : a.topConnection < maxConnections) (c : Connection) :
    (a.pushed c).stack = LentStack.push c a.stack := by
  have htop : (a.pushed c).place a.topConnection = ⟨false, c⟩ := by
    simp [place, pushed, hlt, assumeInit]
  have hlow : (a.pushed c).stackBelow a.topConnection = a.stack :=
    stackBelow_congr fun i hi => by
      have : a.topConnection ≠ i := by omega
      simp [place, pushed, this]
  rw [stack, show (a.pushed c).topConnection = a.topConnection + 1 from rfl, stackBelow_succ, htop, hlow]
  rfl

/-- Below the top place, lending and filling change nothing. -/
theorem stackBelow_lent : a.lent.stackBelow (a.topConnection - 1) =
    a.stackBelow (a.topConnection - 1) :=
  stackBelow_congr fun i hi => by
    have : a.topConnection - 1 ≠ i := by omega
    simp [place, lent, this]

theorem stackBelow_filled (c : Connection) : (a.filled c).stackBelow (a.topConnection - 1) =
    a.stackBelow (a.topConnection - 1) :=
  stackBelow_congr fun i hi => by
    have : a.topConnection - 1 ≠ i := by omega
    simp [place, filled, this]

/-- An active connection is a top place that is not lent. -/
theorem stack_of_active (ha : a.Active) :
    a.stack = ⟨false, a.topSlot⟩ :: a.stackBelow (a.topConnection - 1) := by
  rw [stack_eq_cons ha.1, place, ha.2]
  rfl

theorem stack_of_not_active (h0 : a.topConnection ≠ 0) (ha : ¬ a.Active) :
    a.stack = ⟨true, a.topSlot⟩ :: a.stackBelow (a.topConnection - 1) := by
  have hp : (a.present[a.topConnection - 1]?).getD false = false := by
    cases h : a.present[a.topConnection - 1]? with
    | none => rfl
    | some b => cases b with
      | false => rfl
      | true => exact absurd ⟨h0, h⟩ ha
  rw [stack_eq_cons h0, place, hp]
  rfl

theorem not_active_lent (a : ConnectionArray) : ¬ a.lent.Active := by
  rintro ⟨-, h⟩
  grind [ConnectionArray.lent]

theorem filled_lent (a : ConnectionArray) (c : Connection) : a.lent.filled c = a.filled c := by
  simp [filled, lent]

theorem active_filled (h : a.Wf) (h0 : a.topConnection ≠ 0) (c : Connection) :
    (a.filled c).Active := by
  have hlt : a.topConnection - 1 < maxConnections := by have := h.top_le; omega
  exact ⟨h0, by simp [filled, hlt]⟩

theorem topSlot_filled (h : a.Wf) (h0 : a.topConnection ≠ 0) (c : Connection) :
    (a.filled c).topSlot = c := by
  have hlt : a.topConnection - 1 < maxConnections := by have := h.top_le; omega
  simp [topSlot, filled, hlt, assumeInit]

theorem filled_filled (a : ConnectionArray) (c d : Connection) :
    (a.filled c).filled d = a.filled d := by
  simp [filled]

theorem filled_topSlot (h : a.Wf) (ha : a.Active) : a.filled a.topSlot = a := by
  obtain ⟨h1, h2⟩ := ha
  have h3 := h.topSlot_init ⟨h1, h2⟩
  obtain ⟨connections, present, top⟩ := a
  have hc : connections.setIfInBounds (top - 1) (some (topSlot ⟨connections, present, top⟩)) =
      connections := Vector.ext fun i hi => by grind
  have hp : present.setIfInBounds (top - 1) true = present := Vector.ext fun i hi => by grind
  simp only [filled, hc, hp]

/-- **Taking the active connection is lending the top of the stack.** -/
theorem lend_stack (ha : a.Active) : a.stack.lend = some (a.topSlot, a.lent.stack) := by
  have ht : a.lent.topSlot = a.topSlot := rfl
  rw [stack_of_active ha, stack_of_not_active (a := a.lent) ha.1 a.not_active_lent, ht]
  exact congrArg (fun s => some (a.topSlot, LentStack.Place.mk true a.topSlot :: s))
    stackBelow_lent.symm

/-- **Restoring the active connection is giving it back.** -/
theorem giveBack_stack (h : a.Wf) (h0 : a.topConnection ≠ 0) (ha : ¬ a.Active) (c : Connection) :
    a.stack.giveBack c = some (a.filled c).stack := by
  rw [stack_of_not_active h0 ha, stack_of_active (active_filled h h0 c), topSlot_filled h h0]
  exact congrArg (fun s => some (LentStack.Place.mk false c :: s)) (stackBelow_filled c).symm

/-- **After finished work during a loan the connection can be put back.** -/
theorem restore_of_kept {R : Connection → Connection → Prop} {b : ConnectionArray} {c : Connection}
    (ha : a.Active) (hb : b.Wf) (hk : LentStack.Kept R a.lent.stack b.stack) (hc : R a.topSlot c) :
    b.restoreActiveConnection (a.topConnection - 1) c = (.ok (), b.filled c) ∧
      b.topConnection ≠ 0 ∧ LentStack.Kept R a.stack (b.filled c).stack := by
  have htop : b.topConnection = a.topConnection := by
    have := hk.length_eq
    rwa [length_stack, length_stack] at this
  have h0 : b.topConnection ≠ 0 := htop ▸ ha.1
  have hna : ¬ b.Active := fun hact => by
    have h1 := lend_stack hact
    rw [LentStack.lend_of_kept_lent (lend_stack ha) hk] at h1
    cases h1
  obtain ⟨w, hw, hkw⟩ := LentStack.Kept.giveBack_lend (lend_stack ha) hk hc
  rw [giveBack_stack hb h0 hna, Option.some.injEq] at hw
  refine ⟨?_, h0, hw ▸ hkw⟩
  rw [← htop, restoreActiveConnection_eq hb h0, if_neg hna]

/-- Replacing the active connection along `R`. -/
theorem kept_filled {R : Connection → Connection → Prop} [Std.Refl R] {c : Connection} (h : a.Wf)
    (ha : a.Active) (hc : R a.topSlot c) : LentStack.Kept R a.stack (a.filled c).stack := by
  have := (restore_of_kept ha h.lent (.refl a.lent.stack) hc).2.2
  rwa [filled_lent] at this

theorem stack_popConnection (a : ConnectionArray) : a.popConnection.stack = a.stack.pop := by
  by_cases h0 : a.topConnection = 0
  · have : a.popConnection = a := by simp [popConnection, h0]
    rw [this, stack, h0]
    rfl
  · have hlow : a.popConnection.stackBelow (a.topConnection - 1) =
        a.stackBelow (a.topConnection - 1) :=
      stackBelow_congr fun i hi => by
        have h1 : a.topConnection - 1 ≠ i := by omega
        simp [place, popConnection, Nat.pos_of_ne_zero h0, h1]
    have htop : a.popConnection.topConnection = a.topConnection - 1 := by
      simp [popConnection, Nat.pos_of_ne_zero h0]
    rw [stack_eq_cons h0, stack, htop, hlow]
    rfl

theorem place_eq_of_stackBelow {a b : ConnectionArray} {n i : ℕ}
    (h : a.stackBelow n = b.stackBelow n) (hi : i < n) : a.place i = b.place i := by
  induction n with
  | zero => omega
  | succ n ih =>
    obtain ⟨h1, h2⟩ := List.cons.inj h
    rcases Nat.lt_succ_iff_lt_or_eq.mp hi with hlt | rfl
    · exact ih h2 hlt
    · exact h1

/-- **The stack determines the top index, the flags and every slot below the top.** -/
theorem ext_stack {a b : ConnectionArray} (ha : a.Wf) (hb : b.Wf) (h : a.stack = b.stack) :
    a.topConnection = b.topConnection ∧ a.present = b.present ∧
      ∀ i : ℕ, i < a.topConnection → a.connections[i]? = b.connections[i]? := by
  have htop : a.topConnection = b.topConnection := by
    rw [← length_stack a, ← length_stack b, h]
  have hplace : ∀ i < a.topConnection, a.place i = b.place i := fun i hi =>
    place_eq_of_stackBelow (by rw [stack, stack, ← htop] at h; exact h) hi
  refine ⟨htop, Vector.ext fun i hi => ?_, fun i hi => ?_⟩
  · by_cases hlt : i < a.topConnection
    · have := congrArg LentStack.Place.lent (hplace i hlt)
      simpa [place, hi] using this
    · have h1 := ha.free i (by omega)
      have h2 := hb.free i (by omega)
      simp only [Vector.getElem?_eq_getElem hi, ne_eq, Option.some.injEq,
        Bool.not_eq_true] at h1 h2
      rw [h1, h2]
  · obtain ⟨c, hc⟩ := ha.init i hi
    obtain ⟨d, hd⟩ := hb.init i (htop ▸ hi)
    have := congrArg LentStack.Place.val (hplace i hi)
    rw [hc, hd]
    simpa [place, hc, hd, assumeInit] using this

end ConnectionArray

end RuSpe
