import RuSpe.Lib.Interleaving

set_option autoImplicit false

/-!
# The once-initialised lock

A `OnceLock` is a state byte and a cell. `try_set` takes the byte from `Uninitialized` to
`Initializing` by a compare-exchange, writes the cell, and stores `Initialized`; `try_get` reads the
cell after it has loaded `Initialized`. Any number of threads do this, one atomic access at a time.

* `OnceLock`, `tryGet`, `trySet`: the lock and its functions, as programs over its accesses;
* `OnceLockPhase`, `phases`, `phases_closed`: who has won, and how far the winner is;
* `OneWinner`, **`one_winner`**: one winner, whose value all others see, in every interleaving.
-/

namespace RuSpe

open Interleaving

/-- `OnceLockState`. -/
inductive OnceLockState
  | uninitialized
  | initializing
  | initialized
  deriving DecidableEq, Repr

/-- The discriminant. -/
def OnceLockState.toU8 : OnceLockState → BitVec 8
  | .uninitialized => 0
  | .initializing => 1
  | .initialized => 2

/-- The state byte, and the cell, which has no value until one is written. -/
structure OnceLock (T : Type) where
  state : BitVec 8
  value : Option T

/-- The accesses to a lock: the three of the atomic byte, and the two of the cell. -/
inductive OnceLockOp (T : Type)
  | load
  | compareExchange (current new : BitVec 8)
  | store (val : BitVec 8)
  | write (value : T)
  | assumeInitRef

/-- What a caller asks of a lock. -/
inductive OnceLockCall (T : Type)
  | tryGet
  | trySet (value : T)

/-- Who has won the compare-exchange, with which value, and what it does next. -/
inductive OnceLockPhase (ι T : Type)
  | free
  | writing (i : ι) (v : T)
  | storing (i : ι) (v : T)
  | returning (i : ι) (v : T)
  | set (i : ι) (v : T)

namespace OnceLock

variable {ι T : Type}

/-- `new`. -/
def new : OnceLock T := ⟨OnceLockState.uninitialized.toU8, none⟩

/-- What an access answers. -/
abbrev Ans : OnceLockOp T → Type
  | .load => BitVec 8
  | .compareExchange _ _ => Except (BitVec 8) (BitVec 8)
  | .store _ => Unit
  | .write _ => Unit
  | .assumeInitRef => T

/-- An access, in one step. To take the cell as initialised is undefined while it is not. -/
def act : (o : OnceLockOp T) → OnceLock T → Option (Ans o × OnceLock T)
  | .load, s => some (s.state, s)
  | .compareExchange current new, s =>
    if s.state = current then some (.ok s.state, { s with state := new })
    else some (.error s.state, s)
  | .store val, s => some ((), { s with state := val })
  | .write value, s => some ((), { s with value := some value })
  | .assumeInitRef, s => s.value.map (·, s)

/-- The lock as a shared object. -/
abbrev object (T : Type) : Object := ⟨OnceLock T, OnceLockOp T, Ans, act⟩

/-- `try_get`. -/
def tryGet : Prog (object T) (Except OnceLockState T) :=
  .op .load fun state =>
    if state = OnceLockState.initializing.toU8 then .ret (.error .initializing)
    else if state = OnceLockState.initialized.toU8 then .op .assumeInitRef fun v => .ret (.ok v)
    else .ret (.error .uninitialized)

/-- `try_set`. -/
def trySet (value : T) : Prog (object T) (Except T Unit) :=
  .op (.compareExchange OnceLockState.uninitialized.toU8 OnceLockState.initializing.toU8) fun
    | .ok _ =>
      .op (.write value) fun _ =>
        .op (.store OnceLockState.initialized.toU8) fun _ => .ret (.ok ())
    | .error _ => .ret (.error value)

/-- The results. -/
abbrev Ret : OnceLockCall T → Type
  | .tryGet => Except OnceLockState T
  | .trySet _ => Except T Unit

/-- The functions of the lock. -/
def body : (c : OnceLockCall T) → Prog (object T) (Ret c)
  | .tryGet => tryGet
  | .trySet value => trySet value

abbrev api (T : Type) : Api (object T) := ⟨OnceLockCall T, Ret, body⟩

/-- A new lock, and no thread inside a call. -/
def start : State (api T) ι := ⟨new, fun _ => none⟩

/-! ## Histories -/

/-- The writes of the cell, newest first. -/
def writes (l : List (ι × Act (api T))) : List (ι × T) := l.filterMap fun
  | (i, .op _ (.write v) _) => some (i, v)
  | _ => none

/-- The calls of `try_set` that returned `Ok`. -/
def wins (l : List (ι × Act (api T))) : List (ι × T) := l.filterMap fun
  | (i, .ret (.trySet v) (.ok ())) => some (i, v)
  | _ => none

/-- The values that `try_set` was called with and gave back. -/
def givenBack (l : List (ι × Act (api T))) : List (T × T) := l.filterMap fun
  | (_, .ret (.trySet v) (.error w)) => some (v, w)
  | _ => none

/-- The values that `try_get` returned. -/
def gets (l : List (ι × Act (api T))) : List T := l.filterMap fun
  | (_, .ret .tryGet (.ok v)) => some v
  | _ => none

end OnceLock

/-! ## Phases -/

namespace OnceLockPhase

variable {ι T : Type}

/-- The lock in a phase. -/
def lock : OnceLockPhase ι T → OnceLock T
  | free => ⟨OnceLockState.uninitialized.toU8, none⟩
  | writing _ _ => ⟨OnceLockState.initializing.toU8, none⟩
  | storing _ v => ⟨OnceLockState.initializing.toU8, some v⟩
  | returning _ v => ⟨OnceLockState.initialized.toU8, some v⟩
  | set _ v => ⟨OnceLockState.initialized.toU8, some v⟩

/-- The value, once the byte says that there is one. -/
def settled : OnceLockPhase ι T → Option T
  | returning _ v => some v
  | set _ v => some v
  | _ => none

/-- The writes that led to a phase. -/
def written : OnceLockPhase ι T → List (ι × T)
  | free => []
  | writing _ _ => []
  | storing i v => [(i, v)]
  | returning i v => [(i, v)]
  | set i v => [(i, v)]

/-- The winners that have returned. -/
def won : OnceLockPhase ι T → List (ι × T)
  | set i v => [(i, v)]
  | _ => []

/-- Where thread `i` may be. -/
inductive Allowed (p : OnceLockPhase ι T) (i : ι) : Option (Thread (OnceLock.api T)) → Prop
  | idle : Allowed p i none
  | get : Allowed p i (some ⟨.tryGet, OnceLock.tryGet⟩)
  | getErr (e : OnceLockState) : Allowed p i (some ⟨.tryGet, .ret (.error e)⟩)
  | getRead (v : T) (h : p.settled = some v) :
      Allowed p i (some ⟨.tryGet, .op .assumeInitRef fun v => .ret (.ok v)⟩)
  | getOk (v : T) (h : p.settled = some v) : Allowed p i (some ⟨.tryGet, .ret (.ok v)⟩)
  | set (v : T) : Allowed p i (some ⟨.trySet v, OnceLock.trySet v⟩)
  | setErr (v : T) : Allowed p i (some ⟨.trySet v, .ret (.error v)⟩)
  | setWrite (v : T) (h : p = writing i v) :
      Allowed p i (some ⟨.trySet v, .op (.write v) fun _ =>
        .op (.store OnceLockState.initialized.toU8) fun _ => .ret (.ok ())⟩)
  | setStore (v : T) (h : p = storing i v) :
      Allowed p i (some ⟨.trySet v,
        .op (.store OnceLockState.initialized.toU8) fun _ => .ret (.ok ())⟩)
  | setOk (v : T) (h : p = returning i v) : Allowed p i (some ⟨.trySet v, .ret (.ok ())⟩)

/-- The histories that lead to a phase. -/
structure Hist (p : OnceLockPhase ι T) (l : List (ι × Act (OnceLock.api T))) : Prop where
  writes : OnceLock.writes l = p.written
  wins : OnceLock.wins l = p.won
  givenBack : ∀ x ∈ OnceLock.givenBack l, x.2 = x.1
  gets : ∀ v ∈ OnceLock.gets l, p.settled = some v

/-- How thread `i` takes the lock from one phase to the next. -/
inductive Advance (i : ι) : OnceLockPhase ι T → OnceLockPhase ι T → Prop
  | win (v : T) : Advance i free (writing i v)
  | write (v : T) : Advance i (writing i v) (storing i v)
  | store (v : T) : Advance i (storing i v) (returning i v)
  | ret (v : T) : Advance i (returning i v) (set i v)

/-- The phases of a lock. -/
def phases (ι T : Type) : Phases (OnceLock.api T) ι (OnceLockPhase ι T) := ⟨lock, Allowed, Hist⟩

section

variable {p q : OnceLockPhase ι T} {i : ι} {l : List (ι × Act (OnceLock.api T))}
  {e : Act (OnceLock.api T)} {y : Option (Thread (OnceLock.api T))}

theorem Advance.settled (h : Advance i p q) {v : T} (hv : p.settled = some v) :
    q.settled = some v := by
  cases h with
  | ret w => exact hv
  | _ => cases hv

/-- Once the byte says that there is a value, the cell has it. -/
theorem act_read {v : T} (h : p.settled = some v) :
    OnceLock.act .assumeInitRef p.lock = some (v, p.lock) := by
  cases p with
  | returning i w =>
    obtain rfl := Option.some.inj h
    rfl
  | set i w =>
    obtain rfl := Option.some.inj h
    rfl
  | _ => cases h

/-- The compare-exchange fails in every phase but the first. -/
theorem act_taken (h : p ≠ free) :
    OnceLock.act (.compareExchange OnceLockState.uninitialized.toU8
      OnceLockState.initializing.toU8) p.lock = some (.error p.lock.state, p.lock) := by
  cases p with
  | free => exact absurd rfl h
  | _ => rfl

/-- An advance of `i` leaves the others where they may be. -/
theorem Advance.others (h : Advance i p q) {j : ι} (hj : j ≠ i)
    {z : Option (Thread (OnceLock.api T))} (hz : Allowed p j z) : Allowed q j z := by
  cases hz with
  | idle => exact .idle
  | get => exact .get
  | getErr e => exact .getErr e
  | getRead v hv => exact .getRead v (h.settled hv)
  | getOk v hv => exact .getOk v (h.settled hv)
  | set v => exact .set v
  | setErr v => exact .setErr v
  | setWrite v hv =>
    subst hv
    cases h
    exact absurd rfl hj
  | setStore v hv =>
    subst hv
    cases h
    exact absurd rfl hj
  | setOk v hv =>
    subst hv
    cases h
    exact absurd rfl hj

/-- A step that neither writes nor wins, and returns what it may. -/
theorem leads_quiet (hl : Hist p l) (hy : Allowed p i y) (hw : OnceLock.writes [(i, e)] = [])
    (hwin : OnceLock.wins [(i, e)] = []) (hback : ∀ x ∈ OnceLock.givenBack [(i, e)], x.2 = x.1)
    (hget : ∀ v ∈ OnceLock.gets [(i, e)], p.settled = some v) :
    (phases ι T).Leads p p l i e p.lock y := by
  refine ⟨rfl, hy, fun _ _ _ hz => hz, ⟨?_, ?_, ?_, ?_⟩⟩
  · rw [← hl.writes, ← List.nil_append (OnceLock.writes l), ← hw]
    exact List.filterMap_append (l := [(i, e)])
  · rw [← hl.wins, ← List.nil_append (OnceLock.wins l), ← hwin]
    exact List.filterMap_append (l := [(i, e)])
  · intro x hx
    rw [show OnceLock.givenBack ((i, e) :: l) = _ from List.filterMap_append (l := [(i, e)]),
      List.mem_append] at hx
    exact hx.elim (hback x) (hl.givenBack x)
  · intro v hv
    rw [show OnceLock.gets ((i, e) :: l) = _ from List.filterMap_append (l := [(i, e)]),
      List.mem_append] at hv
    exact hv.elim (hget v) (hl.gets v)

/-- A step of the winner. -/
theorem leads_advance (hl : Hist p l) (h : Advance i p q) (hy : Allowed q i y)
    (hw : OnceLock.writes ((i, e) :: l) = q.written) (hwin : OnceLock.wins ((i, e) :: l) = q.won)
    (hback : OnceLock.givenBack ((i, e) :: l) = OnceLock.givenBack l)
    (hget : OnceLock.gets ((i, e) :: l) = OnceLock.gets l) :
    (phases ι T).Leads p q l i e q.lock y := by
  refine ⟨rfl, hy, fun j hj z hz => h.others hj hz, ⟨hw, hwin, ?_, ?_⟩⟩
  · rw [hback]
    exact hl.givenBack
  · rw [hget]
    exact fun v hv => h.settled (hl.gets v hv)

end

end OnceLockPhase

namespace OnceLock

variable {ι T : Type}

open OnceLockPhase

theorem phases_closed : (phases ι T).Closed := by
  intro p l i x e s y hl hx hm
  have nobody {α : Type} {P : α → Prop} : ∀ x ∈ ([] : List α), P x := nofun
  cases hx with
  | idle =>
    cases hm with
    | call c =>
      refine ⟨p, leads_quiet hl ?_ rfl rfl nobody nobody⟩
      cases c with
      | tryGet => exact .get
      | trySet v => exact .set v
  | get =>
    cases hm with
    | op h =>
      obtain ⟨rfl, rfl⟩ := Prod.mk.inj (Option.some.inj h)
      refine ⟨p, leads_quiet hl ?_ rfl rfl nobody nobody⟩
      cases p with
      | free => exact .getErr _
      | writing j v => exact .getErr _
      | storing j v => exact .getErr _
      | returning j v => exact .getRead v rfl
      | set j v => exact .getRead v rfl
  | getErr e =>
    cases hm
    exact ⟨p, leads_quiet hl .idle rfl rfl nobody nobody⟩
  | getRead v hv =>
    cases hm with
    | op h =>
      obtain ⟨rfl, rfl⟩ := Prod.mk.inj (Option.some.inj ((act_read hv).symm.trans h))
      exact ⟨p, leads_quiet hl (.getOk v hv) rfl rfl nobody nobody⟩
  | getOk v hv =>
    cases hm
    refine ⟨p, leads_quiet hl .idle rfl rfl nobody fun w hw => ?_⟩
    rw [List.mem_singleton.mp hw]
    exact hv
  | set v =>
    cases hm with
    | op h =>
      by_cases hp : p = OnceLockPhase.free
      · subst hp
        obtain ⟨rfl, rfl⟩ := Prod.mk.inj (Option.some.inj h)
        exact ⟨_, leads_advance hl (.win v) (.setWrite v rfl) hl.writes hl.wins rfl rfl⟩
      · obtain ⟨rfl, rfl⟩ := Prod.mk.inj (Option.some.inj ((act_taken hp).symm.trans h))
        exact ⟨p, leads_quiet hl (.setErr v) rfl rfl nobody nobody⟩
  | setErr v =>
    cases hm
    refine ⟨p, leads_quiet hl .idle rfl rfl (fun x hx => ?_) nobody⟩
    rw [List.mem_singleton.mp hx]
  | setWrite v hv =>
    subst hv
    cases hm with
    | op h =>
      obtain ⟨rfl, rfl⟩ := Prod.mk.inj (Option.some.inj h)
      refine ⟨_, leads_advance hl (.write v) (.setStore v rfl) ?_ hl.wins rfl rfl⟩
      exact congrArg ((i, v) :: ·) hl.writes
  | setStore v hv =>
    subst hv
    cases hm with
    | op h =>
      obtain ⟨rfl, rfl⟩ := Prod.mk.inj (Option.some.inj h)
      exact ⟨_, leads_advance hl (.store v) (.setOk v rfl) hl.writes hl.wins rfl rfl⟩
  | setOk v hv =>
    subst hv
    cases hm
    refine ⟨_, leads_advance hl (.ret v) .idle hl.writes ?_ rfl rfl⟩
    exact congrArg ((i, v) :: ·) hl.wins

theorem start_holds : (phases ι T).Holds .free [] start where
  shared := rfl
  allowed _ := .idle
  hist := ⟨rfl, rfl, nofun, nofun⟩

/-- Nobody stands before an undefined access. -/
theorem safe_of_holds {p : OnceLockPhase ι T} {l : List (ι × Act (api T))} {x : State (api T) ι}
    (h : (phases ι T).Holds p l x) : x.Safe := by
  intro i c o next hi
  rw [h.shared]
  have hx : Allowed p i (some ⟨c, .op o next⟩) := hi ▸ h.allowed i
  cases hx with
  | getRead v hv => exact congrArg Option.isSome (act_read hv)
  | set v =>
    by_cases hp : p = OnceLockPhase.free
    · subst hp
      rfl
    · exact congrArg Option.isSome (act_taken hp)
  | _ => rfl

/-! ## One winner -/

/-- What holds of a lock at the end of a run with history `l`, and of whatever follows. -/
structure OneWinner [DecidableEq ι] (l : List (ι × Act (api T))) (x : State (api T) ι) : Prop where
  one_ok : (wins l).length ≤ 1
  given_back : ∀ y ∈ givenBack l, y.2 = y.1
  one_write : (writes l).length ≤ 1
  wrote : ∀ k ∈ wins l, writes l = [k]
  -- in particular, nobody is about to read a cell without a value
  safe : x.Safe
  read : ∀ l₁ l₂ j c v, l = l₂ ++ (j, .op c .assumeInitRef v) :: l₁ → ∃ i, writes l₁ = [(i, v)]
  got : ∀ v ∈ gets l, ∃ i, writes l = [(i, v)] ∧ ∀ k ∈ wins l, k = (i, v)
  -- an error that comes after an `Ok` was loaded before it, by a call that was not later
  stable : gets l ≠ [] → ∀ l' y, Run x l' y → ∀ j e, (j, .ret .tryGet (.error e)) ∈ l' →
    x.pc j = some ⟨.tryGet, .ret (.error e)⟩

section

variable {p : OnceLockPhase ι T} {v : T}

/-- What is settled was written, and by the winner. -/
theorem wrote_of_settled {l : List (ι × Act (api T))} (hl : Hist p l) (hv : p.settled = some v) :
    ∃ i, writes l = [(i, v)] ∧ ∀ k ∈ wins l, k = (i, v) := by
  rw [hl.writes, hl.wins]
  cases p with
  | returning i w =>
    obtain rfl := Option.some.inj hv
    exact ⟨i, rfl, nofun⟩
  | set i w =>
    obtain rfl := Option.some.inj hv
    exact ⟨i, rfl, fun k hk => List.mem_singleton.mp hk⟩
  | _ => cases hv

/-- Once a value is settled, no `try_get` begins to fail. -/
theorem not_failing_of_move {i : ι} {x y : Option (Thread (api T))} {a : Act (api T)}
    {s : OnceLock T} {e : OnceLockState} (hv : p.settled = some v) (hx : Allowed p i x)
    (hm : Move (O := object T) p.lock x a s y) : y ≠ some ⟨.tryGet, .ret (.error e)⟩ := by
  intro hy
  cases hm with
  | call c =>
    cases c with
    | tryGet => cases hy
    | trySet w => cases hy
  | op h =>
    cases hx with
    | get =>
      obtain ⟨rfl, rfl⟩ := Prod.mk.inj (Option.some.inj h)
      cases p with
      | returning j w => cases hy
      | set j w => cases hy
      | _ => cases hv
    | _ => cases hy
  | ret r => cases hy

end

section

variable [DecidableEq ι] {l l' : List (ι × Act (api T))} {x y : State (api T) ι}

/-- Every run is in some phase at its end. -/
theorem exists_phase (h : Run start l x) : ∃ p, (phases ι T).Holds p l x :=
  Phases.of_run phases_closed start_holds h

/-- A read answers what was written before. -/
theorem read_written {z : State (api T) ι} {j : ι} {c : OnceLockCall T} {v : T}
    (h : Run start l x) (hs : Step x (j, .op c .assumeInitRef v) z) :
    ∃ i, writes l = [(i, v)] := by
  obtain ⟨p, hp⟩ := exists_phase h
  cases hs with
  | move hm =>
    have hx := hp.allowed j
    rw [hp.shared] at hm
    generalize x.pc j = pc at hx hm
    cases hm with
    | op ha =>
      cases hx with
      | getRead w hw =>
        obtain ⟨rfl, -⟩ := Prod.mk.inj (Option.some.inj ((act_read hw).symm.trans ha))
        obtain ⟨i, hi, -⟩ := wrote_of_settled hp.hist hw
        exact ⟨i, hi⟩

/-- After a `try_get` has returned `Ok`, whoever fails had decided to before. -/
theorem failing_before {v : T} (hx : Run start l x) (hv : v ∈ gets l) (h : Run x l' y) (j : ι)
    (e : OnceLockState) :
    (y.pc j = some ⟨.tryGet, .ret (.error e)⟩ → x.pc j = some ⟨.tryGet, .ret (.error e)⟩) ∧
      ((j, .ret .tryGet (.error e)) ∈ l' → x.pc j = some ⟨.tryGet, .ret (.error e)⟩) := by
  induction h with
  | nil => exact ⟨id, nofun⟩
  | @cons l' y z a h hs ih =>
    obtain ⟨p, hp⟩ := exists_phase (hx.trans h)
    have hsettled : p.settled = some v := by
      refine hp.hist.gets v ?_
      rw [show gets (l' ++ l) = _ from List.filterMap_append]
      exact List.mem_append_right _ hv
    cases hs with
    | @move i a s pc hm =>
      rw [hp.shared] at hm
      refine ⟨fun hj => ?_, fun hmem => ?_⟩
      · by_cases hji : j = i
        · subst hji
          dsimp only at hj
          rw [Function.update_self] at hj
          exact absurd hj (not_failing_of_move hsettled (hp.allowed j) hm)
        · dsimp only at hj
          rw [Function.update_of_ne hji] at hj
          exact ih.1 hj
      · rcases List.mem_cons.mp hmem with heq | hmem
        · obtain ⟨rfl, rfl⟩ := Prod.mk.inj heq
          generalize hpc : y.pc j = pc at hm
          cases hm
          exact ih.1 hpc
        · exact ih.2 hmem

/-- **One winner, and a stable value**, for any number of threads in any interleaving. -/
theorem one_winner (h : Run start l x) : OneWinner l x := by
  obtain ⟨p, hp⟩ := exists_phase h
  refine ⟨?_, hp.hist.givenBack, ?_, ?_, safe_of_holds hp, ?_, ?_, ?_⟩
  · rw [hp.hist.wins]
    cases p <;> simp [won]
  · rw [hp.hist.writes]
    cases p <;> simp [written]
  · rw [hp.hist.wins, hp.hist.writes]
    cases p <;> simp [won, written]
  · rintro l₁ l₂ j c v rfl
    obtain ⟨y, z, hy, hs, -⟩ := h.split
    exact read_written hy hs
  · exact fun v hv => wrote_of_settled hp.hist (hp.hist.gets v hv)
  · intro hne l' y hy j e hmem
    obtain ⟨v, hv⟩ := List.exists_mem_of_ne_nil _ hne
    exact (failing_before h hv hy j e).2 hmem

/-- Two threads: one wins, the other gets its value back, and reads the value of the winner. -/
theorem one_winner_two : ∃ (l : List (Bool × Act (api ℕ))) (x : State (api ℕ) Bool),
    (wins l = [(false, 7)] ∧ givenBack l = [(9, 9)] ∧ gets l = [7]) ∧ OneWinner l x := by
  have h₀ : Run (start : State (api ℕ) Bool) [] start := .nil
  have h₁ := h₀.cons (.move (i := false) (.call (OnceLockCall.trySet 7)))
  have h₂ := h₁.cons (.move (i := true) (.call (OnceLockCall.trySet 9)))
  have h₃ := h₂.cons (.move (i := false) (.op rfl))
  have h₄ := h₃.cons (.move (i := true) (.op rfl))
  have h₅ := h₄.cons (.move (i := true) (.ret _))
  have h₆ := h₅.cons (.move (i := false) (.op rfl))
  have h₇ := h₆.cons (.move (i := false) (.op rfl))
  have h₈ := h₇.cons (.move (i := true) (.call OnceLockCall.tryGet))
  have h₉ := h₈.cons (.move (i := true) (.op rfl))
  have h₁₀ := h₉.cons (.move (i := true) (.op rfl))
  have h₁₁ := h₁₀.cons (.move (i := true) (.ret _))
  have h₁₂ := h₁₁.cons (.move (i := false) (.ret _))
  exact ⟨_, _, ⟨rfl, rfl, rfl⟩, one_winner h₁₂⟩

end

end OnceLock

end RuSpe
