import RuSpe.Lib.Calls
import RuSpe.Lib.GuardedSection

set_option autoImplicit false

/-!
# A section whose contexts hold a lock

The entries of a section with a flag are rejected while another context is inside. Contexts that
enter only while they hold a lock never meet this: the section serves them one after another.

* `State`, `Event`, `Step`, `Run`: the lock around the section, and the history of a run;
* `Serial`: a history of calls that are served one at a time;
* `Inside`, **`serial_of_run`**: the history of every run is one, and where the run is in it;
* `owner_of_inside`, `Serial.accepted`: who is inside holds the lock, and no entry is rejected;
* `begun`, `ended`, **`calls_of_run`**: the replies are those of the calls in a row.
-/

namespace HeldSection

open GuardedSection (Section Body enter_accepted)

variable {ι ν μ σ ρ : Type}

/-- Who holds the lock, and the section. -/
structure State (ι μ σ ρ : Type) where
  owner : Option ι
  inner : GuardedSection.State ι μ σ ρ

/-- What happens. A rejected entry ends at once. -/
inductive Event (ι ν ρ : Type)
  | lock (i : ι)
  | unlock (i : ι)
  | enter (i : ι) (v : ν)
  | reject (i : ι) (v : ν)
  | act (i : ι)
  | exit (i : ι) (r : ρ)

def start (s₀ : σ) : State ι μ σ ρ := ⟨none, false, s₀, fun _ => none⟩

variable (S : Section ν μ σ ρ) [DecidableEq ι]

/-- The steps of all contexts. Who enters holds the lock, and nobody gives it up inside. -/
inductive Step : State ι μ σ ρ → Event ι ν ρ → State ι μ σ ρ → Prop
  | lock {x : State ι μ σ ρ} (i : ι) (h : x.owner = none) : Step x (.lock i) { x with owner := some i }
  | unlock {x : State ι μ σ ρ} (i : ι) (h : x.owner = some i) (hi : x.inner.pc i = none) :
      Step x (.unlock i) { x with owner := none }
  | enter {x : State ι μ σ ρ} (i : ι) (v : ν) (h : x.owner = some i) (hi : x.inner.pc i = none) :
      Step x (if x.inner.flag then .reject i v else .enter i v)
        { x with inner := (S.enter i v x.inner).2 }
  | act {x : State ι μ σ ρ} (i : ι) (m : μ) (l : List μ) (r : ρ)
      (hi : x.inner.pc i = some ⟨m :: l, r⟩) :
      Step x (.act i) { x with inner :=
        { x.inner with
          shared := S.act m x.inner.shared
          pc := Function.update x.inner.pc i (some ⟨l, r⟩) } }
  | exit {x : State ι μ σ ρ} (i : ι) (r : ρ) (hi : x.inner.pc i = some ⟨[], r⟩) :
      Step x (.exit i r) { x with inner :=
        { x.inner with flag := false, pc := Function.update x.inner.pc i none } }

/-- The runs, with their histories, newest first. -/
inductive Run (x : State ι μ σ ρ) : List (Event ι ν ρ) → State ι μ σ ρ → Prop
  | nil : Run x [] x
  | cons {l : List (Event ι ν ρ)} {y z : State ι μ σ ρ} {e : Event ι ν ρ} (h : Run x l y)
      (hs : Step S y e z) : Run x (e :: l) z

/-- A history of calls that begin and end one after the other. The shared state is the one behind
the last call that ended; a call that goes on is kept aside. -/
inductive Serial (s₀ : σ) : List (Event ι ν ρ) → σ → Option (ι × ν) → Prop
  | nil : Serial s₀ [] s₀ none
  | enter {l : List (Event ι ν ρ)} {s : σ} (h : Serial s₀ l s none) (i : ι) (v : ν) :
      Serial s₀ (.enter i v :: l) s (some (i, v))
  | exit {l : List (Event ι ν ρ)} {s : σ} {i : ι} {v : ν} (h : Serial s₀ l s (some (i, v))) :
      Serial s₀ (.exit i (S.result v s) :: l) (S.actAll (S.steps v s) s) none
  | act {l : List (Event ι ν ρ)} {s : σ} {i : ι} {v : ν} (h : Serial s₀ l s (some (i, v))) :
      Serial s₀ (.act i :: l) s (some (i, v))
  | lock {l : List (Event ι ν ρ)} {s : σ} (h : Serial s₀ l s none) (i : ι) :
      Serial s₀ (.lock i :: l) s none
  | unlock {l : List (Event ι ν ρ)} {s : σ} (h : Serial s₀ l s none) (i : ι) :
      Serial s₀ (.unlock i :: l) s none

/-- Where a run is: outside with the state `s`, or in a call that began there and has done a part of
its steps. -/
def At (x : State ι μ σ ρ) (s : σ) : Option (ι × ν) → Prop
  | none => x.inner = ⟨false, s, fun _ => none⟩
  | some (i, v) => x.owner = some i ∧ ∃ done rest, S.steps v s = done ++ rest ∧
      x.inner = ⟨true, S.actAll done s, Function.update (fun _ => none) i (some ⟨rest, S.result v s⟩)⟩

variable {S} {x y : State ι μ σ ρ} {s₀ s : σ} {l : List (Event ι ν ρ)}

/-- Who is inside is the one whose call goes on. -/
theorem eq_of_inside {i j : ι} {b b' : Body μ ρ}
    (h : Function.update (fun _ => none) i (some b) j = some b') : j = i ∧ b' = b := by
  by_cases hj : j = i
  · subst hj
    rw [Function.update_self] at h
    exact ⟨rfl, (Option.some.inj h).symm⟩
  · rw [Function.update_of_ne hj] at h
    cases h

/-- **One step keeps the history serial.** -/
theorem serial_step {c : Option (ι × ν)} (h : Serial S s₀ l s c) (hx : At S x s c)
    {e : Event ι ν ρ} (hs : Step S x e y) : ∃ s' c', Serial S s₀ (e :: l) s' c' ∧ At S y s' c' := by
  obtain ⟨owner, inner⟩ := x
  cases c with
  | none =>
    obtain rfl : inner = _ := hx
    cases hs with
    | lock i ho => exact ⟨s, none, h.lock i, rfl⟩
    | unlock i ho hi => exact ⟨s, none, h.unlock i, rfl⟩
    | enter i v ho hi =>
      refine ⟨s, some (i, v), h.enter i v, ho, [], S.steps v s, rfl, ?_⟩
      dsimp only
      rw [enter_accepted rfl]
      rfl
    | act i m l r hi => cases hi
    | exit i r hi => cases hi
  | some iv =>
    obtain ⟨i, v⟩ := iv
    obtain ⟨rfl, done, rest, hsteps, rfl⟩ : owner = some i ∧ _ := hx
    cases hs with
    | lock j ho => cases ho
    | unlock j ho hj =>
      obtain rfl : i = j := Option.some.inj ho
      dsimp only at hj
      rw [Function.update_self] at hj
      cases hj
    | enter j w ho hj =>
      obtain rfl : i = j := Option.some.inj ho
      dsimp only at hj
      rw [Function.update_self] at hj
      cases hj
    | act j m rest' r hj =>
      obtain ⟨rfl, hb⟩ := eq_of_inside hj
      obtain ⟨rfl, rfl⟩ := Body.mk.inj hb
      refine ⟨s, some (j, v), h.act, rfl, done ++ [m], rest', ?_, ?_⟩
      · rw [hsteps, List.append_assoc]
        rfl
      · dsimp only
        rw [Function.update_idem, Section.actAll_append]
        rfl
    | exit j r hj =>
      obtain ⟨rfl, hb⟩ := eq_of_inside hj
      obtain ⟨rfl, rfl⟩ := Body.mk.inj hb
      refine ⟨_, none, h.exit, ?_⟩
      rw [List.append_nil] at hsteps
      rw [At, hsteps]
      dsimp only
      rw [Function.update_idem, Function.update_eq_self]

/-- **The history of every run is serial.** -/
theorem serial_of_run (h : Run S (start s₀) l x) : ∃ s c, Serial S s₀ l s c ∧ At S x s c := by
  induction h with
  | nil => exact ⟨s₀, none, .nil, rfl⟩
  | cons _ hs ih =>
    obtain ⟨s, c, hserial, hat⟩ := ih
    exact serial_step hserial hat hs

/-- Who is inside holds the lock. -/
theorem owner_of_inside (h : Run S (start s₀) l x) {i : ι} {b : Body μ ρ}
    (hi : x.inner.pc i = some b) : x.owner = some i := by
  obtain ⟨s, c, -, hat⟩ := serial_of_run h
  obtain ⟨owner, inner⟩ := x
  cases c with
  | none =>
    obtain rfl : inner = _ := hat
    cases hi
  | some jv =>
    obtain ⟨rfl, done, rest, -, rfl⟩ : owner = some jv.1 ∧ _ := hat
    rw [(eq_of_inside hi).1]

omit [DecidableEq ι] in
/-- A serial history has no rejected entry. -/
theorem Serial.accepted {c : Option (ι × ν)} (h : Serial S s₀ l s c) (i : ι) (v : ν) :
    .reject i v ∉ l := by
  induction h with
  | nil => exact List.not_mem_nil
  | enter _ _ _ ih | exit _ ih | act _ ih | lock _ _ ih | unlock _ _ ih =>
    exact List.not_mem_cons_of_ne_of_not_mem nofun ih

/-! ## The calls in a row -/

/-- The calls that were begun, and those that ended with their replies, in the order in which they
were. -/
def begun (l : List (Event ι ν ρ)) : List (ι × ν) :=
  l.reverse.filterMap fun
    | .enter i v => some (i, v)
    | _ => none

def ended (l : List (Event ι ν ρ)) : List (ι × ρ) :=
  l.reverse.filterMap fun
    | .exit i r => some (i, r)
    | _ => none

omit [DecidableEq ι] in
theorem begun_cons (e : Event ι ν ρ) (l : List (Event ι ν ρ)) : begun (e :: l) = begun l ++
    (match e with
      | .enter i v => [(i, v)]
      | _ => []) := by
  rw [begun, List.reverse_cons, List.filterMap_append]
  cases e <;> rfl

omit [DecidableEq ι] in
theorem ended_cons (e : Event ι ν ρ) (l : List (Event ι ν ρ)) : ended (e :: l) = ended l ++
    (match e with
      | .exit i r => [(i, r)]
      | _ => []) := by
  rw [ended, List.reverse_cons, List.filterMap_append]
  cases e <;> rfl

/-- What a body does in one piece, from states with a property that it keeps. -/
structure Whole (S : Section ν μ σ ρ) (Idle : σ → Prop) (exec : ν → σ → ρ × σ) : Prop where
  result : ∀ v s, S.result v s = (exec v s).1
  state : ∀ v s, Idle s → S.actAll (S.steps v s) s = (exec v s).2
  idle : ∀ v s, Idle s → Idle (exec v s).2

/-- The calls that ended are `cs`; one more may have been begun. -/
structure InRow (exec : ν → σ → ρ × σ) (s₀ : σ) (l : List (Event ι ν ρ)) (s : σ)
    (c : Option (ι × ν)) (cs : List (ι × ν)) : Prop where
  begun : begun l = cs ++ c.toList
  who : (ended l).map Prod.fst = cs.map Prod.fst
  run : Calls.run exec (cs.map Prod.snd) s₀ = ((ended l).map Prod.snd, s)

variable {Idle : σ → Prop} {exec : ν → σ → ρ × σ}

omit [DecidableEq ι] in
/-- **The replies of a serial history are those of the calls in a row.** -/
theorem Serial.inRow (hS : Whole S Idle exec) (h₀ : Idle s₀) {c : Option (ι × ν)}
    (h : Serial S s₀ l s c) : Idle s ∧ ∃ cs, InRow exec s₀ l s c cs := by
  induction h with
  | nil => exact ⟨h₀, [], rfl, rfl, rfl⟩
  | enter _ i v ih =>
    obtain ⟨hidle, cs, hbegun, hwho, hrun⟩ := ih
    refine ⟨hidle, cs, ?_, ?_, ?_⟩
    · rw [begun_cons, hbegun]
      simp
    · rw [ended_cons, List.append_nil, hwho]
    · rw [ended_cons, List.append_nil, hrun]
  | @exit l s i v _ ih =>
    obtain ⟨hidle, cs, hbegun, hwho, hrun⟩ := ih
    rw [hS.state v s hidle, hS.result v s]
    refine ⟨hS.idle v s hidle, cs ++ [(i, v)], ?_, ?_, ?_⟩
    · rw [begun_cons, hbegun]
      simp
    · rw [ended_cons, List.map_append, List.map_append, hwho]
      rfl
    · rw [ended_cons, List.map_append, List.map_append, Calls.run_append, hrun]
      rfl
  | act _ ih | lock _ _ ih | unlock _ _ ih =>
    obtain ⟨hidle, cs, hbegun, hwho, hrun⟩ := ih
    refine ⟨hidle, cs, ?_, ?_, ?_⟩
    · rw [begun_cons, List.append_nil, hbegun]
    · rw [ended_cons, List.append_nil, hwho]
    · rw [ended_cons, List.append_nil, hrun]

end HeldSection
