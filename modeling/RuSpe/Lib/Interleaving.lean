import Mathlib.Tactic

set_option autoImplicit false

/-!
# Interleavings of programs over a shared object

Any number of threads call programs, again and again. The operations of a program on the shared
object are atomic, and the operations of different threads follow each other in any order. An
operation may be undefined in a state of the object; a thread that stands before it is stuck there.

* `Object`, `Prog`, `Api`: the operations, the programs over them, and what can be called;
* `Move`, `Step`, `Run`: a step of one thread alone, of the system, and the history of a run;
* `Phases`, **`Phases.of_run`**: an invariant of all runs, from what one thread does in one phase.
-/

namespace Interleaving

/-- A shared object: its atomic operations, with what each answers and leaves, if it is defined. -/
structure Object where
  State : Type
  Op : Type
  Ans : Op → Type
  act : (o : Op) → State → Option (Ans o × State)

/-- A program: its next operation, and how it goes on after the answer. -/
inductive Prog (O : Object) (ρ : Type)
  | ret (r : ρ)
  | op (o : O.Op) (next : O.Ans o → Prog O ρ)

/-- What can be called, with the results and the programs. -/
structure Api (O : Object) where
  Call : Type
  Ret : Call → Type
  body : (c : Call) → Prog O (Ret c)

section

variable {O : Object}

/-- A thread inside a call, and what is left of it. -/
abbrev Thread (A : Api O) : Type := (c : A.Call) × Prog O (A.Ret c)

/-- What a thread does in one step: begin a call, perform an operation, or return. -/
inductive Act (A : Api O)
  | call (c : A.Call)
  | op (c : A.Call) (o : O.Op) (a : O.Ans o)
  | ret (c : A.Call) (r : A.Ret c)

/-- The object, and where each thread is. -/
structure State (A : Api O) (ι : Type) where
  shared : O.State
  pc : ι → Option (Thread A)

variable {A : Api O} {ι : Type}

/-- A step of one thread, with the object before and after it. -/
inductive Move : O.State → Option (Thread A) → Act A → O.State → Option (Thread A) → Prop
  | call {s : O.State} (c : A.Call) : Move s none (.call c) s (some ⟨c, A.body c⟩)
  | op {s s' : O.State} {c : A.Call} {o : O.Op} {next : O.Ans o → Prog O (A.Ret c)} {a : O.Ans o}
      (h : O.act o s = some (a, s')) :
      Move s (some ⟨c, .op o next⟩) (.op c o a) s' (some ⟨c, next a⟩)
  | ret {s : O.State} {c : A.Call} (r : A.Ret c) : Move s (some ⟨c, .ret r⟩) (.ret c r) s none

/-- The threads stand only before operations that are defined. -/
def State.Safe (x : State A ι) : Prop :=
  ∀ i c o next, x.pc i = some ⟨c, .op o next⟩ → (O.act o x.shared).isSome = true

variable [DecidableEq ι]

/-- A step of some thread. -/
inductive Step : State A ι → ι × Act A → State A ι → Prop
  | move {x : State A ι} {i : ι} {e : Act A} {s : O.State} {y : Option (Thread A)}
      (h : Move x.shared (x.pc i) e s y) : Step x (i, e) ⟨s, Function.update x.pc i y⟩

/-- The runs from `x`, with their histories, newest first. -/
inductive Run (x : State A ι) : List (ι × Act A) → State A ι → Prop
  | nil : Run x [] x
  | cons {l : List (ι × Act A)} {y z : State A ι} {e : ι × Act A} (h : Run x l y)
      (hs : Step y e z) : Run x (e :: l) z

theorem Run.trans {x y z : State A ι} {l l' : List (ι × Act A)} (h : Run x l y) (h' : Run y l' z) :
    Run x (l' ++ l) z := by
  induction h' with
  | nil => exact h
  | cons _ hs ih => exact ih.cons hs

/-- An event of a history was a step of the run. -/
theorem Run.split {x z : State A ι} {l l' : List (ι × Act A)} {e : ι × Act A}
    (h : Run x (l' ++ e :: l) z) : ∃ y y', Run x l y ∧ Step y e y' ∧ Run y' l' z := by
  induction l' generalizing z with
  | nil =>
    cases h with
    | cons h hs => exact ⟨_, _, h, hs, .nil⟩
  | cons e' l' ih =>
    cases h with
    | cons h hs =>
      obtain ⟨y, y', hl, he, hl'⟩ := ih h
      exact ⟨y, y', hl, he, hl'.cons hs⟩

end

/-! ## Invariants by phases -/

/-- The phases of an object: the state it is in, where each thread may be, and the histories that
lead there. -/
structure Phases {O : Object} (A : Api O) (ι φ : Type) where
  shared : φ → O.State
  Allowed : φ → ι → Option (Thread A) → Prop
  Hist : φ → List (ι × Act A) → Prop

namespace Phases

variable {O : Object} {A : Api O} {ι φ : Type}

/-- What a phase says about a state and its history. -/
structure Holds (P : Phases A ι φ) (p : φ) (l : List (ι × Act A)) (x : State A ι) : Prop where
  shared : x.shared = P.shared p
  allowed : ∀ i, P.Allowed p i (x.pc i)
  hist : P.Hist p l

/-- A step of thread `i` leads from phase `p` to a phase `q`, and disturbs nobody. -/
structure Leads (P : Phases A ι φ) (p q : φ) (l : List (ι × Act A)) (i : ι) (e : Act A)
    (s : O.State) (y : Option (Thread A)) : Prop where
  shared : P.shared q = s
  own : P.Allowed q i y
  others : ∀ j, j ≠ i → ∀ z, P.Allowed p j z → P.Allowed q j z
  hist : P.Hist q ((i, e) :: l)

/-- Each step of a thread that is where it may be leads to some phase. -/
def Closed (P : Phases A ι φ) : Prop :=
  ∀ {p l i x e s y}, P.Hist p l → P.Allowed p i x → Move (P.shared p) x e s y →
    ∃ q, P.Leads p q l i e s y

variable [DecidableEq ι] {P : Phases A ι φ}

theorem Holds.step {p : φ} {l : List (ι × Act A)} {x y : State A ι} {e : ι × Act A}
    (hP : P.Closed) (h : P.Holds p l x) (hs : Step x e y) : ∃ q, P.Holds q (e :: l) y := by
  cases hs with
  | @move i e s z hm =>
    rw [h.shared] at hm
    obtain ⟨q, hq⟩ := hP h.hist (h.allowed i) hm
    refine ⟨q, hq.shared.symm, fun j => ?_, hq.hist⟩
    dsimp only
    by_cases hj : j = i
    · subst hj
      rw [Function.update_self]
      exact hq.own
    · rw [Function.update_of_ne hj]
      exact hq.others j hj _ (h.allowed j)

/-- **Every run is in some phase at its end.** -/
theorem of_run {p : φ} {x y : State A ι} {l : List (ι × Act A)} (hP : P.Closed)
    (h₀ : P.Holds p [] x) (h : Run x l y) : ∃ q, P.Holds q l y := by
  induction h with
  | nil => exact ⟨p, h₀⟩
  | cons _ hs ih =>
    obtain ⟨q, hq⟩ := ih
    exact hq.step hP hs

end Phases

end Interleaving
