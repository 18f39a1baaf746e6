import RuSpe.Spm.CallFromSlices

set_option autoImplicit false

/-!
# The overlap check of input vectors

The check is there so that no byte is read through two input vectors. It compares the ends of each
two, and an empty vector has ends as well: the check refuses it inside the payload of another one,
while the checks of a single vector let an empty one lie anywhere.

* `NoneWraps`, `NoByteShared`: what the check is for; `Inside`: an empty vector inside a payload;
* `pairwise_clear_iff`: what the check asks for beyond that;
* **`nonoverlap_exact_iff`**: for which lists the check is exact.
-/

namespace RuSpe

/-- No sum of a base and a length wraps. -/
def NoneWraps (l : List FFInVec) : Prop := ∀ v ∈ l, v.base.toNat + v.len.toNat < 2 ^ 32

/-- No address belongs to the payloads of two vectors. -/
def NoByteShared (l : List FFInVec) : Prop :=
  l.Pairwise fun a b => Disjoint (byteRange a.base a.len) (byteRange b.base b.len)

/-- `a` is empty and points strictly inside the payload of `b`. -/
def Inside (a b : FFInVec) : Prop :=
  a.len = 0 ∧ b.base.toNat < a.base.toNat ∧ a.base.toNat < b.base.toNat + b.len.toNat

theorem not_inside_self (a : FFInVec) : ¬ Inside a a := fun h => lt_irrefl _ h.2.1

/-- The comparison of two vectors. -/
theorem clear_iff (a b : FFInVec) :
    Clear a b ↔ (a.base.toNat + a.len.toNat < 2 ^ 32 ∧ b.base.toNat + b.len.toNat < 2 ^ 32) ∧
      Disjoint (byteRange a.base a.len) (byteRange b.base b.len) ∧
      (¬ Inside a b ∧ ¬ Inside b a) := by
  have hzero (v : FFInVec) : v.len = 0 ↔ v.len.toNat = 0 := by
    rw [← BitVec.toNat_inj]
    rfl
  rw [Clear, byteRange, byteRange, Set.Ico_disjoint_Ico, Inside, Inside, hzero a, hzero b]
  omega

/-! ## Lists -/

/-- In a list of two or more, every member is in a pair. -/
theorem pairwise_and_self_iff {α : Type} {P : α → Prop} {l : List α} (h : 2 ≤ l.length) :
    (l.Pairwise fun a b => P a ∧ P b) ↔ ∀ a ∈ l, P a := by
  constructor
  · intro hl
    match l, h with
    | a :: b :: l, _ =>
      have ha := (List.pairwise_cons.mp hl).1
      rw [List.forall_mem_cons]
      exact ⟨(ha b List.mem_cons_self).1, fun c hc => (ha c hc).2⟩
  · intro hall
    exact List.pairwise_of_forall_mem_list fun a ha b hb => ⟨hall a ha, hall b hb⟩

theorem pairwise_not_inside_iff {l : List FFInVec} :
    (l.Pairwise fun a b => ¬ Inside a b ∧ ¬ Inside b a) ↔ ∀ a ∈ l, ∀ b ∈ l, ¬ Inside a b := by
  constructor
  · intro hl a ha b hb
    have : Std.Symm fun a b => ¬ Inside a b ∧ ¬ Inside b a := ⟨fun _ _ h => h.symm⟩
    have hself : ∀ a ∈ l, ¬ Inside a a ∧ ¬ Inside a a :=
      fun a _ => ⟨not_inside_self a, not_inside_self a⟩
    exact (List.Pairwise.forall_of_forall hself hl ha hb).1
  · intro hall
    exact List.pairwise_of_forall_mem_list fun a ha b hb => ⟨hall a ha b hb, hall b hb a ha⟩

/-- **What the check asks for.** -/
theorem pairwise_clear_iff {l : List FFInVec} (h : 2 ≤ l.length) :
    l.Pairwise Clear ↔ NoneWraps l ∧ NoByteShared l ∧ ∀ a ∈ l, ∀ b ∈ l, ¬ Inside a b := by
  rw [show Clear = fun a b => _ from funext₂ fun a b => propext (clear_iff a b)]
  refine List.pairwise_and_iff.trans (and_congr (pairwise_and_self_iff h) ?_)
  exact List.pairwise_and_iff.trans (and_congr Iff.rfl pairwise_not_inside_iff)

/-- **The check accepts exactly the lists that do not wrap and share no byte, unless such a list has
an empty vector that points strictly inside the payload of another one.** -/
theorem nonoverlap_exact_iff {l : List FFInVec} (h : 2 ≤ l.length) :
    (validateInvecPayloadNonoverlap l = .ok () ↔ NoneWraps l ∧ NoByteShared l) ↔
      ¬ (NoneWraps l ∧ NoByteShared l ∧ ∃ a ∈ l, ∃ b ∈ l, Inside a b) := by
  rw [validateInvecPayloadNonoverlap_eq_ok_iff, pairwise_clear_iff h]
  constructor
  · rintro hexact ⟨hwrap, hshared, a, ha, b, hb, hin⟩
    exact (hexact.mpr ⟨hwrap, hshared⟩).2.2 a ha b hb hin
  · intro hnot
    refine ⟨fun hok => ⟨hok.1, hok.2.1⟩, fun hok => ⟨hok.1, hok.2, fun a ha b hb hin => ?_⟩⟩
    exact hnot ⟨hok.1, hok.2, a, ha, b, hb, hin⟩

/-- Three vectors that touch, in no order, and an empty one at an end. -/
theorem nonoverlap_exact_iff_touching :
    validateInvecPayloadNonoverlap [⟨0x100A, 10⟩, ⟨0x1000, 10⟩, ⟨0x100A, 0⟩, ⟨0x1014, 5⟩] = .ok () ↔
      NoneWraps [⟨0x100A, 10⟩, ⟨0x1000, 10⟩, ⟨0x100A, 0⟩, ⟨0x1014, 5⟩] ∧
        NoByteShared [⟨0x100A, 10⟩, ⟨0x1000, 10⟩, ⟨0x100A, 0⟩, ⟨0x1014, 5⟩] := by
  refine (nonoverlap_exact_iff (by decide)).mpr ?_
  rintro ⟨-, -, a, ha, b, hb, hin⟩
  simp only [List.mem_cons, List.not_mem_nil, or_false] at ha hb
  unfold Inside at hin
  rcases ha with rfl | rfl | rfl | rfl <;> rcases hb with rfl | rfl | rfl | rfl <;>
    simp at hin

/-- An empty vector inside a payload of 16 bytes is refused. -/
theorem nonoverlap_refuses_empty :
    NoneWraps [⟨0x1000, 16⟩, ⟨0x1008, 0⟩] ∧ NoByteShared [⟨0x1000, 16⟩, ⟨0x1008, 0⟩] ∧
      validateInvecPayloadNonoverlap [⟨0x1000, 16⟩, ⟨0x1008, 0⟩] = .error .programmerError := by
  refine ⟨?_, ?_, by decide⟩
  · unfold NoneWraps
    decide
  · rw [NoByteShared, List.pairwise_pair]
    simp [byteRange]

end RuSpe
