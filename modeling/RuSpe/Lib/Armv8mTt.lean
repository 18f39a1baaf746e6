import Mathlib.Tactic

set_option autoImplicit false

/-!
# The Test Target instructions of Armv8-M

A test asks one of the two memory protection units and the security attribution unit about an
address. Both units look for the one region an address is in; regions consist of granules of 32
bytes.

* `Region`, `hits`, `lookup`; `Mpu.perms`, `secure`;
* `response`: the answer of a test for a granule, as the word a program gets;
* `IsBoundary`, **`response_eq_of_boundaries`**: the answer changes at boundaries of regions only;
* `Numbered`, **`region_of_response`**: granules with one answer that are not secure lie in one region;
* `Separate`, **`forall_boundary_iff`**: where the regions are apart, it changes between two granules
  with the same answer iff a region lies between them.
-/

namespace Armv8mTt

/-- The granules from `first` to `last`. -/
structure Region (α : Type) where
  number : BitVec 8
  first : ℕ
  last : ℕ
  attrs : α

variable {α : Type}

def Region.Covers (r : Region α) (g : ℕ) : Prop := r.first ≤ g ∧ g ≤ r.last

instance (r : Region α) (g : ℕ) : Decidable (r.Covers g) := inferInstanceAs (Decidable (_ ∧ _))

theorem Region.covers_iff {r : Region α} {g : ℕ} : r.Covers g ↔ r.first ≤ g ∧ g ≤ r.last := Iff.rfl

/-- The regions a granule is in. -/
def hits (regions : List (Region α)) (g : ℕ) : List (Region α) := regions.filter (·.Covers g)

theorem hits_cons_of_covers {r : Region α} {regions : List (Region α)} {g : ℕ} (h : r.Covers g) :
    hits (r :: regions) g = r :: hits regions g := List.filter_cons_of_pos (decide_eq_true h)

theorem hits_cons_of_not_covers {r : Region α} {regions : List (Region α)} {g : ℕ}
    (h : ¬ r.Covers g) : hits (r :: regions) g = hits regions g :=
  List.filter_cons_of_neg (by simpa using h)

/-- The region a granule is in, if there is exactly one. -/
def lookup (regions : List (Region α)) (g : ℕ) : Option (Region α) :=
  match hits regions g with
  | [r] => some r
  | _ => none

/-- Whether a location may be read, and whether it may be read and written. -/
structure Perms where
  r : Bool
  rw : Bool

/-- A memory protection unit: the permissions for an access, privileged or not, in each region and
outside of all regions. -/
structure Mpu where
  regions : List (Region (Bool → Perms))
  background : Bool → Perms

/-- Nothing is permitted where regions overlap. -/
def Mpu.perms (m : Mpu) (privileged : Bool) (g : ℕ) : Perms :=
  match hits m.regions g with
  | [] => m.background privileged
  | [r] => r.attrs privileged
  | _ => ⟨false, false⟩

/-- The regions of the security attribution unit: whether they are callable from the non-secure
state. -/
abbrev Sau := List (Region Bool)

/-- A granule is secure unless it is in one region, and that is not a callable one. -/
def secure (sau : Sau) (g : ℕ) : Bool := ((lookup sau g).map (·.attrs)).getD true

def number (r : Option (Region α)) : BitVec 8 := (r.map (·.number)).getD 0

/-- The answer for a granule: `S`, `NSRW`, `NSR`, `RW`, `R`, `SRVALID`, `MRVALID`, `SREGION` and
`MREGION`, from bit 22 down. -/
def response (m : Mpu) (sau : Sau) (privileged : Bool) (g : ℕ) : BitVec 32 :=
  let p := m.perms privileged g
  let s := secure sau g
  (0#9 ++ BitVec.ofBool s ++ BitVec.ofBool (p.rw && !s) ++ BitVec.ofBool (p.r && !s) ++
    BitVec.ofBool p.rw ++ BitVec.ofBool p.r) ++
  (BitVec.ofBool (lookup sau g).isSome ++ BitVec.ofBool (lookup m.regions g).isSome ++
    number (lookup sau g) ++ number (lookup m.regions g))

/-! ## Boundaries -/

/-- A region begins at the granule, or ends before it. -/
def IsBoundary (regions : List (Region α)) (g : ℕ) : Prop :=
  ∃ r ∈ regions, g = r.first ∨ g = r.last + 1

theorem hits_succ {regions : List (Region α)} {g : ℕ} (h : ¬ IsBoundary regions (g + 1)) :
    hits regions (g + 1) = hits regions g := by
  refine List.filter_congr fun r hr => ?_
  have hfirst : g + 1 ≠ r.first := fun he => h ⟨r, hr, .inl he⟩
  have hlast : g + 1 ≠ r.last + 1 := fun he => h ⟨r, hr, .inr he⟩
  rw [decide_eq_decide]
  unfold Region.Covers
  omega

variable {m : Mpu} {sau : Sau} {privileged : Bool}

/-- The answer depends on the regions a granule is in. -/
theorem response_congr {g g' : ℕ} (hm : hits m.regions g = hits m.regions g')
    (hs : hits sau g = hits sau g') :
    response m sau privileged g = response m sau privileged g' := by
  simp only [response, Mpu.perms, secure, lookup, hm, hs]

/-- **The answer changes at boundaries only.** -/
theorem response_eq_of_boundaries {g₀ g₁ : ℕ}
    (h : ∀ x, g₀ < x → x ≤ g₁ → IsBoundary m.regions x ∨ IsBoundary sau x →
      response m sau privileged x = response m sau privileged g₀) :
    ∀ g, g₀ ≤ g → g ≤ g₁ → response m sau privileged g = response m sau privileged g₀ := by
  intro g hg
  induction g, hg using Nat.le_induction with
  | base => exact fun _ => rfl
  | succ g hg ih =>
    intro hle
    by_cases hb : IsBoundary m.regions (g + 1) ∨ IsBoundary sau (g + 1)
    · exact h (g + 1) (by omega) hle hb
    · rw [not_or] at hb
      rw [response_congr (hits_succ hb.1) (hits_succ hb.2)]
      exact ih (by omega)

/-! ## Regions that are apart -/

/-- The regions have granules, different numbers, and no granule in common. -/
structure Separate (regions : List (Region α)) : Prop where
  nonempty : ∀ r ∈ regions, r.first ≤ r.last
  numbers : ∀ r ∈ regions, ∀ r' ∈ regions, r.number = r'.number → r = r'
  apart : regions.Pairwise fun r r' => ∀ g, ¬ (r.Covers g ∧ r'.Covers g)

theorem hits_of_not_covers {regions : List (Region α)} {g : ℕ}
    (h : ∀ r ∈ regions, ¬ r.Covers g) : hits regions g = [] :=
  List.filter_eq_nil_iff.mpr fun r hr => by simpa using h r hr

theorem hits_of_covers {regions : List (Region α)}
    (h : regions.Pairwise fun r r' => ∀ g, ¬ (r.Covers g ∧ r'.Covers g)) {r : Region α}
    (hr : r ∈ regions) {g : ℕ} (hg : r.Covers g) : hits regions g = [r] := by
  induction regions with
  | nil => cases hr
  | cons r₀ regions ih =>
    obtain ⟨hfirst, hrest⟩ := List.pairwise_cons.mp h
    unfold hits at ih ⊢
    rcases List.mem_cons.mp hr with rfl | hr
    · rw [List.filter_cons_of_pos (by simpa using hg)]
      exact congrArg _ (hits_of_not_covers fun r' hr' hg' => hfirst r' hr' g ⟨hg, hg'⟩)
    · rw [List.filter_cons_of_neg (by simpa using fun hg₀ => hfirst r hr g ⟨hg₀, hg⟩)]
      exact ih hrest hr

section

variable {regions : List (Region α)} (h : Separate regions)

include h

theorem lookup_eq_some_iff {g : ℕ} {r : Region α} :
    lookup regions g = some r ↔ r ∈ regions ∧ r.Covers g := by
  constructor
  · intro hr
    by_cases hc : ∃ r' ∈ regions, r'.Covers g
    · obtain ⟨r', hr', hg⟩ := hc
      rw [lookup, hits_of_covers h.apart hr' hg] at hr
      obtain rfl := Option.some.inj hr
      exact ⟨hr', hg⟩
    · rw [lookup, hits_of_not_covers fun r' hr' hg => hc ⟨r', hr', hg⟩] at hr
      cases hr
  · rintro ⟨hr, hg⟩
    rw [lookup, hits_of_covers h.apart hr hg]

theorem not_covers_of_lookup {g : ℕ} (hnone : lookup regions g = none) :
    ∀ r ∈ regions, ¬ r.Covers g := by
  intro r hr hg
  rw [(lookup_eq_some_iff h).mpr ⟨hr, hg⟩] at hnone
  cases hnone

/-- A region is known by its number. -/
theorem lookup_eq_of_number {g g' : ℕ}
    (hsome : (lookup regions g).isSome = (lookup regions g').isSome)
    (hnumber : number (lookup regions g) = number (lookup regions g')) :
    lookup regions g = lookup regions g' := by
  cases hg : lookup regions g with
  | none =>
    rw [hg] at hsome
    exact (Option.isSome_eq_false_iff.mp hsome.symm |> Option.isNone_iff_eq_none.mp).symm
  | some r =>
    rw [hg] at hsome
    obtain ⟨r', hg'⟩ := Option.isSome_iff_exists.mp hsome.symm
    rw [hg, hg'] at hnumber
    rw [hg', h.numbers r ((lookup_eq_some_iff h).mp hg).1 r' ((lookup_eq_some_iff h).mp hg').1
      hnumber]

/-- Between two granules of one region, or two that are in none with no region between them, all
granules are in the same regions. -/
theorem hits_between {g₀ g₁ : ℕ} (hlookup : lookup regions g₁ = lookup regions g₀)
    (hinside : ∀ r ∈ regions, ¬ (g₀ < r.first ∧ r.last < g₁)) {x : ℕ} (h₀ : g₀ ≤ x)
    (h₁ : x ≤ g₁) : hits regions x = hits regions g₀ := by
  cases hg : lookup regions g₀ with
  | some r =>
    rw [hg] at hlookup
    obtain ⟨hr, hc₀⟩ := (lookup_eq_some_iff h).mp hg
    obtain ⟨-, hc₁⟩ := (lookup_eq_some_iff h).mp hlookup
    unfold Region.Covers at hc₀ hc₁
    rw [hits_of_covers h.apart hr (show r.Covers x from ⟨by omega, by omega⟩),
      hits_of_covers h.apart hr hc₀]
  | none =>
    rw [hg] at hlookup
    have hn₀ := not_covers_of_lookup h hg
    have hn₁ := not_covers_of_lookup h hlookup
    rw [hits_of_not_covers hn₀, hits_of_not_covers]
    intro r hr hc
    have hr₀ := hn₀ r hr
    have hr₁ := hn₁ r hr
    have hin := hinside r hr
    unfold Region.Covers at hc hr₀ hr₁
    omega

/-- The first granule of a region between two others is in another region than they are. -/
theorem lookup_first_ne {g₀ : ℕ} {r : Region α} (hr : r ∈ regions) (hlt : g₀ < r.first) :
    lookup regions r.first ≠ lookup regions g₀ := by
  intro heq
  have hfirst := (lookup_eq_some_iff h).mpr ⟨hr, show r.Covers r.first from ⟨le_rfl, h.nonempty r hr⟩⟩
  rw [hfirst] at heq
  have hc := ((lookup_eq_some_iff h).mp heq.symm).2
  unfold Region.Covers at hc
  omega

end

theorem append_inj {v w : ℕ} {x x' : BitVec v} {y y' : BitVec w} (h : x ++ y = x' ++ y') :
    x = x' ∧ y = y' := by
  have hleft := congrArg (BitVec.extractLsb' w v) h
  have hright := congrArg (BitVec.extractLsb' 0 w) h
  rw [BitVec.extractLsb'_append_eq_left, BitVec.extractLsb'_append_eq_left] at hleft
  rw [BitVec.extractLsb'_append_eq_right, BitVec.extractLsb'_append_eq_right] at hright
  exact ⟨hleft, hright⟩

theorem ofBool_inj {a b : Bool} (h : BitVec.ofBool a = BitVec.ofBool b) : a = b := by
  cases a <;> cases b <;> first | rfl | cases h

/-- The answer tells the regions of a granule by their numbers. -/
theorem lookup_of_response (hm : Separate m.regions) (hs : Separate sau) {g g' : ℕ}
    (h : response m sau privileged g = response m sau privileged g') :
    lookup m.regions g = lookup m.regions g' ∧ lookup sau g = lookup sau g' := by
  obtain ⟨-, h⟩ := append_inj h
  obtain ⟨h, hmnumber⟩ := append_inj h
  obtain ⟨h, hsnumber⟩ := append_inj h
  obtain ⟨hssome, hmsome⟩ := append_inj h
  exact ⟨lookup_eq_of_number hm (ofBool_inj hmsome) hmnumber,
    lookup_eq_of_number hs (ofBool_inj hssome) hsnumber⟩

/-- **Where regions are apart, the answer changes between two granules with the same answer iff a
region lies between them.** -/
theorem forall_boundary_iff (hm : Separate m.regions) (hs : Separate sau) {g₀ g₁ : ℕ}
    (heq : response m sau privileged g₁ = response m sau privileged g₀) :
    (∀ x, g₀ < x → x ≤ g₁ → IsBoundary m.regions x ∨ IsBoundary sau x →
      response m sau privileged x = response m sau privileged g₀) ↔
    (∀ r ∈ m.regions, ¬ (g₀ < r.first ∧ r.last < g₁)) ∧
      ∀ r ∈ sau, ¬ (g₀ < r.first ∧ r.last < g₁) := by
  constructor
  · intro hall
    refine ⟨?_, ?_⟩
    · rintro r hr ⟨h₀, h₁⟩
      have hle := hm.nonempty r hr
      have hsame := hall r.first h₀ (by omega) (.inl ⟨r, hr, .inl rfl⟩)
      exact lookup_first_ne hm hr h₀ (lookup_of_response hm hs hsame).1
    · rintro r hr ⟨h₀, h₁⟩
      have hle := hs.nonempty r hr
      have hsame := hall r.first h₀ (by omega) (.inr ⟨r, hr, .inl rfl⟩)
      exact lookup_first_ne hs hr h₀ (lookup_of_response hm hs hsame).2
  · rintro ⟨hmin, hsin⟩ x h₀ h₁ -
    obtain ⟨hmlook, hslook⟩ := lookup_of_response hm hs heq
    exact response_congr (hits_between hm hmlook hmin h₀.le h₁)
      (hits_between hs hslook hsin h₀.le h₁)

/-! ## Non-secure regions -/

/-- A region is known by its number. -/
def Numbered (regions : List (Region α)) : Prop :=
  ∀ r ∈ regions, ∀ r' ∈ regions, r.number = r'.number → r = r'

theorem covers_of_lookup {regions : List (Region α)} {g : ℕ} {r : Region α}
    (h : lookup regions g = some r) : r ∈ regions ∧ r.Covers g := by
  rw [lookup] at h
  split at h
  · rename_i r₀ hits_eq
    obtain rfl := Option.some.inj h
    have hmem : r₀ ∈ hits regions g := by
      rw [hits_eq]
      exact List.mem_singleton_self r₀
    obtain ⟨hr, hg⟩ := List.mem_filter.mp hmem
    exact ⟨hr, of_decide_eq_true hg⟩
  · cases h

/-- A granule that is not secure lies in a region that is not callable. -/
theorem lookup_of_not_secure {g : ℕ} (h : secure sau g = false) :
    ∃ r, lookup sau g = some r ∧ r.attrs = false := by
  rw [secure] at h
  cases hr : lookup sau g with
  | none =>
    rw [hr] at h
    cases h
  | some r =>
    rw [hr] at h
    exact ⟨r, rfl, h⟩

/-- **Two granules with the same answer, of which one is not secure, lie in one region.** Regions
may overlap. -/
theorem region_of_response (hn : Numbered sau) {g g' : ℕ}
    (h : response m sau privileged g = response m sau privileged g') (hs : secure sau g = false) :
    ∃ r ∈ sau, r.attrs = false ∧ r.Covers g ∧ r.Covers g' := by
  obtain ⟨r, hr, hattrs⟩ := lookup_of_not_secure hs
  obtain ⟨-, h⟩ := append_inj h
  obtain ⟨h, -⟩ := append_inj h
  obtain ⟨h, hnumber⟩ := append_inj h
  obtain ⟨hsome, -⟩ := append_inj h
  have hsome := ofBool_inj hsome
  rw [hr] at hsome hnumber
  obtain ⟨r', hr'⟩ := Option.isSome_iff_exists.mp hsome.symm
  rw [hr'] at hnumber
  obtain ⟨hmem, hg⟩ := covers_of_lookup hr
  obtain ⟨hmem', hg'⟩ := covers_of_lookup hr'
  obtain rfl := hn r hmem r' hmem' hnumber
  exact ⟨r, hmem, hattrs, hg, hg'⟩

/-- Bit 22 of an answer, and the two bits below it. -/
theorem getLsbD_response (g : ℕ) :
    (response m sau privileged g).getLsbD 22 = secure sau g ∧
      (response m sau privileged g).getLsbD 21 = ((m.perms privileged g).rw && !secure sau g) ∧
      (response m sau privileged g).getLsbD 20 = ((m.perms privileged g).r && !secure sau g) := by
  refine ⟨?_, ?_, ?_⟩ <;> simp only [response, BitVec.getLsbD_append, BitVec.getLsbD_ofBool] <;> simp

end Armv8mTt
