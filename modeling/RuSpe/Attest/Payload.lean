import RuSpe.Attest.Token
import RuSpe.Cose.Signed

set_option autoImplicit false

/-!
# The claim map

The claims of a token as a CBOR data item: what `encode_payload` writes is the encoding of one map,
and the claims can be told from it.

* `AttestClaimValue.toValue`, `AttestClaim.toPair`, `claimMap`;
* `encode_claimMap`: the items that are written form the map;
* `encodePayload_of_fits`, `encodePayload_of_not_fits`;
* `AttestClaimValue.Same`; **`encodePayload_roundTrip`**.
-/

namespace RuSpe

open Cbor (Bytes Item Value)

/-! ## Claims as data items -/

/-- A software component: the signer id, the measurement value, and the measurement type if there is
one. -/
def SwComponent.toValue (comp : SwComponent) : Value :=
  .map ([(.unsigned 5, .bytes comp.signerId), (.unsigned 2, .bytes comp.measurementValue)] ++
    match comp.measurementType with
    | some mt => [(.unsigned 1, .text mt)]
    | none => [])

def AttestClaimValue.toValue : AttestClaimValue → Value
  | .bytes b => .bytes b
  | .text t => .text t
  | .unsigned u => .unsigned u.toNat
  | .signed s => .ofInt s.toInt
  | .swComponents c => .array (c.map SwComponent.toValue)

def AttestClaim.toPair (claim : AttestClaim) : Value × Value :=
  (.unsigned claim.key.val, claim.value.toValue)

/-- The map of all claims, in their order. -/
def claimMap (claims : List AttestClaim) : Value := .map (claims.map AttestClaim.toPair)

/-! ## The items that are written -/

theorem encodeAll_swComponents (components : List SwComponent) :
    (swComponentsItems components).flatMap Item.encode
      = (AttestClaimValue.swComponents components).toValue.encode := by
  rw [swComponentsItems, AttestClaimValue.toValue, Value.encode, List.length_map,
    List.flatMap_cons]
  congr 1
  induction components with
  | nil => rfl
  | cons comp components ih =>
    rw [List.flatMap_cons, List.flatMap_append, ih, List.map_cons, Cbor.encodeAll]
    congr 1
    cases hmt : comp.measurementType with
    | none => simp [SwComponent.toValue, hmt, Value.encode, Cbor.encodePairs]
    | some mt => simp [SwComponent.toValue, hmt, Value.encode, Cbor.encodePairs]

theorem encode_claimValue (value : AttestClaimValue) :
    (claimValueItems value).flatMap Item.encode = value.toValue.encode := by
  cases value with
  | swComponents c => exact encodeAll_swComponents c
  | signed s =>
    rw [claimValueItems, AttestClaimValue.toValue, Cbor.encode_ofInt, List.flatMap_singleton]
  | bytes b => rw [claimValueItems, AttestClaimValue.toValue, Value.encode, List.flatMap_singleton]
  | text t => rw [claimValueItems, AttestClaimValue.toValue, Value.encode, List.flatMap_singleton]
  | unsigned u =>
    rw [claimValueItems, AttestClaimValue.toValue, Value.encode, List.flatMap_singleton]

/-- The items of the payload form the map. -/
theorem encode_claimMap (claims : List AttestClaim) :
    (payloadItems claims).flatMap Item.encode = (claimMap claims).encode := by
  rw [payloadItems, claimMap, Value.encode, List.length_map, List.flatMap_cons]
  congr 1
  induction claims with
  | nil => rfl
  | cons claim claims ih =>
    rw [List.flatMap_cons, List.flatMap_append, ih, List.flatMap_cons, encode_claimValue,
      List.map_cons, AttestClaim.toPair, Cbor.encodePairs, Value.encode]

variable {m : Minicbor}

theorem flatten_flatMap_chunks (hm : m.Preferred) (items : List Item) :
    (items.flatMap m.chunks).flatten = items.flatMap Item.encode := by
  induction items with
  | nil => rfl
  | cons i items ih => rw [List.flatMap_cons, List.flatten_append, ih, hm, List.flatMap_cons]

theorem flatten_encodePayloadTo (hm : m.Preferred) (claims : List AttestClaim) :
    (encodePayloadTo m claims).flatten = (claimMap claims).encode := by
  rw [encodePayloadTo, flatten_flatMap_chunks hm, encode_claimMap]

/-! ## Writing to a slice -/

theorem encodePayload_of_fits (hm : m.Preferred) {claims : List AttestClaim} {out : Bytes}
    (h : (claimMap claims).encode.length ≤ out.length) :
    encodePayload m claims out = (.ok (claimMap claims).encode.length,
      (claimMap claims).encode ++ out.drop (claimMap claims).encode.length) := by
  rw [← flatten_encodePayloadTo hm claims] at h ⊢
  rw [encodePayload, Cursor.run_new_of_fits _ h]

theorem encodePayload_of_not_fits (hm : m.Preferred) {claims : List AttestClaim} {out : Bytes}
    (h : out.length < (claimMap claims).encode.length) :
    (encodePayload m claims out).1 = .error .bufferTooSmall := by
  rw [← flatten_encodePayloadTo hm claims] at h
  obtain ⟨enc, hrun⟩ := Cursor.run_new_of_not_fits _ h
  rw [encodePayload, hrun]

/-! ## The arguments of the heads -/

theorem fits_swComponent {comp : SwComponent} (h : comp.toValue.encode.length < 2 ^ 64) :
    comp.toValue.Fits := by
  refine Cbor.fits_map h ?_
  intro p hp
  rcases List.mem_append.mp hp with hp | hp
  · simp only [List.mem_cons, List.not_mem_nil, or_false] at hp
    rcases hp with rfl | rfl
    · exact ⟨by rw [Value.fits_unsigned]; decide, Cbor.fits_bytes⟩
    · exact ⟨by rw [Value.fits_unsigned]; decide, Cbor.fits_bytes⟩
  · cases hmt : comp.measurementType with
    | none =>
      rw [hmt] at hp
      cases hp
    | some mt =>
      rw [hmt] at hp
      obtain rfl := List.mem_singleton.mp hp
      exact ⟨by rw [Value.fits_unsigned]; decide, Cbor.fits_text⟩

theorem fits_claimValue {value : AttestClaimValue} (h : value.toValue.encode.length < 2 ^ 64) :
    value.toValue.Fits := by
  cases value with
  | bytes b => exact Cbor.fits_bytes h
  | text t => exact Cbor.fits_text h
  | unsigned u => exact u.isLt
  | signed s =>
    have hlt := s.toInt_lt
    have hle := s.le_toInt
    rw [AttestClaimValue.toValue]
    cases hs : s.toInt with
    | ofNat n =>
      rw [hs, Int.ofNat_eq_natCast] at hlt
      rw [Value.ofInt, Value.fits_unsigned]
      omega
    | negSucc n =>
      rw [Value.ofInt, Value.fits_negative]
      omega
  | swComponents c =>
    refine Cbor.fits_array h ?_
    intro v hv
    obtain ⟨comp, -, rfl⟩ := List.mem_map.mp hv
    exact fits_swComponent

theorem fits_claimMap {claims : List AttestClaim} (h : (claimMap claims).encode.length < 2 ^ 64) :
    (claimMap claims).Fits := by
  refine Cbor.fits_map h ?_
  intro p hp
  obtain ⟨claim, -, rfl⟩ := List.mem_map.mp hp
  refine ⟨?_, fits_claimValue⟩
  rw [AttestClaim.toPair, Value.fits_unsigned]
  cases claim.key <;> decide

/-! ## Claims that are encoded the same -/

/-- The same value, where a number may be signed or unsigned. -/
def AttestClaimValue.Same : AttestClaimValue → AttestClaimValue → Prop
  | .unsigned u, .signed s => (u.toNat : ℤ) = s.toInt
  | .signed s, .unsigned u => s.toInt = (u.toNat : ℤ)
  | v, w => v = w

def AttestClaim.Same (claim claim' : AttestClaim) : Prop :=
  claim.key = claim'.key ∧ claim.value.Same claim'.value

theorem SwComponent.toValue_injective : Function.Injective SwComponent.toValue := by
  rintro ⟨mt, value, signer⟩ ⟨mt', value', signer'⟩ h
  cases mt <;> cases mt' <;> simp_all [SwComponent.toValue]

theorem unsigned_eq_ofInt (n : ℕ) (i : ℤ) : Value.unsigned n = Value.ofInt i ↔ (n : ℤ) = i :=
  Value.ofInt_injective.eq_iff (a := (n : ℤ))

theorem ofInt_cases (i : ℤ) :
    (∃ n, Value.ofInt i = .unsigned n) ∨ ∃ n, Value.ofInt i = .negative n := by
  cases i with
  | ofNat n => exact .inl ⟨n, rfl⟩
  | negSucc n => exact .inr ⟨n, rfl⟩

theorem signed_toValue_eq_iff (s : BitVec 64) (w : AttestClaimValue) :
    Value.ofInt s.toInt = w.toValue ↔ (AttestClaimValue.signed s).Same w := by
  cases w with
  | signed s' =>
    rw [AttestClaimValue.toValue, Value.ofInt_injective.eq_iff, BitVec.toInt_inj,
      ← AttestClaimValue.signed.injEq]
    exact Iff.rfl
  | unsigned u =>
    rw [AttestClaimValue.toValue, eq_comm, unsigned_eq_ofInt, eq_comm]
    exact Iff.rfl
  | bytes b =>
    rcases ofInt_cases s.toInt with ⟨n, hn⟩ | ⟨n, hn⟩ <;> rw [hn] <;> constructor <;> rintro ⟨⟩
  | text t =>
    rcases ofInt_cases s.toInt with ⟨n, hn⟩ | ⟨n, hn⟩ <;> rw [hn] <;> constructor <;> rintro ⟨⟩
  | swComponents c =>
    rcases ofInt_cases s.toInt with ⟨n, hn⟩ | ⟨n, hn⟩ <;> rw [hn] <;> constructor <;> rintro ⟨⟩

theorem AttestClaimValue.Same.symm_iff (v w : AttestClaimValue) : v.Same w ↔ w.Same v := by
  cases v <;> cases w <;> exact eq_comm

theorem toValue_eq_iff (v w : AttestClaimValue) : v.toValue = w.toValue ↔ v.Same w := by
  by_cases hv : ∃ s, v = .signed s
  · obtain ⟨s, rfl⟩ := hv
    exact signed_toValue_eq_iff s w
  · by_cases hw : ∃ s, w = .signed s
    · obtain ⟨s, rfl⟩ := hw
      rw [eq_comm, AttestClaimValue.Same.symm_iff]
      exact signed_toValue_eq_iff s v
    · cases v with
      | signed s => exact absurd ⟨s, rfl⟩ hv
      | bytes b => cases w <;> simp_all [AttestClaimValue.toValue, AttestClaimValue.Same]
      | text t => cases w <;> simp_all [AttestClaimValue.toValue, AttestClaimValue.Same]
      | unsigned u =>
        cases w <;> simp_all [AttestClaimValue.toValue, AttestClaimValue.Same, BitVec.toNat_inj]
      | swComponents c =>
        cases w <;> simp_all [AttestClaimValue.toValue, AttestClaimValue.Same,
          (List.map_injective_iff.mpr SwComponent.toValue_injective).eq_iff]

theorem IatClaim.val_injective : Function.Injective IatClaim.val := by
  intro k k' h
  cases k <;> cases k' <;> first | rfl | cases h

theorem toPair_eq_iff (claim claim' : AttestClaim) :
    claim.toPair = claim'.toPair ↔ claim.Same claim' := by
  rw [AttestClaim.toPair, AttestClaim.toPair, Prod.mk.injEq, Value.unsigned.injEq,
    Function.Injective.eq_iff IatClaim.val_injective, toValue_eq_iff]
  rfl

theorem claimMap_eq_iff (claims claims' : List AttestClaim) :
    claimMap claims = claimMap claims' ↔ List.Forall₂ AttestClaim.Same claims claims' := by
  rw [claimMap, claimMap, Value.map.injEq, ← List.forall₂_eq_eq_eq, List.forall₂_map_left_iff,
    List.forall₂_map_right_iff]
  simp only [toPair_eq_iff]

/-! ## The round trip -/

theorem encodePayload_ok_iff (hm : m.Preferred) {claims : List AttestClaim} {out : Bytes} {n : ℕ} :
    (encodePayload m claims out).1 = .ok n ↔
      (claimMap claims).encode.length ≤ out.length ∧ n = (claimMap claims).encode.length := by
  by_cases h : (claimMap claims).encode.length ≤ out.length
  · rw [encodePayload_of_fits hm h, Except.ok.injEq, eq_comm]
    exact (and_iff_right h).symm
  · rw [encodePayload_of_not_fits hm (by omega)]
    constructor
    · rintro ⟨⟩
    · rintro ⟨hle, -⟩
      exact absurd hle h

theorem encodePayload_take (hm : m.Preferred) {claims : List AttestClaim} {out : Bytes} {n : ℕ}
    (h : (encodePayload m claims out).1 = .ok n) :
    (encodePayload m claims out).2.take n = (claimMap claims).encode := by
  obtain ⟨hfits, rfl⟩ := (encodePayload_ok_iff hm).mp h
  rw [encodePayload_of_fits hm hfits, List.take_left]

theorem fits_of_encodePayload (hm : m.Preferred) {claims : List AttestClaim} {out : Bytes} {n : ℕ}
    (hout : out.length < 2 ^ 64) (h : (encodePayload m claims out).1 = .ok n) :
    (claimMap claims).Fits := by
  obtain ⟨hfits, -⟩ := (encodePayload_ok_iff hm).mp h
  exact fits_claimMap (by omega)

/-- **The claims can be told from the payload.** It is written iff it fits, it is one map with a pair
for each claim, and other claims are written differently. -/
theorem encodePayload_roundTrip (hm : m.Preferred) (claims : List AttestClaim) {out : Bytes}
    (hout : out.length < 2 ^ 64) (n : ℕ) :
    ((encodePayload m claims out).1 = .ok n ↔
      (claimMap claims).encode.length ≤ out.length ∧ n = (claimMap claims).encode.length) ∧
    ((encodePayload m claims out).1 = .ok n →
      (encodePayload m claims out).2.length = out.length ∧
      Cbor.decode ((encodePayload m claims out).2.take n)
        = some (.map (claims.map AttestClaim.toPair)) ∧
      ∀ (claims' : List AttestClaim) (out' : Bytes) (n' : ℕ), out'.length < 2 ^ 64 →
        (encodePayload m claims' out').1 = .ok n' →
        ((encodePayload m claims out).2.take n = (encodePayload m claims' out').2.take n' ↔
          List.Forall₂ AttestClaim.Same claims claims')) := by
  refine ⟨encodePayload_ok_iff hm, fun h => ⟨?_, ?_, ?_⟩⟩
  · obtain ⟨hfits, -⟩ := (encodePayload_ok_iff hm).mp h
    rw [encodePayload_of_fits hm hfits, List.length_append, List.length_drop]
    omega
  · rw [encodePayload_take hm h]
    exact Cbor.decode_encode (fits_of_encodePayload hm hout h)
  · intro claims' out' n' hout' h'
    rw [encodePayload_take hm h, encodePayload_take hm h', ← claimMap_eq_iff]
    exact Cbor.encode_inj (fits_of_encodePayload hm hout h) (fits_of_encodePayload hm hout' h')

open TestVector in
/-- A client id and a software component, written to 32 bytes. -/
theorem encodePayload_roundTrip_component :
    Cbor.decode ((encodePayload minicbor [⟨.clientId, .signed 1⟩,
        ⟨.swComponents, .swComponents [⟨some "a", [3], [8]⟩]⟩] (List.replicate 32 0)).2.take 19)
      = some (.map [(.unsigned 2394, .unsigned 1), (.unsigned 2399, .array
          [.map [(.unsigned 5, .bytes [8]), (.unsigned 2, .bytes [3]), (.unsigned 1, .text "a")]])])
    := by
  have hround := @encodePayload_roundTrip minicbor preferred [⟨.clientId, .signed 1⟩,
    ⟨.swComponents, .swComponents [⟨some "a", [3], [8]⟩]⟩] (List.replicate 32 0) (by decide) 19
  exact (hround.2 (hround.1.mpr ⟨by decide, by decide⟩)).2.1

end RuSpe
