import RuSpe.Lib.Cbor

set_option autoImplicit false

/-!
# CBOR, whole data items

An item with everything it holds, how it is written in preferred serialization, and a decoder for
items of definite length.

* `Value`, `Value.encode`, `Value.Fits`;
* `readHead`, `decodeItem`, `decode`: the decoder;
* `readHead_head`, `readBytes_encode`: a head and a byte string are read back;
* **`decode_encode`**: an item is read back from its encoding, with nothing left; `encode_inj`.
-/

namespace Cbor

/-- A data item of definite length. `negative n` is `-1 - n`. -/
inductive Value
  | unsigned (n : ℕ)
  | negative (n : ℕ)
  | bytes (b : Bytes)
  | text (s : String)
  | array (items : List Value)
  | map (pairs : List (Value × Value))
  | tag (n : ℕ) (item : Value)
  | null

/-- An integer is an unsigned or a negative item. -/
def Value.ofInt : ℤ → Value
  | .ofNat n => unsigned n
  | .negSucc n => negative n

theorem Value.ofInt_injective : Function.Injective Value.ofInt := by
  intro i j h
  cases i <;> cases j <;> cases h <;> rfl

/-! ## Writing -/

mutual

def Value.encode : Value → Bytes
  | .unsigned n => Item.encode (.unsigned n)
  | .negative n => Item.encode (.negative n)
  | .bytes b => Item.encode (.bytes b)
  | .text s => Item.encode (.text s)
  | .array items => Item.encode (.array items.length) ++ encodeAll items
  | .map pairs => Item.encode (.map pairs.length) ++ encodePairs pairs
  | .tag n item => Item.encode (.tag n) ++ item.encode
  | .null => Item.encode .null

/-- Items one after another. -/
def encodeAll : List Value → Bytes
  | [] => []
  | item :: items => item.encode ++ encodeAll items

/-- Keys and values in turn. -/
def encodePairs : List (Value × Value) → Bytes
  | [] => []
  | (key, value) :: pairs => key.encode ++ value.encode ++ encodePairs pairs

end

mutual

/-- All numbers and lengths can be arguments of a head. -/
def Value.Fits : Value → Prop
  | .unsigned n => n < 2 ^ 64
  | .negative n => n < 2 ^ 64
  | .bytes b => b.length < 2 ^ 64
  | .text s => (utf8 s).length < 2 ^ 64
  | .array items => items.length < 2 ^ 64 ∧ AllFit items
  | .map pairs => pairs.length < 2 ^ 64 ∧ PairsFit pairs
  | .tag n item => n < 2 ^ 64 ∧ item.Fits
  | .null => True

def AllFit : List Value → Prop
  | [] => True
  | item :: items => item.Fits ∧ AllFit items

def PairsFit : List (Value × Value) → Prop
  | [] => True
  | (key, value) :: pairs => key.Fits ∧ value.Fits ∧ PairsFit pairs

end

namespace Value

theorem fits_unsigned (n : ℕ) : (unsigned n).Fits ↔ n < 2 ^ 64 := Iff.rfl
theorem fits_negative (n : ℕ) : (negative n).Fits ↔ n < 2 ^ 64 := Iff.rfl
theorem fits_bytes (b : Bytes) : (bytes b).Fits ↔ b.length < 2 ^ 64 := Iff.rfl
theorem fits_text (s : String) : (text s).Fits ↔ (utf8 s).length < 2 ^ 64 := Iff.rfl

end Value

/-! ## Reading -/

/-- The major type and the argument of a head, and what comes after it. -/
def readHead : Bytes → Option (ℕ × ℕ × Bytes)
  | [] => none
  | first :: rest =>
    (readArg (first.toNat % 32) rest).map fun (n, k) => (first.toNat / 32, n, rest.drop k)

/-- `n` items, each read by `dec`. -/
def decodeSeq {α : Type} (dec : Bytes → Option (α × Bytes)) : ℕ → Bytes → Option (List α × Bytes)
  | 0, b => some ([], b)
  | n + 1, b =>
    (dec b).bind fun (item, b) => (decodeSeq dec n b).map fun (items, b) => (item :: items, b)

/-- A key and its value. -/
def decodePair (dec : Bytes → Option (Value × Bytes)) (b : Bytes) :
    Option ((Value × Value) × Bytes) :=
  (dec b).bind fun (key, b) => (dec b).map fun (value, b) => ((key, value), b)

/-- One item at the beginning of `b`, nested no deeper than the fuel. -/
def decodeItem : ℕ → Bytes → Option (Value × Bytes)
  | 0, _ => none
  | fuel + 1, b =>
    (readHead b).bind fun (major, n, rest) =>
      match major with
      | 0 => some (.unsigned n, rest)
      | 1 => some (.negative n, rest)
      | 2 => if n ≤ rest.length then some (.bytes (rest.take n), rest.drop n) else none
      | 3 =>
        if n ≤ rest.length then
          (String.fromUTF8? ⟨(rest.take n).toArray⟩).map fun s => (.text s, rest.drop n)
        else none
      | 4 => (decodeSeq (decodeItem fuel) n rest).map fun (items, rest) => (.array items, rest)
      | 5 =>
        (decodeSeq (decodePair (decodeItem fuel)) n rest).map fun (pairs, rest) =>
          (.map pairs, rest)
      | 6 => (decodeItem fuel rest).map fun (item, rest) => (.tag n item, rest)
      | _ => if b.head? = some 0xF6 then some (.null, rest) else none

/-- One item, and nothing after it. -/
def decode (b : Bytes) : Option Value :=
  match decodeItem b.length b with
  | some (value, []) => some value
  | _ => none

/-! ## Sizes of the parts -/

theorem encode_ofInt (i : ℤ) : (Value.ofInt i).encode = (Item.ofInt i).encode := by
  cases i <;> simp only [Value.ofInt, Item.ofInt, Value.encode]

theorem length_encode_le_of_mem {v : Value} {items : List Value} (h : v ∈ items) :
    v.encode.length ≤ (encodeAll items).length := by
  induction items with
  | nil => cases h
  | cons item items ih =>
    rw [encodeAll, List.length_append]
    rcases List.mem_cons.mp h with rfl | h
    · exact Nat.le_add_right _ _
    · exact (ih h).trans (Nat.le_add_left _ _)

theorem length_pair_le_of_mem {p : Value × Value} {pairs : List (Value × Value)} (h : p ∈ pairs) :
    p.1.encode.length + p.2.encode.length ≤ (encodePairs pairs).length := by
  induction pairs with
  | nil => cases h
  | cons q pairs ih =>
    obtain ⟨key, value⟩ := q
    rw [encodePairs, List.length_append, List.length_append]
    rcases List.mem_cons.mp h with rfl | h
    · exact Nat.le_add_right _ _
    · exact (ih h).trans (Nat.le_add_left _ _)

theorem allFit_of_forall {items : List Value} (h : ∀ v ∈ items, v.Fits) : AllFit items := by
  induction items with
  | nil => trivial
  | cons item items ih =>
    exact ⟨h item List.mem_cons_self, ih fun v hv => h v (List.mem_cons_of_mem _ hv)⟩

theorem pairsFit_of_forall {pairs : List (Value × Value)} (h : ∀ p ∈ pairs, p.1.Fits ∧ p.2.Fits) :
    PairsFit pairs := by
  induction pairs with
  | nil => trivial
  | cons pair pairs ih =>
    obtain ⟨hkey, hvalue⟩ := h pair List.mem_cons_self
    exact ⟨hkey, hvalue, ih fun p hp => h p (List.mem_cons_of_mem _ hp)⟩

/-! ## Heads -/

theorem ofBeBytes_beBytes (k n : ℕ) : ofBeBytes (beBytes k n) = n % 256 ^ k := by
  induction k generalizing n with
  | zero => rw [pow_zero, Nat.mod_one]; rfl
  | succ k ih =>
    have hlast : ofBeBytes (beBytes k (n / 256) ++ [UInt8.ofNat n]) =
        256 * ofBeBytes (beBytes k (n / 256)) + (UInt8.ofNat n).toNat := List.foldl_append
    have hmod : n % (256 * 256 ^ k) = n % 256 + 256 * (n / 256 % 256 ^ k) := Nat.mod_mul
    rw [beBytes, hlast, ih, UInt8.toNat_ofNat', show 256 ^ (k + 1) = 256 * 256 ^ k from pow_succ' _ _,
      hmod]
    exact Nat.add_comm _ _

theorem toNat_first {major low : ℕ} (hm : major < 8) (hl : low < 32) :
    (UInt8.ofNat (major * 32 + low)).toNat = major * 32 + low := by
  rw [UInt8.toNat_ofNat']
  omega

/-- A head whose argument is in the `2 ^ i` bytes after the first one. -/
theorem readHead_long {major i n : ℕ} (hm : major < 8) (hi : i < 4) (hn : n < 256 ^ 2 ^ i)
    (rest : Bytes) :
    readHead (UInt8.ofNat (major * 32 + (24 + i)) :: beBytes (2 ^ i) n ++ rest) =
      some (major, n, rest) := by
  have hlen : (beBytes (2 ^ i) n).length = 2 ^ i := length_beBytes _ _
  have hlow : (major * 32 + (24 + i)) % 32 = 24 + i := by omega
  have hmaj : (major * 32 + (24 + i)) / 32 = major := by omega
  have harg : readArg (24 + i) (beBytes (2 ^ i) n ++ rest) = some (n, 2 ^ i) := by
    rw [readArg, if_neg (by omega), Nat.add_sub_cancel_left]
    dsimp only
    rw [if_pos ⟨by omega, by rw [List.length_append, hlen]; exact Nat.le_add_right _ _⟩,
      List.take_left' hlen, ofBeBytes_beBytes, Nat.mod_eq_of_lt hn]
  rw [List.cons_append, readHead, toNat_first hm (by omega), hlow, hmaj, harg, Option.map_some]
  dsimp only
  rw [List.drop_left' hlen]

/-- **A head is read back.** -/
theorem readHead_head {major n : ℕ} (hm : major < 8) (hn : n < 2 ^ 64) (rest : Bytes) :
    readHead (head major n ++ rest) = some (major, n, rest) := by
  rw [head]
  split_ifs with h₀ h₁ h₂ h₃
  · rw [List.singleton_append, readHead, toNat_first hm (by omega),
      show (major * 32 + n) % 32 = n by omega, show (major * 32 + n) / 32 = major by omega, readArg,
      if_pos h₀]
    rfl
  · exact readHead_long (i := 0) hm (by omega) h₁ rest
  · exact readHead_long (i := 1) hm (by omega) h₂ rest
  · exact readHead_long (i := 2) hm (by omega) h₃ rest
  · exact readHead_long (i := 3) hm (by omega) hn rest

/-- A byte string is read to its end. -/
theorem readBytes_encode {b : Bytes} (hb : b.length < 2 ^ 64) :
    readBytes (Item.encode (.bytes b)) = some (Item.encode (.bytes b)).length := by
  have hread := readHead_head (show 2 < 8 by decide) hb b
  rw [Item.encode]
  cases hl : head 2 b.length ++ b with
  | nil =>
    rw [hl] at hread
    cases hread
  | cons first rest =>
    rw [hl, readHead] at hread
    obtain ⟨⟨n, k⟩, harg, hx⟩ := Option.map_eq_some_iff.mp hread
    obtain ⟨hmaj, hx⟩ := Prod.mk.inj hx
    obtain ⟨rfl, hdrop⟩ := Prod.mk.inj hx
    have hk : k ≤ rest.length := by
      rw [readArg] at harg
      split_ifs at harg with h24
      · obtain ⟨-, rfl⟩ := Prod.mk.inj (Option.some.inj harg)
        exact Nat.zero_le _
      · dsimp only at harg
        split_ifs at harg with hle
        obtain ⟨-, rfl⟩ := Prod.mk.inj (Option.some.inj harg)
        exact hle.2
    have hlen : rest.length - k = b.length := by rw [← List.length_drop, hdrop]
    rw [readBytes, if_pos hmaj, harg, Option.bind_some]
    dsimp only
    rw [if_pos (by omega), List.length_cons]
    congr 1
    omega

theorem fromUTF8?_utf8 (s : String) : String.fromUTF8? ⟨(utf8 s).toArray⟩ = some s := by
  have hb : (⟨(utf8 s).toArray⟩ : ByteArray) = s.toByteArray := rfl
  rw [hb, String.fromUTF8?, dif_pos s.isValidUTF8]
  rfl

/-! ## The round trip -/

/-- An encoding begins with the head of the item. -/
theorem encode_eq_append (v : Value) :
    ∃ (item : Item) (rest : Bytes), v.encode = item.encode ++ rest := by
  cases v with
  | array items => exact ⟨_, encodeAll items, by rw [Value.encode]⟩
  | map pairs => exact ⟨_, encodePairs pairs, by rw [Value.encode]⟩
  | tag n item => exact ⟨_, item.encode, by rw [Value.encode]⟩
  | _ => exact ⟨_, [], by rw [Value.encode, List.append_nil]⟩

theorem encode_pos (v : Value) : 0 < v.encode.length := by
  obtain ⟨item, rest, h⟩ := encode_eq_append v
  have := item.size_pos
  rw [h, List.length_append, Item.length_encode]
  omega

mutual

theorem decodeItem_encode (v : Value) (hv : v.Fits) {fuel : ℕ} (hf : v.encode.length ≤ fuel)
    (rest : Bytes) : decodeItem fuel (v.encode ++ rest) = some (v, rest) := by
  obtain ⟨fuel, rfl⟩ : ∃ k, fuel = k + 1 := ⟨fuel - 1, by have := encode_pos v; omega⟩
  match v with
  | .unsigned n =>
    rw [Value.encode, Item.encode, decodeItem, readHead_head (by decide) hv]
    rfl
  | .negative n =>
    rw [Value.encode, Item.encode, decodeItem, readHead_head (by decide) hv]
    rfl
  | .bytes b =>
    rw [Value.encode, Item.encode, List.append_assoc, decodeItem, readHead_head (by decide) hv]
    simp
  | .text s =>
    rw [Value.encode, Item.encode, List.append_assoc, decodeItem, readHead_head (by decide) hv]
    simp [fromUTF8?_utf8]
  | .array items =>
    rw [Value.encode, List.length_append, Item.length_encode] at hf
    have hpos := (Item.array items.length).size_pos
    rw [Value.encode, Item.encode, List.append_assoc, decodeItem, readHead_head (by decide) hv.1,
      Option.bind_some]
    dsimp only
    rw [decodeSeq_encodeAll items hv.2 (by omega) rest]
    rfl
  | .map pairs =>
    rw [Value.encode, List.length_append, Item.length_encode] at hf
    have hpos := (Item.map pairs.length).size_pos
    rw [Value.encode, Item.encode, List.append_assoc, decodeItem, readHead_head (by decide) hv.1,
      Option.bind_some]
    dsimp only
    rw [decodeSeq_encodePairs pairs hv.2 (by omega) rest]
    rfl
  | .tag n item =>
    rw [Value.encode, List.length_append, Item.length_encode] at hf
    have hpos := (Item.tag n).size_pos
    rw [Value.encode, Item.encode, List.append_assoc, decodeItem, readHead_head (by decide) hv.1,
      Option.bind_some]
    dsimp only
    rw [decodeItem_encode item hv.2 (by omega) rest]
    rfl
  | .null => rfl

theorem decodeSeq_encodeAll (items : List Value) (hi : AllFit items) {fuel : ℕ}
    (hf : (encodeAll items).length ≤ fuel) (rest : Bytes) :
    decodeSeq (decodeItem fuel) items.length (encodeAll items ++ rest) = some (items, rest) := by
  match items with
  | [] => rfl
  | item :: items =>
    rw [encodeAll, List.length_append] at hf
    rw [encodeAll, List.append_assoc, List.length_cons, decodeSeq,
      decodeItem_encode item hi.1 (by omega), Option.bind_some]
    dsimp only
    rw [decodeSeq_encodeAll items hi.2 (by omega)]
    rfl

theorem decodeSeq_encodePairs (pairs : List (Value × Value)) (hp : PairsFit pairs) {fuel : ℕ}
    (hf : (encodePairs pairs).length ≤ fuel) (rest : Bytes) :
    decodeSeq (decodePair (decodeItem fuel)) pairs.length (encodePairs pairs ++ rest) =
      some (pairs, rest) := by
  match pairs with
  | [] => rfl
  | (key, value) :: pairs =>
    rw [encodePairs, List.length_append, List.length_append] at hf
    rw [encodePairs, List.append_assoc, List.append_assoc, List.length_cons, decodeSeq, decodePair,
      decodeItem_encode key hp.1 (by omega), Option.bind_some]
    dsimp only
    rw [decodeItem_encode value hp.2.1 (by omega), Option.map_some, Option.bind_some]
    dsimp only
    rw [decodeSeq_encodePairs pairs hp.2.2 (by omega)]
    rfl

end

theorem length_le_encodeAll (items : List Value) : items.length ≤ (encodeAll items).length := by
  induction items with
  | nil => exact le_rfl
  | cons item items ih =>
    have hpos := encode_pos item
    rw [encodeAll, List.length_append, List.length_cons]
    omega

theorem length_le_encodePairs (pairs : List (Value × Value)) :
    pairs.length ≤ (encodePairs pairs).length := by
  induction pairs with
  | nil => exact le_rfl
  | cons pair pairs ih =>
    obtain ⟨key, value⟩ := pair
    have hpos := encode_pos key
    rw [encodePairs, List.length_append, List.length_append, List.length_cons]
    omega

/-! ## What fits in memory fits in the heads -/

theorem fits_bytes {b : Bytes} (h : (Value.bytes b).encode.length < 2 ^ 64) :
    (Value.bytes b).Fits := by
  rw [Value.encode, Item.encode, List.length_append] at h
  rw [Value.fits_bytes]
  omega

theorem fits_text {s : String} (h : (Value.text s).encode.length < 2 ^ 64) :
    (Value.text s).Fits := by
  rw [Value.encode, Item.encode, List.length_append] at h
  rw [Value.fits_text]
  omega

theorem fits_array {items : List Value} (h : (Value.array items).encode.length < 2 ^ 64)
    (hitems : ∀ v ∈ items, v.encode.length < 2 ^ 64 → v.Fits) : (Value.array items).Fits := by
  have hlen := length_le_encodeAll items
  rw [Value.encode, List.length_append] at h
  refine ⟨by omega, allFit_of_forall fun v hv => hitems v hv ?_⟩
  have hle := length_encode_le_of_mem hv
  omega

theorem fits_map {pairs : List (Value × Value)} (h : (Value.map pairs).encode.length < 2 ^ 64)
    (hpairs : ∀ p ∈ pairs, p.1.Fits ∧ (p.2.encode.length < 2 ^ 64 → p.2.Fits)) :
    (Value.map pairs).Fits := by
  have hlen := length_le_encodePairs pairs
  rw [Value.encode, List.length_append] at h
  refine ⟨by omega, pairsFit_of_forall fun p hp => ⟨(hpairs p hp).1, (hpairs p hp).2 ?_⟩⟩
  have hle := length_pair_le_of_mem hp
  omega

/-! ## What is read -/

/-- **An item is read back from its encoding**, with nothing left. -/
theorem decode_encode {v : Value} (h : v.Fits) : decode v.encode = some v := by
  have hd := decodeItem_encode v h le_rfl []
  rw [List.append_nil] at hd
  rw [decode, hd]

/-- Different items are encoded differently. -/
theorem encode_inj {v w : Value} (hv : v.Fits) (hw : w.Fits) : v.encode = w.encode ↔ v = w := by
  constructor
  · intro h
    have hd := decode_encode hv
    rw [h, decode_encode hw] at hd
    exact (Option.some.inj hd).symm
  · rintro rfl
    rfl

end Cbor
