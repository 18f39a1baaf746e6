import Mathlib.Tactic

set_option autoImplicit false

/-!
# Bytes as hexadecimal text

A byte is two hexadecimal digits, the high one first. They are written in lower case and read in
either.

* `digit`, `nibble`: what a digit stands for, and the digit of a value;
* `decode`, `encode`: texts of whole bytes;
* **`decode_encode`**: what was written is read;
* **`encode_decode`**: a text is that of its bytes, but for the case of its letters;
* **`isSome_decode`**: a text can be read iff it has digits only, and two for each byte.
-/

namespace Hex

/-- What a digit stands for. -/
def digit (c : UInt8) : Option UInt8 :=
  if 0x30 ≤ c ∧ c ≤ 0x39 then some (c - 0x30)
  else if 0x61 ≤ c ∧ c ≤ 0x66 then some (c - 0x61 + 10)
  else if 0x41 ≤ c ∧ c ≤ 0x46 then some (c - 0x41 + 10)
  else none

/-- The digit of a value below 16. -/
def nibble (d : UInt8) : UInt8 := if d < 10 then 0x30 + d else 0x61 + (d - 10)

/-- A letter in lower case. -/
def lower (c : UInt8) : UInt8 := if 0x41 ≤ c ∧ c ≤ 0x46 then c + 0x20 else c

/-- The byte of two values below 16. -/
def join (d₁ d₂ : UInt8) : UInt8 := d₁ <<< 4 ||| d₂

/-- The two digits of a byte. -/
def encodeByte (b : UInt8) : List UInt8 := [nibble (b >>> 4), nibble (b &&& 0xF)]

def encode (bytes : List UInt8) : List UInt8 := bytes.flatMap encodeByte

def decode : List UInt8 → Option (List UInt8)
  | [] => some []
  | [_] => none
  | c₁ :: c₂ :: text =>
    (digit c₁).bind fun d₁ => (digit c₂).bind fun d₂ => (decode text).map (join d₁ d₂ :: ·)

theorem decode_cons_cons (c₁ c₂ : UInt8) (text : List UInt8) : decode (c₁ :: c₂ :: text) =
    (digit c₁).bind fun d₁ => (digit c₂).bind fun d₂ => (decode text).map (join d₁ d₂ :: ·) := rfl

/-! ## Digits -/

theorem digit_cases {c d : UInt8} (h : digit c = some d) :
    (48 ≤ c.toNat ∧ c.toNat ≤ 57 ∧ d.toNat = c.toNat - 48) ∨
      (97 ≤ c.toNat ∧ c.toNat ≤ 102 ∧ d.toNat = c.toNat - 87) ∨
      (65 ≤ c.toNat ∧ c.toNat ≤ 70 ∧ d.toNat = c.toNat - 55) := by
  have hc := c.toNat_lt
  unfold digit at h
  simp only [UInt8.le_iff_toNat_le] at h
  split_ifs at h with h₁ h₂ h₃ <;> cases h
  · refine .inl ⟨h₁.1, h₁.2, ?_⟩
    simp [UInt8.toNat_sub] at h₁ ⊢
    omega
  · refine .inr (.inl ⟨h₂.1, h₂.2, ?_⟩)
    simp [UInt8.toNat_sub] at h₂ ⊢
    omega
  · refine .inr (.inr ⟨h₃.1, h₃.2, ?_⟩)
    simp [UInt8.toNat_sub] at h₃ ⊢
    omega

theorem digit_lt {c d : UInt8} (h : digit c = some d) : d.toNat < 16 := by
  rcases digit_cases h with ⟨h₁, h₂, h₃⟩ | ⟨h₁, h₂, h₃⟩ | ⟨h₁, h₂, h₃⟩ <;> omega

theorem digit_nibble {d : UInt8} (h : d.toNat < 16) : digit (nibble d) = some d := by
  obtain ⟨n, hn, rfl⟩ : ∃ n < 16, d = UInt8.ofNat n := ⟨d.toNat, h, d.ofNat_toNat.symm⟩
  interval_cases n <;> rfl

/-- Only letters have a digit in each case. -/
theorem nibble_digit {c d : UInt8} (h : digit c = some d) : nibble d = lower c := by
  unfold nibble lower
  rw [← UInt8.toNat_inj]
  simp only [UInt8.le_iff_toNat_le, UInt8.lt_iff_toNat_lt]
  rcases digit_cases h with ⟨h₁, h₂, h₃⟩ | ⟨h₁, h₂, h₃⟩ | ⟨h₁, h₂, h₃⟩
  · rw [if_pos (by simp; omega), if_neg (by simp; omega)]
    simp
    omega
  · rw [if_neg (by simp; omega), if_neg (by simp; omega)]
    simp [UInt8.toNat_sub]
    omega
  · rw [if_neg (by simp; omega), if_pos (by simp; omega)]
    simp [UInt8.toNat_sub]
    omega

/-! ## Bytes -/

theorem toNat_join {d₁ d₂ : UInt8} (h₁ : d₁.toNat < 16) (h₂ : d₂.toNat < 16) :
    (join d₁ d₂).toNat = 16 * d₁.toNat + d₂.toNat := by
  have hshift : (d₁ <<< 4).toNat = d₁.toNat <<< 4 := by
    simp [UInt8.toNat_shiftLeft, Nat.shiftLeft_eq]
    omega
  rw [join, UInt8.toNat_or, hshift, Nat.shiftLeft_add_eq_or_of_lt h₂ d₁.toNat |>.symm,
    Nat.shiftLeft_eq]
  omega

theorem toNat_shiftRight (b : UInt8) : (b >>> 4).toNat = b.toNat / 16 := by
  simp [UInt8.toNat_shiftRight, Nat.shiftRight_eq_div_pow]

theorem toNat_and (b : UInt8) : (b &&& 0xF).toNat = b.toNat % 16 := by
  rw [UInt8.toNat_and]
  exact Nat.and_two_pow_sub_one_eq_mod b.toNat 4

theorem encodeByte_join {d₁ d₂ : UInt8} (h₁ : d₁.toNat < 16) (h₂ : d₂.toNat < 16) :
    encodeByte (join d₁ d₂) = [nibble d₁, nibble d₂] := by
  have hhigh : join d₁ d₂ >>> 4 = d₁ := by
    rw [← UInt8.toNat_inj, toNat_shiftRight, toNat_join h₁ h₂]
    omega
  have hlow : join d₁ d₂ &&& 0xF = d₂ := by
    rw [← UInt8.toNat_inj, toNat_and, toNat_join h₁ h₂]
    omega
  rw [encodeByte, hhigh, hlow]

theorem join_halves (b : UInt8) : join (b >>> 4) (b &&& 0xF) = b := by
  have hb := b.toNat_lt
  rw [← UInt8.toNat_inj, toNat_join] <;> simp only [toNat_shiftRight, toNat_and] <;> omega

/-! ## Texts -/

@[simp] theorem length_encode (bytes : List UInt8) : (encode bytes).length = 2 * bytes.length := by
  induction bytes with
  | nil => rfl
  | cons b bytes ih =>
    rw [encode, List.flatMap_cons, List.length_append, ← encode, ih, List.length_cons]
    simp only [encodeByte, List.length_cons, List.length_nil]
    omega

/-- **What was written is read.** -/
theorem decode_encode (bytes : List UInt8) : decode (encode bytes) = some bytes := by
  induction bytes with
  | nil => rfl
  | cons b bytes ih =>
    have hhigh : (b >>> 4).toNat < 16 := by
      have hb := b.toNat_lt
      rw [toNat_shiftRight]
      omega
    have hlow : (b &&& 0xF).toNat < 16 := by
      rw [toNat_and]
      omega
    rw [encode, List.flatMap_cons, encodeByte, List.cons_append, List.cons_append, List.nil_append,
      ← encode, decode_cons_cons, digit_nibble hhigh, digit_nibble hlow, ih, Option.bind_some,
      Option.bind_some, Option.map_some, join_halves]

/-- A text that can be read begins with the digits of its first byte. -/
theorem decode_eq_some_cons {c₁ c₂ : UInt8} {text bytes : List UInt8}
    (h : decode (c₁ :: c₂ :: text) = some bytes) :
    ∃ d₁ d₂ bytes', digit c₁ = some d₁ ∧ digit c₂ = some d₂ ∧ decode text = some bytes' ∧
      bytes = join d₁ d₂ :: bytes' := by
  rw [decode_cons_cons] at h
  obtain ⟨d₁, h₁, h⟩ := Option.bind_eq_some_iff.mp h
  obtain ⟨d₂, h₂, h⟩ := Option.bind_eq_some_iff.mp h
  obtain ⟨bytes', h', rfl⟩ := Option.map_eq_some_iff.mp h
  exact ⟨d₁, d₂, bytes', h₁, h₂, h', rfl⟩

/-- **A text is that of its bytes**, but for the case of its letters. -/
theorem encode_decode {text bytes : List UInt8} (h : decode text = some bytes) :
    encode bytes = text.map lower := by
  induction text using decode.induct generalizing bytes with
  | case1 => cases h; rfl
  | case2 c => cases h
  | case3 c₁ c₂ text ih =>
    obtain ⟨d₁, d₂, bytes', h₁, h₂, h', rfl⟩ := decode_eq_some_cons h
    rw [encode, List.flatMap_cons, ← encode, ih h', encodeByte_join (digit_lt h₁) (digit_lt h₂),
      nibble_digit h₁, nibble_digit h₂]
    rfl

theorem length_of_decode {text bytes : List UInt8} (h : decode text = some bytes) :
    text.length = 2 * bytes.length := by
  rw [← length_encode, encode_decode h, List.length_map]

/-- **A text can be read iff it has digits only**, and two for each byte. -/
theorem isSome_decode {text : List UInt8} :
    (decode text).isSome ↔ 2 ∣ text.length ∧ ∀ c ∈ text, (digit c).isSome := by
  induction text using decode.induct with
  | case1 => simp [decode]
  | case2 c => simp [decode]
  | case3 c₁ c₂ text ih =>
    have hlen : 2 ∣ (c₁ :: c₂ :: text).length ↔ 2 ∣ text.length := by
      simp only [List.length_cons]
      omega
    rw [decode_cons_cons, hlen, List.forall_mem_cons, List.forall_mem_cons]
    cases digit c₁ with
    | none => simp
    | some d₁ =>
      cases digit c₂ with
      | none => simp
      | some d₂ => simpa using ih

end Hex
