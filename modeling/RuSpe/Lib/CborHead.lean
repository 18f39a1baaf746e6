import RuSpe.Lib.CborValue

set_option autoImplicit false

/-!
# CBOR, heads of any length

A head may carry its argument in more bytes than necessary. Such a head is well formed, but it is
not in preferred serialization.

* `ofBeBytes_lt`, `beBytes_ofBeBytes`: numbers and their bytes;
* `IsHead`: the heads with a given argument;
* **`IsHead.eq_head_iff`**: the preferred one is told by its length;
* **`readBytes_eq_length_iff`**: the byte strings that are read to their end.
-/

namespace Cbor

/-! ## Numbers and their bytes -/

theorem ofBeBytes_append_singleton (b : Bytes) (x : UInt8) :
    ofBeBytes (b ++ [x]) = 256 * ofBeBytes b + x.toNat := List.foldl_append

theorem ofBeBytes_lt (b : Bytes) : ofBeBytes b < 256 ^ b.length := by
  induction b using List.reverseRecOn with
  | nil => exact Nat.one_pos
  | append_singleton b x ih =>
    have hx := x.toNat_lt
    rw [ofBeBytes_append_singleton, List.length_append, List.length_singleton, pow_succ]
    omega

theorem beBytes_ofBeBytes (b : Bytes) : beBytes b.length (ofBeBytes b) = b := by
  induction b using List.reverseRecOn with
  | nil => rfl
  | append_singleton b x ih =>
    have hx := x.toNat_lt
    rw [ofBeBytes_append_singleton, List.length_append, List.length_singleton, beBytes,
      show (256 * ofBeBytes b + x.toNat) / 256 = ofBeBytes b by omega, ih]
    congr 2
    apply UInt8.toNat_inj.mp
    rw [UInt8.toNat_ofNat']
    omega

/-! ## Heads -/

/-- A head of major type `major` with argument `n`: the argument is in the first byte, or in one,
two, four or eight bytes after it. -/
inductive IsHead (major n : ℕ) : Bytes → Prop
  | short (h : n < 24) : IsHead major n [UInt8.ofNat (major * 32 + n)]
  | long (i : ℕ) (hi : i < 4) (hn : n < 256 ^ 2 ^ i) :
    IsHead major n (UInt8.ofNat (major * 32 + (24 + i)) :: beBytes (2 ^ i) n)

/-- Every argument in one, two, four or eight bytes makes a head. -/
theorem isHead_cons (major : ℕ) {i : ℕ} (hi : i < 4) {args : Bytes} (h : args.length = 2 ^ i) :
    IsHead major (ofBeBytes args) (UInt8.ofNat (major * 32 + (24 + i)) :: args) := by
  have hlt := ofBeBytes_lt args
  have hbytes := beBytes_ofBeBytes args
  rw [h] at hlt hbytes
  have hlong := @IsHead.long major _ i hi hlt
  rw [hbytes] at hlong
  exact hlong

theorem isHead_head (major : ℕ) {n : ℕ} (hn : n < 2 ^ 64) : IsHead major n (head major n) := by
  rw [head]
  split_ifs with h₀ h₁ h₂ h₃
  · exact .short h₀
  · exact .long 0 (by decide) h₁
  · exact .long 1 (by decide) h₂
  · exact .long 2 (by decide) h₃
  · exact .long 3 (by decide) hn

/-- **The preferred head is told by its length.** -/
theorem IsHead.eq_head_iff {major n : ℕ} {hd : Bytes} (h : IsHead major n hd) :
    hd = head major n ↔ hd.length = headLen n := by
  constructor
  · rintro rfl
    exact length_head major n
  · intro hlen
    cases h with
    | short h => rw [head, if_pos h]
    | long i hi hn =>
      rw [List.length_cons, length_beBytes, headLen] at hlen
      interval_cases i <;> split_ifs at hlen with h₀ h₁ h₂ h₃ <;> try omega
      · rw [head, if_neg h₀, if_pos h₁]
        rfl
      · rw [head, if_neg h₀, if_neg h₁, if_pos h₂]
        rfl
      · rw [head, if_neg h₀, if_neg h₁, if_neg h₂, if_pos h₃]
        rfl
      · rw [head, if_neg h₀, if_neg h₁, if_neg h₂, if_neg h₃]
        rfl

/-! ## Reading -/

/-- The argument of a head is read. -/
theorem IsHead.exists_readArg {major n : ℕ} {hd : Bytes} (hm : major < 8) (h : IsHead major n hd)
    (rest : Bytes) : ∃ first args, hd = first :: args ∧ first.toNat / 32 = major ∧
      readArg (first.toNat % 32) (args ++ rest) = some (n, args.length) := by
  cases h with
  | short h =>
    refine ⟨_, [], rfl, ?_, ?_⟩
    · rw [toNat_first hm (by omega)]
      omega
    · rw [toNat_first hm (by omega), show (major * 32 + n) % 32 = n by omega, readArg, if_pos h]
      rfl
  | long i hi hn =>
    have hlen : (beBytes (2 ^ i) n).length = 2 ^ i := length_beBytes _ _
    refine ⟨_, beBytes (2 ^ i) n, rfl, ?_, ?_⟩
    · rw [toNat_first hm (by omega)]
      omega
    · rw [toNat_first hm (by omega), show (major * 32 + (24 + i)) % 32 = 24 + i by omega, readArg,
        if_neg (by omega), Nat.add_sub_cancel_left]
      dsimp only
      rw [if_pos ⟨by omega, by rw [List.length_append, hlen]; exact Nat.le_add_right _ _⟩,
        List.take_left' hlen, ofBeBytes_beBytes, Nat.mod_eq_of_lt hn, hlen]

/-- What the argument was read from is a head. -/
theorem isHead_of_readArg {first : UInt8} {rest : Bytes} {n k : ℕ}
    (h : readArg (first.toNat % 32) rest = some (n, k)) :
    k ≤ rest.length ∧ IsHead (first.toNat / 32) n (first :: rest.take k) := by
  have hfirst : UInt8.ofNat (first.toNat / 32 * 32 + first.toNat % 32) = first := by
    rw [Nat.div_add_mod' first.toNat 32, UInt8.ofNat_toNat]
  rw [readArg] at h
  split_ifs at h with h24
  · obtain ⟨rfl, rfl⟩ := Prod.mk.inj (Option.some.inj h)
    refine ⟨Nat.zero_le _, ?_⟩
    have hshort := @IsHead.short (first.toNat / 32) _ h24
    rw [hfirst] at hshort
    exact hshort
  · dsimp only at h
    split_ifs at h with hle
    obtain ⟨rfl, rfl⟩ := Prod.mk.inj (Option.some.inj h)
    refine ⟨hle.2, ?_⟩
    have hlong := isHead_cons (first.toNat / 32) (show first.toNat % 32 - 24 < 4 by omega)
      (List.length_take_of_le hle.2)
    rw [show 24 + (first.toNat % 32 - 24) = first.toNat % 32 by omega, hfirst] at hlong
    exact hlong

/-- **The byte strings that are read to their end**: a head of any length, and as many bytes as it
says. -/
theorem readBytes_eq_length_iff (b : Bytes) :
    readBytes b = some b.length ↔
      ∃ (payload hd : Bytes), IsHead 2 payload.length hd ∧ b = hd ++ payload := by
  constructor
  · intro h
    cases b with
    | nil => cases h
    | cons first rest =>
      rw [readBytes] at h
      split_ifs at h with hmajor
      obtain ⟨⟨n, k⟩, harg, hx⟩ := Option.bind_eq_some_iff.mp h
      dsimp only at hx
      split_ifs at hx with hle
      obtain ⟨hk, hhead⟩ := isHead_of_readArg harg
      have hlen := Option.some.inj hx
      rw [List.length_cons] at hlen
      rw [hmajor] at hhead
      refine ⟨rest.drop k, first :: rest.take k, ?_, ?_⟩
      · rw [List.length_drop, show rest.length - k = n by omega]
        exact hhead
      · rw [List.cons_append, List.take_append_drop]
  · rintro ⟨payload, hd, hhead, rfl⟩
    obtain ⟨first, args, rfl, hmajor, harg⟩ := hhead.exists_readArg (by decide) payload
    rw [List.cons_append, readBytes, if_pos hmajor, harg, Option.bind_some]
    dsimp only
    rw [if_pos (by rw [List.length_append]), List.length_cons, List.length_append]
    congr 1
    omega

end Cbor
