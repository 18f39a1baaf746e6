import RuSpe.Lib.Cbor
import RuSpe.Lib.Hex

set_option autoImplicit false

/-!
# Reading hexadecimal text

The loop passes over blanks and over what is no digit, and drops a digit that no digit follows.

* `parseHex`: the loop;
* **`parseHex_le`**: it writes one byte for at least two digits;
* **`parseHex_eq_iff`**: a text of twice as many bytes as there is room for fills the room iff it has
  digits only, and then with its bytes.
-/

namespace RuSpe

open Cbor (Bytes)

/-- The blanks that are passed over. -/
def isBlank (byte : UInt8) : Bool := byte == 0x20 || byte == 0x0A || byte == 0x0D

/-- The loop of `parse_hex` over the rest of its input. -/
def parseHexFrom {n : ℕ} : Bytes → ℕ → Vector UInt8 n → ℕ × Vector UInt8 n
  | [], outIdx, output => (outIdx, output)
  | byte1 :: rest, outIdx, output =>
    if h : outIdx < n then
      if isBlank byte1 then parseHexFrom rest outIdx output
      else
        match Hex.digit byte1 with
        | none => parseHexFrom rest outIdx output
        | some hex1 =>
          match rest with
          | [] => (outIdx, output)
          | byte2 :: rest' =>
            match Hex.digit byte2 with
            | none => parseHexFrom (byte2 :: rest') outIdx output
            | some hex2 =>
              parseHexFrom rest' (outIdx + 1) (output.set outIdx (hex1 <<< 4 ||| hex2) h)
    else (outIdx, output)

/-- `parse_hex`. -/
def parseHex {n : ℕ} (hexInput : Bytes) (output : Vector UInt8 n) : ℕ × Vector UInt8 n :=
  parseHexFrom hexInput 0 output

example : parseHex [0x34, 0x78, 0x20, 0x31, 0x42] (Vector.replicate 2 0) =
    (1, (Vector.replicate 2 0).set 0 0x1B) := by decide

/-! ## How much is written -/

theorem parseHexFrom_le {n : ℕ} (hexInput : Bytes) (outIdx : ℕ) (output : Vector UInt8 n) :
    2 * (parseHexFrom hexInput outIdx output).1 ≤
      2 * outIdx + hexInput.countP fun c => (Hex.digit c).isSome := by
  fun_induction parseHexFrom hexInput outIdx output with
  | case1 outIdx output => omega
  | case2 output outIdx byte1 rest h hblank ih =>
    rw [List.countP_cons]
    omega
  | case3 output outIdx byte1 rest h hblank hnone ih =>
    rw [List.countP_cons]
    omega
  | case4 output outIdx byte1 h hblank hex1 hsome => omega
  | case5 output outIdx byte1 h hblank hex1 hsome byte2 rest hnone ih =>
    rw [List.countP_cons]
    omega
  | case6 output outIdx byte1 h hblank hex1 hsome byte2 rest hex2 hsome' ih =>
    rw [List.countP_cons_of_pos (by rw [hsome]; rfl),
      List.countP_cons_of_pos (by rw [hsome']; rfl)]
    omega
  | case7 outIdx output byte1 rest h => omega

/-- **One byte is written for at least two digits.** -/
theorem parseHex_le {n : ℕ} (hexInput : Bytes) (output : Vector UInt8 n) :
    2 * (parseHex hexInput output).1 ≤ hexInput.countP fun c => (Hex.digit c).isSome :=
  (parseHexFrom_le hexInput 0 output).trans (by omega)

/-! ## Texts of digits only -/

theorem isBlank_of_digit {c d : UInt8} (h : Hex.digit c = some d) : isBlank c = false := by
  rw [← Bool.not_eq_true]
  intro hblank
  simp only [isBlank, Bool.or_eq_true, beq_iff_eq] at hblank
  rcases hblank with (rfl | rfl) | rfl <;> cases h

/-- The bytes of a text behind those that are there. -/
theorem parseHexFrom_of_decode {n : ℕ} {hexInput bytes : Bytes}
    (hdec : Hex.decode hexInput = some bytes) (outIdx : ℕ) (output : Vector UInt8 n)
    (h : outIdx + bytes.length ≤ n) :
    (parseHexFrom hexInput outIdx output).1 = outIdx + bytes.length ∧
      (parseHexFrom hexInput outIdx output).2.toList =
        output.toList.take outIdx ++ bytes ++ output.toList.drop (outIdx + bytes.length) := by
  induction hexInput using Hex.decode.induct generalizing bytes outIdx output with
  | case1 =>
    cases hdec
    rw [parseHexFrom]
    simp
  | case2 c => cases hdec
  | case3 c₁ c₂ text ih =>
    obtain ⟨d₁, d₂, bytes', h₁, h₂, h', rfl⟩ := Hex.decode_eq_some_cons hdec
    rw [List.length_cons] at h
    have hidx : outIdx < n := by omega
    obtain ⟨hcount, hlist⟩ := ih h' (outIdx + 1) (output.set outIdx (d₁ <<< 4 ||| d₂) hidx) (by omega)
    rw [parseHexFrom, dif_pos hidx, isBlank_of_digit h₁, h₁]
    dsimp only
    rw [h₂]
    dsimp only
    refine ⟨?_, ?_⟩
    · rw [if_neg Bool.false_ne_true, hcount, List.length_cons]
      omega
    · rw [if_neg Bool.false_ne_true, hlist, List.length_cons, Vector.toList_set,
        List.drop_set_of_lt (by omega)]
      have htake : (output.toList.set outIdx (d₁ <<< 4 ||| d₂)).take (outIdx + 1) =
          output.toList.take outIdx ++ [Hex.join d₁ d₂] := by
        rw [List.take_add_one, List.take_set_of_le le_rfl, List.getElem?_set_self (by simpa using hidx)]
        rfl
      rw [htake, Nat.add_assoc, Nat.add_comm 1]
      simp only [List.append_assoc, List.cons_append, List.nil_append]

/-- **A text of twice as many bytes as there is room for fills the room iff it has digits only**, and
then with its bytes. -/
theorem parseHex_eq_iff {n : ℕ} {hexInput : Bytes} (hlen : hexInput.length = 2 * n)
    (output bytes : Vector UInt8 n) :
    parseHex hexInput output = (n, bytes) ↔ Hex.decode hexInput = some bytes.toList := by
  have hfilled : ∀ text : Bytes, Hex.decode hexInput = some text →
      (parseHex hexInput output).1 = n ∧ (parseHex hexInput output).2.toList = text := by
    intro text hdec
    have hn : text.length = n := by
      have := Hex.length_of_decode hdec
      omega
    obtain ⟨hcount, hlist⟩ := parseHexFrom_of_decode hdec 0 output (by omega)
    refine ⟨hcount.trans (by omega), hlist.trans ?_⟩
    simp [hn]
  constructor
  · intro hfull
    have hle := parseHex_le hexInput output
    rw [hfull, ← hlen] at hle
    have hall : ∀ c ∈ hexInput, (Hex.digit c).isSome :=
      List.countP_eq_length.mp (le_antisymm List.countP_le_length hle)
    obtain ⟨text, hdec⟩ := Option.isSome_iff_exists.mp
      (Hex.isSome_decode.mpr ⟨⟨n, hlen⟩, hall⟩)
    rw [hdec, ← (hfilled text hdec).2, hfull]
  · intro hdec
    obtain ⟨hcount, hlist⟩ := hfilled _ hdec
    exact Prod.ext hcount (Vector.toList_inj.mp hlist)

end RuSpe
