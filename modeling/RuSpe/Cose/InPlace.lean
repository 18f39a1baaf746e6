import RuSpe.Cose.PayloadBstr

set_option autoImplicit false

/-!
# Payload strings in place

A payload at the beginning of a buffer is moved behind its header, whose length depends on the
length of the payload. The move overlaps itself; `copy_within` reads everything before it writes.

* `encodePayloadBstrInPlaceChecked`: with every access checked;
* `encodePayloadBstrInPlace_of_fits`, `encodePayloadBstrInPlace_of_not_fits`;
* **`encodePayloadBstrInPlace_agrees`**: the bytes are those that the encoder of the library writes
  into another buffer, and nothing else changes.
-/

namespace RuSpe

open Cbor (Bytes Item Value)

theorem length_encode_bytes (payload : Bytes) :
    (Value.bytes payload).encode.length = payload.length + Cbor.headLen payload.length := by
  rw [Value.encode, Item.length_encode, Item.size]
  exact Nat.add_comm _ _

/-! ## Checked accesses -/

/-- `out.copy_within(0..count, dest)`; `none` is a panic. -/
def copyWithin (out : Bytes) (count dest : ℕ) : Option Bytes :=
  if count ≤ out.length ∧ dest ≤ out.length - count then some (copyAt out dest (out.take count))
  else none

/-- `slice.get(..n)`. -/
def getTo (slice : Bytes) (n : ℕ) : Option Bytes :=
  if n ≤ slice.length then some (slice.take n) else none

/-- `encode_payload_bstr_in_place` where each access is checked; `none` is a panic. -/
def encodePayloadBstrInPlaceChecked (payloadLen : ℕ) (out : Bytes) :
    Option (Except CoseSign1Error ℕ × Bytes) :=
  let headerLen := (encodeCborMajorLenHeader 2 payloadLen).length
  -- The array of nine bytes that the header is written to.
  let header := copyAt (List.replicate 9 0) 0 (encodeCborMajorLenHeader 2 payloadLen)
  match checkedAddLen payloadLen headerLen with
  | none => some (.error .bufferTooSmall, out)
  | some totalLen =>
    if totalLen > out.length then some (.error .bufferTooSmall, out)
    else
      (copyWithin out payloadLen headerLen).map fun out =>
        match getTo out headerLen, getTo header headerLen with
        | some _, some src => (.ok totalLen, copyAt out 0 src)
        | _, _ => (.error .bufferTooSmall, out)

/-- **No access fails, and both slices of the last copy exist.** -/
theorem encodePayloadBstrInPlaceChecked_eq (payloadLen : ℕ) (out : Bytes) :
    encodePayloadBstrInPlaceChecked payloadLen out =
      some (encodePayloadBstrInPlace payloadLen out) := by
  have hnine : (encodeCborMajorLenHeader 2 payloadLen).length ≤ 9 := by
    rw [length_encodeCborMajorLenHeader, Cbor.headLen]
    split_ifs <;> omega
  generalize hheader : encodeCborMajorLenHeader 2 payloadLen = header at hnine
  rw [encodePayloadBstrInPlaceChecked, encodePayloadBstrInPlace, hheader]
  dsimp only
  rw [checkedAddLen]
  split_ifs with h32
  swap
  · rfl
  dsimp only
  by_cases hroom : payloadLen + header.length > out.length
  · rw [if_pos hroom, if_pos hroom]
  rw [if_neg hroom, if_neg hroom, copyWithin, if_pos (by omega), Option.map_some]
  have hmoved : (copyAt out header.length (out.take payloadLen)).length = out.length :=
    length_copyAt (by rw [List.length_take]; omega)
  have hnine' : (copyAt (List.replicate 9 0) 0 header).length = 9 :=
    length_copyAt (by rw [List.length_replicate]; omega)
  have hsrc : (copyAt (List.replicate 9 0) 0 header).take header.length = header := by
    rw [copyAt, List.take_zero, List.nil_append, List.take_left]
  rw [getTo, getTo, if_pos (by omega), if_pos (by omega), hsrc]

/-! ## The two results -/

section

variable {payload rest : Bytes}

theorem encodePayloadBstrInPlace_of_fits
    (h : (Value.bytes payload).encode.length ≤ (payload ++ rest).length)
    (h32 : (Value.bytes payload).encode.length < 2 ^ 32) :
    encodePayloadBstrInPlace payload.length (payload ++ rest) =
      (.ok (Value.bytes payload).encode.length, (Value.bytes payload).encode ++
        (payload ++ rest).drop (Value.bytes payload).encode.length) := by
  have hlen := length_encode_bytes payload
  rw [encodePayloadBstrInPlace]
  dsimp only
  rw [length_encodeCborMajorLenHeader, checkedAddLen, if_pos (by omega)]
  dsimp only
  rw [if_neg (by omega), ← hlen, List.take_left, encodeCborMajorLenHeader_eq]
  -- The payload is moved behind the place of the header, and the header is written.
  have htake : ((payload ++ rest).take (Cbor.headLen payload.length)).length
      = Cbor.headLen payload.length := List.length_take_of_le (by omega)
  rw [copyAt, copyAt, List.take_zero, List.nil_append, Cbor.length_head, Nat.zero_add,
    List.append_assoc, List.drop_left' htake, Value.encode, Item.encode, List.append_assoc,
    List.length_append, Cbor.length_head]

theorem encodePayloadBstrInPlace_of_not_fits {out : Bytes}
    (h : out.length < (Value.bytes payload).encode.length) :
    encodePayloadBstrInPlace payload.length out = (.error .bufferTooSmall, out) := by
  have hlen := length_encode_bytes payload
  rw [encodePayloadBstrInPlace]
  dsimp only
  rw [length_encodeCborMajorLenHeader, checkedAddLen, ← hlen]
  split_ifs with h32
  · dsimp only
    rw [if_pos h]
  · rfl

end

/-! ## Both encoders -/

/-- **In place and into another buffer of the same length: the same result and the same bytes, and
what is behind them stays. If there is no room, nothing changes in place.** -/
theorem encodePayloadBstrInPlace_agrees {m : Minicbor} (hm : m.Preferred) {payload rest out : Bytes}
    (hbuf : (payload ++ rest).length < 2 ^ 32) (hout : out.length = (payload ++ rest).length) :
    let inPlace := encodePayloadBstrInPlace payload.length (payload ++ rest)
    let copied := encodePayloadBstr m payload out
    encodePayloadBstrInPlaceChecked payload.length (payload ++ rest) = some inPlace ∧
    inPlace.1 = copied.1 ∧
    (∀ n, inPlace.1 = .ok n → n ≤ (payload ++ rest).length ∧
      inPlace.2.take n = copied.2.take n ∧ inPlace.2.drop n = (payload ++ rest).drop n) ∧
    (∀ e, inPlace.1 = .error e → e = .bufferTooSmall ∧ inPlace.2 = payload ++ rest) := by
  intro inPlace copied
  refine ⟨encodePayloadBstrInPlaceChecked_eq _ _, ?_⟩
  by_cases h : (Value.bytes payload).encode.length ≤ (payload ++ rest).length
  · have hin : inPlace = _ := encodePayloadBstrInPlace_of_fits h (h.trans_lt hbuf)
    have hcopied : copied = _ := encodePayloadBstr_of_fits hm (h.trans_eq hout.symm)
    rw [hin, hcopied]
    refine ⟨rfl, ?_, nofun⟩
    rintro _ ⟨⟩
    exact ⟨h, by rw [List.take_left, List.take_left], List.drop_left⟩
  · have hin : inPlace = _ := encodePayloadBstrInPlace_of_not_fits (not_le.mp h)
    have hcopied : copied.1 = _ := encodePayloadBstr_of_not_fits hm (hout.trans_lt (not_le.mp h))
    rw [hin, hcopied]
    refine ⟨rfl, nofun, ?_⟩
    rintro _ ⟨⟩
    exact ⟨rfl, rfl⟩

open TestVector in
/-- Three bytes move behind a header of one byte; the byte behind them stays. -/
theorem encodePayloadBstrInPlace_agrees_moved :
    encodePayloadBstrInPlace 3 [1, 2, 3, 0xEE, 0xFF] = (.ok 4, [0x43, 1, 2, 3, 0xFF]) := by
  have h := @encodePayloadBstrInPlace_agrees _ preferred [1, 2, 3] [0xEE, 0xFF]
    (List.replicate 5 0) (by decide) rfl
  have hok := h.2.1.trans (show (encodePayloadBstr minicbor [1, 2, 3] (List.replicate 5 0)).1
    = .ok 4 from rfl)
  refine Prod.ext hok ?_
  obtain ⟨-, htake, hdrop⟩ := h.2.2.1 4 hok
  rw [← List.take_append_drop 4 (encodePayloadBstrInPlace _ _).2]
  exact congrArg₂ (· ++ ·) htake hdrop

end RuSpe
