import RuSpe.Lib.CborHead
import RuSpe.Cose.Signed

set_option autoImplicit false

/-!
# Payload strings

The payload of a message is given as an encoded byte string. The check before signing asks for one
byte string and nothing after it; whether its head is the shortest one does not matter to it.

* `encodePayloadBstr`; `IsEncoded`: the strings that come from it;
* `Minicbor.ReadsAny`: the decoder reads every byte string of definite length;
* **`validatePayloadBstr_ok_iff`**: the strings that are accepted, and those that come from the
  encoder.
-/

namespace RuSpe

open Cbor (Bytes Item Value)

variable (m : Minicbor)

/-- `encode_payload_bstr`: the length, and `out` after it. -/
def encodePayloadBstr (payload out : Bytes) : Except CoseSign1Error ℕ × Bytes :=
  match (Cursor.new out).run (m.chunks (.bytes payload)) with
  | (false, payloadBstrEnc) => (.error .bufferTooSmall, payloadBstrEnc.inner)
  | (true, payloadBstrEnc) => (.ok payloadBstrEnc.pos, payloadBstrEnc.inner)

/-- `b` is what `encode_payload_bstr` wrote for some payload. -/
def IsEncoded (b : Bytes) : Prop :=
  ∃ payload out n, (encodePayloadBstr m payload out).1 = .ok n ∧
    b = (encodePayloadBstr m payload out).2.take n

/-- The decoder reads every byte string of definite length, with a head of any length. -/
def Minicbor.ReadsAny : Prop := ∀ b, m.decodeBytes b = Cbor.readBytes b

variable {m}

theorem encodePayloadBstr_of_fits (hm : m.Preferred) {payload out : Bytes}
    (h : (Value.bytes payload).encode.length ≤ out.length) :
    encodePayloadBstr m payload out = (.ok (Value.bytes payload).encode.length,
      (Value.bytes payload).encode ++ out.drop (Value.bytes payload).encode.length) := by
  have hflat : (m.chunks (.bytes payload)).flatten = (Value.bytes payload).encode := by
    rw [hm, Value.encode]
  rw [← hflat] at h ⊢
  rw [encodePayloadBstr, Cursor.run_new_of_fits _ h]

theorem encodePayloadBstr_of_not_fits (hm : m.Preferred) {payload out : Bytes}
    (h : out.length < (Value.bytes payload).encode.length) :
    (encodePayloadBstr m payload out).1 = .error .bufferTooSmall := by
  rw [Value.encode, ← hm] at h
  obtain ⟨c, hrun⟩ := Cursor.run_new_of_not_fits _ h
  rw [encodePayloadBstr, hrun]

theorem isEncoded_iff (hm : m.Preferred) (b : Bytes) :
    IsEncoded m b ↔ ∃ payload, b = Cbor.head 2 payload.length ++ payload := by
  constructor
  · rintro ⟨payload, out, n, hn, rfl⟩
    refine ⟨payload, ?_⟩
    by_cases h : (Value.bytes payload).encode.length ≤ out.length
    · rw [encodePayloadBstr_of_fits hm h] at hn ⊢
      obtain rfl := Except.ok.inj hn
      rw [List.take_left, Value.encode, Item.encode]
    · rw [encodePayloadBstr_of_not_fits hm (by omega)] at hn
      cases hn
  · rintro ⟨payload, rfl⟩
    have hfits := encodePayloadBstr_of_fits hm (le_refl (Value.bytes payload).encode.length)
    refine ⟨payload, _, _, congrArg Prod.fst hfits, ?_⟩
    rw [hfits, List.take_left, Value.encode, Item.encode]

theorem validatePayloadBstr_eq_ok (b : Bytes) :
    validatePayloadBstr m b = .ok () ↔ m.decodeBytes b = some b.length := by
  unfold validatePayloadBstr
  split_ifs with h
  · exact iff_of_true rfl h
  · exact iff_of_false nofun h

/-- **A string is accepted iff it is one byte string, whatever the length of its head; it comes from
the encoder iff the head is the shortest one.** -/
theorem validatePayloadBstr_ok_iff (hm : m.Preferred) (hr : m.ReadsAny) {b : Bytes}
    (hb : b.length < 2 ^ 64) :
    (validatePayloadBstr m b = .ok () ↔
      ∃ payload hd, Cbor.IsHead 2 payload.length hd ∧ b = hd ++ payload) ∧
    (IsEncoded m b ↔ ∃ payload hd, Cbor.IsHead 2 payload.length hd ∧ b = hd ++ payload ∧
      hd.length = Cbor.headLen payload.length) := by
  rw [validatePayloadBstr_eq_ok, hr, Cbor.readBytes_eq_length_iff, isEncoded_iff hm]
  refine ⟨Iff.rfl, ?_, ?_⟩
  · rintro ⟨payload, rfl⟩
    rw [List.length_append] at hb
    exact ⟨payload, _, Cbor.isHead_head 2 (by omega), rfl, Cbor.length_head _ _⟩
  · rintro ⟨payload, hd, hhead, rfl, hlen⟩
    exact ⟨payload, by rw [hhead.eq_head_iff.mpr hlen]⟩

open TestVector in
theorem validatePayloadBstr_ok_iff_empty : validatePayloadBstr minicbor [0x40] = .ok () :=
  (validatePayloadBstr_ok_iff preferred (fun _ => rfl) (by decide)).1.mpr
    ⟨[], [0x40], .short (by decide), rfl⟩

open TestVector in
/-- One byte behind a head of two bytes is accepted, but is no output of the encoder. -/
theorem accepts_long_head :
    ¬ ∀ b, validatePayloadBstr minicbor b = .ok () ↔ IsEncoded minicbor b := by
  intro hall
  obtain ⟨payload, hp⟩ := (isEncoded_iff preferred _).mp ((hall [0x58, 0x01, 0xAA]).mp (by decide))
  have hlen := congrArg List.length hp
  rw [List.length_append, Cbor.length_head] at hlen
  have hthree : [(0x58 : UInt8), 0x01, 0xAA].length = 3 := rfl
  have htwo : payload.length = 2 := by
    rw [hthree, Cbor.headLen] at hlen
    split_ifs at hlen <;> omega
  rw [htwo, show Cbor.head 2 2 = [0x42] from rfl, List.singleton_append] at hp
  exact absurd (List.cons.inj hp).1 (by decide)

end RuSpe
