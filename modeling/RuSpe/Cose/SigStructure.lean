import RuSpe.Cose.Signed

set_option autoImplicit false

/-!
# The structure that is signed, exactly

`build_sig_structure` indexes its buffer at positions that it adds up. Here every access is checked,
and a failed check is a panic.

* `setIndex`, `copyRange`: the accesses that panic;
* `buildSigStructureChecked`; `buildSigStructureChecked_eq`: it never panics;
* `sigStructure_inj`: different headers, data or payloads are different bytes;
* **`buildSigStructure_exact`**: when the structure is written, which bytes change, and that they
  determine what is signed.
-/

namespace RuSpe

open Cbor (Bytes Item Value)

/-! ## Checked accesses -/

/-- `out[i] = b`. -/
def setIndex (out : Bytes) (i : ℕ) (b : UInt8) : Option Bytes :=
  if i < out.length then some (copyAt out i [b]) else none

/-- `out[start..end].copy_from_slice(src)`. -/
def copyRange (out : Bytes) (start stop : ℕ) (src : Bytes) : Option Bytes :=
  if start ≤ stop ∧ stop ≤ out.length ∧ src.length = stop - start then some (copyAt out start src)
  else none

/-- `header[..len]` of an array of nine bytes, whose first bytes are `header`. -/
def headerSlice (header : Bytes) : Option Bytes :=
  if header.length ≤ 9 then some header else none

/-- `build_sig_structure` where each access is checked; `none` is a panic. -/
def buildSigStructureChecked (protectedHeaders externalAad payloadBstr out : Bytes) :
    Option (Except CoseSign1Error ℕ × Bytes) :=
  let extAadHeader := encodeCborMajorLenHeader 2 externalAad.length
  let protHdrHeader := encodeCborMajorLenHeader 2 protectedHeaders.length
  let contextHeaderLen := 2 + sigContextString.length
  let totalLen := (checkedAddLen contextHeaderLen protHdrHeader.length).bind fun l =>
    (checkedAddLen l protectedHeaders.length).bind fun l =>
      (checkedAddLen l extAadHeader.length).bind fun l =>
        (checkedAddLen l externalAad.length).bind fun l => checkedAddLen l payloadBstr.length
  match totalLen with
  | none => some (.error .bufferTooSmall, out)
  | some totalLen =>
    if out.length < totalLen then some (.error .bufferTooSmall, out)
    else do
      let cursor := 0
      let out ← setIndex out cursor 0x84
      let out ← setIndex out (cursor + 1) 0x6A
      let cursor := cursor + 2
      let out ← copyRange out cursor (cursor + sigContextString.length) sigContextString
      let cursor := cursor + sigContextString.length
      let src ← headerSlice protHdrHeader
      let out ← copyRange out cursor (cursor + protHdrHeader.length) src
      let cursor := cursor + protHdrHeader.length
      let out ← copyRange out cursor (cursor + protectedHeaders.length) protectedHeaders
      let cursor := cursor + protectedHeaders.length
      let src ← headerSlice extAadHeader
      let out ← copyRange out cursor (cursor + extAadHeader.length) src
      let cursor := cursor + extAadHeader.length
      let out ← copyRange out cursor (cursor + externalAad.length) externalAad
      let cursor := cursor + externalAad.length
      let out ← copyRange out cursor (cursor + payloadBstr.length) payloadBstr
      let cursor := cursor + payloadBstr.length
      pure (.ok cursor, out)

/-! ## No access fails -/

theorem headerSlice_encodeCborMajorLenHeader (major : UInt8) (len : ℕ) :
    headerSlice (encodeCborMajorLenHeader major len) =
      some (encodeCborMajorLenHeader major len) := by
  rw [headerSlice, if_pos]
  rw [length_encodeCborMajorLenHeader, Cbor.headLen]
  split_ifs <;> omega

section

variable {out₀ pre out : Bytes} {cursor : ℕ}

/-- A copy behind what was written stays inside the buffer if the whole does. -/
theorem Written.copyRange_eq (h : Written out₀ pre out cursor) (src : Bytes)
    (hfit : cursor + src.length ≤ out₀.length) :
    copyRange out cursor (cursor + src.length) src = some (copyAt out cursor src) := by
  have hcursor := h.cursor_eq
  have hlen := h.length_eq (by omega)
  rw [copyRange, if_pos ⟨by omega, by omega, by omega⟩]

theorem Written.setIndex_eq (h : Written out₀ pre out cursor) (b : UInt8)
    (hfit : cursor < out₀.length) : setIndex out cursor b = some (copyAt out cursor [b]) := by
  have hcursor := h.cursor_eq
  have hlen := h.length_eq (by omega)
  rw [setIndex, if_pos (by omega)]

end

/-- What the checked sum of the lengths is. -/
theorem totalLen_eq {headers externalAad payloadBstr : Bytes} {total : ℕ}
    (h : (checkedAddLen (2 + sigContextString.length)
      (encodeCborMajorLenHeader 2 headers.length).length).bind (fun l =>
        (checkedAddLen l headers.length).bind fun l =>
          (checkedAddLen l (encodeCborMajorLenHeader 2 externalAad.length).length).bind fun l =>
            (checkedAddLen l externalAad.length).bind fun l =>
              checkedAddLen l payloadBstr.length) = some total) :
    total = 2 + sigContextString.length + (encodeCborMajorLenHeader 2 headers.length).length +
      headers.length + (encodeCborMajorLenHeader 2 externalAad.length).length +
        externalAad.length + payloadBstr.length := by
  simp only [checkedAddLen, Option.bind_eq_some_iff] at h
  grind

/-- **No access of the code is out of bounds.** -/
theorem buildSigStructureChecked_eq (headers externalAad payloadBstr out : Bytes) :
    buildSigStructureChecked headers externalAad payloadBstr out =
      some (buildSigStructure headers externalAad payloadBstr out) := by
  rw [buildSigStructureChecked, buildSigStructure]
  dsimp only
  generalize htotal : (checkedAddLen (2 + sigContextString.length)
    (encodeCborMajorLenHeader 2 headers.length).length).bind (fun l =>
      (checkedAddLen l headers.length).bind fun l =>
        (checkedAddLen l (encodeCborMajorLenHeader 2 externalAad.length).length).bind fun l =>
          (checkedAddLen l externalAad.length).bind fun l =>
            checkedAddLen l payloadBstr.length) = sum
  rcases sum with _ | total
  · rfl
  dsimp only
  have hsum := totalLen_eq htotal
  by_cases hroom : out.length < total
  · rw [if_pos hroom, if_pos hroom]
  rw [if_neg hroom, if_neg hroom]
  -- Each piece is written behind those before it, and all of them fit together.
  have w₀ := Written.start out
  have w₁ := w₀.copy [0x84]
  have w₂ : Written out [0x84, 0x6A] (copyAt out 0 [0x84, 0x6A]) (0 + 2) := w₀.copy [0x84, 0x6A]
  have w₃ := w₂.copy sigContextString
  have w₄ := w₃.copy (encodeCborMajorLenHeader 2 headers.length)
  have w₅ := w₄.copy headers
  have w₆ := w₅.copy (encodeCborMajorLenHeader 2 externalAad.length)
  have w₇ := w₆.copy externalAad
  have hfirst : setIndex out 0 0x84 = some (copyAt out 0 [0x84]) :=
    w₀.setIndex_eq 0x84 (by omega)
  have htwo : copyAt (copyAt out 0 [0x84]) (0 + 1) [0x6A] = copyAt out 0 [0x84, 0x6A] :=
    (w₁.copy [0x6A]).out_eq.trans w₂.out_eq.symm
  have hsecond : setIndex (copyAt out 0 [0x84]) (0 + 1) 0x6A
      = some (copyAt out 0 [0x84, 0x6A]) := by
    rw [← htwo]
    exact w₁.setIndex_eq 0x6A (show 0 + 1 < out.length by omega)
  simp only [Option.bind_eq_bind, Option.bind_some, headerSlice_encodeCborMajorLenHeader, hfirst,
    hsecond, w₂.copyRange_eq sigContextString (by omega),
    w₃.copyRange_eq (encodeCborMajorLenHeader 2 headers.length) (by omega),
    w₄.copyRange_eq headers (by omega),
    w₅.copyRange_eq (encodeCborMajorLenHeader 2 externalAad.length) (by omega),
    w₆.copyRange_eq externalAad (by omega),
    w₇.copyRange_eq payloadBstr (by omega), Option.pure_def]

/-! ## The bytes determine what is signed -/

/-- Different headers, different data or different payloads give different bytes. -/
theorem sigStructure_inj {headers externalAad payload headers' externalAad' payload' : Bytes}
    (hfits : (sigStructure headers externalAad payload).Fits)
    (hfits' : (sigStructure headers' externalAad' payload').Fits)
    (h : (sigStructure headers externalAad payload).encode =
      (sigStructure headers' externalAad' payload').encode) :
    headers = headers' ∧ externalAad = externalAad' ∧ payload = payload' := by
  have hval := (Cbor.encode_inj hfits hfits').mp h
  simp only [sigStructure, Value.array.injEq, List.cons.injEq, Value.bytes.injEq] at hval
  exact ⟨hval.2.1, hval.2.2.1, hval.2.2.2.1⟩

/-- What fits a memory of `2 ^ 32` bytes fits the heads. -/
theorem sigStructure_fits {headers externalAad payload : Bytes} (hh : headers.length < 2 ^ 32)
    (ha : externalAad.length < 2 ^ 32) (hp : payload.length < 2 ^ 32) :
    (sigStructure headers externalAad payload).Fits := by
  have htext : (Cbor.utf8 "Signature1").length < 2 ^ 64 := by decide
  have hitems : Cbor.AllFit [.text "Signature1", .bytes headers, .bytes externalAad,
      .bytes payload] :=
    ⟨htext, hh.trans (by decide), ha.trans (by decide), hp.trans (by decide), trivial⟩
  exact ⟨by simp only [List.length_cons, List.length_nil]; omega, hitems⟩

/-- **The structure is written exactly when it fits, nothing behind it changes, no access is out of
bounds, and the bytes determine the headers, the data and the payload.** -/
theorem buildSigStructure_exact (headers externalAad payload : Bytes) {out : Bytes}
    (hout : out.length < 2 ^ 32) :
    let payloadBstr := (Value.bytes payload).encode
    let enc := (sigStructure headers externalAad payload).encode
    let result := buildSigStructure headers externalAad payloadBstr out
    buildSigStructureChecked headers externalAad payloadBstr out = some result ∧
    (∀ n, result.1 = .ok n ↔ enc.length ≤ out.length ∧ n = enc.length) ∧
    (enc.length ≤ out.length → result.2 = enc ++ out.drop enc.length) ∧
    (out.length < enc.length → result = (.error .bufferTooSmall, out)) ∧
    Set.InjOn (fun t : Bytes × Bytes × Bytes => (sigStructure t.1 t.2.1 t.2.2).encode)
      {t | t.1.length < 2 ^ 32 ∧ t.2.1.length < 2 ^ 32 ∧ t.2.2.length < 2 ^ 32} := by
  intro payloadBstr enc result
  have hwritten (h : enc.length ≤ out.length) :
      result = (.ok enc.length, enc ++ out.drop enc.length) :=
    buildSigStructure_of_fits h (h.trans_lt hout)
  have hrefused (h : out.length < enc.length) : result = (.error .bufferTooSmall, out) :=
    buildSigStructure_of_not_fits h
  refine ⟨buildSigStructureChecked_eq _ _ _ _, fun n => ?_, fun h => ?_, hrefused, ?_⟩
  · by_cases h : enc.length ≤ out.length
    · rw [hwritten h, Except.ok.injEq, and_iff_right h]
      exact eq_comm
    · rw [hrefused (not_le.mp h)]
      exact iff_of_false nofun fun hn => h hn.1
  · rw [hwritten h]
  · rintro ⟨headers₁, aad₁, payload₁⟩ ⟨hh₁, ha₁, hp₁⟩ ⟨headers₂, aad₂, payload₂⟩ ⟨hh₂, ha₂, hp₂⟩ h
    obtain ⟨rfl, rfl, rfl⟩ :=
      sigStructure_inj (sigStructure_fits hh₁ ha₁ hp₁) (sigStructure_fits hh₂ ha₂ hp₂) h
    rfl

/-- A structure of 17 bytes in a buffer of 20. -/
theorem buildSigStructure_exact_short :
    buildSigStructure [0xA0] [] [0x41, 0x07] (List.replicate 20 0xEE) =
      (.ok 17, (sigStructure [0xA0] [] [0x07]).encode ++ [0xEE, 0xEE, 0xEE]) := by
  have h := @buildSigStructure_exact [0xA0] [] [0x07] (List.replicate 20 0xEE) (by decide)
  exact Prod.ext ((h.2.1 17).mpr ⟨by decide, by decide⟩) (h.2.2.1 (by decide))

end RuSpe
