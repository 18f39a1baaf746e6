import RuSpe.Lib.Cbor

set_option autoImplicit false

/-!
# Writing CBOR into a slice

`minicbor` is not part of the repository. What the code uses of it is a parameter: the pieces that
each encoder method hands to `write_all`, and how far a decoder reads a byte string. A function that
encodes to any writer is the list of the pieces it writes; it stops at the first one that fails.

* `Minicbor`, `Minicbor.Preferred`;
* `Written`: what was written to a slice so far;
* `Cursor`, `Cursor.writeAll`, `Cursor.run`: a slice with a position;
* **`run_new_of_fits`**, **`run_new_of_not_fits`**: a run from the beginning of a slice succeeds
  exactly when everything fits.
-/

namespace RuSpe

open Cbor (Bytes)

/-- What the code uses of `minicbor`. -/
structure Minicbor where
  /-- The arguments of `write_all` in the encoder method for an item. -/
  chunks : Cbor.Item → List Bytes
  /-- `Decoder::bytes` on a new decoder: its position after it succeeded. -/
  decodeBytes : Bytes → Option ℕ

/-- The encoder writes the preferred serialization. -/
def Minicbor.Preferred (m : Minicbor) : Prop := ∀ i, (m.chunks i).flatten = i.encode

/-- `copy_from_slice` into the part of `out` that begins at `cursor`. -/
def copyAt (out : Bytes) (cursor : ℕ) (src : Bytes) : Bytes :=
  out.take cursor ++ src ++ out.drop (cursor + src.length)

theorem length_copyAt {out src : Bytes} {cursor : ℕ} (h : cursor + src.length ≤ out.length) :
    (copyAt out cursor src).length = out.length := by
  simp only [copyAt, List.length_append, List.length_take, List.length_drop]
  omega

/-- `out` is `out₀` with `pre` written over its beginning, and `cursor` is behind `pre`. -/
structure Written (out₀ pre out : Bytes) (cursor : ℕ) : Prop where
  out_eq : out = pre ++ out₀.drop pre.length
  cursor_eq : cursor = pre.length

section

variable {out₀ pre out : Bytes} {cursor : ℕ}

theorem Written.start (out : Bytes) : Written out [] out 0 := ⟨rfl, rfl⟩

theorem Written.copy (h : Written out₀ pre out cursor) (src : Bytes) :
    Written out₀ (pre ++ src) (copyAt out cursor src) (cursor + src.length) where
  out_eq := by
    rw [copyAt, h.out_eq, h.cursor_eq, List.take_left, List.drop_length_add_append, List.drop_drop,
      List.length_append]
  cursor_eq := by rw [h.cursor_eq, List.length_append]

theorem Written.length_eq (h : Written out₀ pre out cursor) (hle : pre.length ≤ out₀.length) :
    out.length = out₀.length := by
  rw [h.out_eq, List.length_append, List.length_drop]
  omega

end

/-- `usize::checked_add` of two lengths. -/
def checkedAddLen (a b : ℕ) : Option ℕ := if a + b < 2 ^ 32 then some (a + b) else none

/-- `Cursor`. -/
structure Cursor where
  inner : Bytes
  pos : ℕ

namespace Cursor

/-- `Cursor::new`. -/
def new (out : Bytes) : Cursor := ⟨out, 0⟩

/-- `write_all`; nothing is written if there is no room. -/
def writeAll (chunk : Bytes) (c : Cursor) : Option Cursor :=
  if c.inner.length - c.pos < chunk.length then none
  else some ⟨copyAt c.inner c.pos chunk, c.pos + chunk.length⟩

/-- Write the pieces one after another: whether all were written, and the cursor after that. -/
def run : List Bytes → Cursor → Bool × Cursor
  | [], c => (true, c)
  | chunk :: rest, c =>
    match c.writeAll chunk with
    | none => (false, c)
    | some c => run rest c

theorem run_cons (chunk : Bytes) (rest : List Bytes) (c : Cursor) :
    run (chunk :: rest) c =
      match c.writeAll chunk with
      | none => (false, c)
      | some c => run rest c := rfl

variable {c : Cursor}

theorem writeAll_of_fits {chunk : Bytes} (h : c.pos + chunk.length ≤ c.inner.length) :
    c.writeAll chunk = some ⟨copyAt c.inner c.pos chunk, c.pos + chunk.length⟩ := by
  rw [writeAll, if_neg]
  omega

/-- The pieces are written one after another if they fit. -/
theorem run_written {out₀ pre : Bytes} (chunks : List Bytes) (h : Written out₀ pre c.inner c.pos)
    (hfit : (pre ++ chunks.flatten).length ≤ out₀.length) :
    ∃ c', run chunks c = (true, c') ∧ Written out₀ (pre ++ chunks.flatten) c'.inner c'.pos := by
  induction chunks generalizing c pre with
  | nil => exact ⟨c, rfl, by rwa [List.flatten_nil, List.append_nil]⟩
  | cons chunk rest ih =>
    rw [List.flatten_cons, ← List.append_assoc] at hfit ⊢
    have hroom : c.pos + chunk.length ≤ c.inner.length := by
      rw [h.length_eq (by simp only [List.length_append] at hfit; omega), h.cursor_eq]
      simp only [List.length_append] at hfit
      omega
    rw [run_cons, writeAll_of_fits hroom]
    exact ih (h.copy chunk) hfit

/-- The slice keeps its length, also when the run fails. -/
theorem length_run (chunks : List Bytes) (c : Cursor) :
    (run chunks c).2.inner.length = c.inner.length := by
  induction chunks generalizing c with
  | nil => rfl
  | cons chunk rest ih =>
    rw [run_cons]
    cases hw : c.writeAll chunk with
    | none => rfl
    | some c' =>
      rw [writeAll] at hw
      split_ifs at hw with hroom
      obtain rfl := Option.some.inj hw
      refine (ih _).trans ?_
      simp only [copyAt, List.length_append, List.length_take, List.length_drop]
      omega

/-- If they do not fit, the run fails. -/
theorem run_of_not_fits (chunks : List Bytes) (hpos : c.pos ≤ c.inner.length)
    (h : c.inner.length < c.pos + chunks.flatten.length) : (run chunks c).1 = false := by
  induction chunks generalizing c with
  | nil =>
    rw [List.flatten_nil, List.length_nil] at h
    omega
  | cons chunk rest ih =>
    rw [List.flatten_cons, List.length_append, ← Nat.add_assoc] at h
    rw [run_cons]
    by_cases hfit : c.pos + chunk.length ≤ c.inner.length
    · rw [writeAll_of_fits hfit]
      refine ih ?_ ?_ <;> rw [length_copyAt hfit]
      · exact hfit
      · exact h
    · rw [writeAll, if_pos (by omega)]

/-- **From the beginning of a slice, everything is written if it fits.** -/
theorem run_new_of_fits (chunks : List Bytes) {out : Bytes}
    (h : chunks.flatten.length ≤ out.length) :
    run chunks (new out) =
      (true, ⟨chunks.flatten ++ out.drop chunks.flatten.length, chunks.flatten.length⟩) := by
  obtain ⟨⟨inner, pos⟩, hrun, hout, hpos⟩ := run_written chunks (c := new out) (Written.start out) h
  rw [List.nil_append] at hout hpos
  obtain rfl : inner = chunks.flatten ++ out.drop chunks.flatten.length := hout
  obtain rfl : pos = chunks.flatten.length := hpos
  exact hrun

/-- **Otherwise the run fails.** -/
theorem run_new_of_not_fits (chunks : List Bytes) {out : Bytes}
    (h : out.length < chunks.flatten.length) : ∃ c, run chunks (new out) = (false, c) := by
  have hfst := run_of_not_fits chunks (c := new out) (Nat.zero_le _)
    (h.trans_eq (Nat.zero_add _).symm)
  rcases hrun : run chunks (new out) with ⟨ok, c⟩
  rw [hrun] at hfst
  obtain rfl : ok = false := hfst
  exact ⟨c, rfl⟩

end Cursor

end RuSpe
