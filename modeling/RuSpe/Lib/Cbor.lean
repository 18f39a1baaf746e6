import Mathlib.Tactic

set_option autoImplicit false

/-!
# CBOR, preferred serialization

Data items begin with a head: the major type in three bits and an argument in as few bytes as
possible. Items are kept apart from the structure they form: an array or a map is its head, and the
items it holds come after it.

* `beBytes`, `head`, `headLen`: heads;
* `Item`, `Item.encode`: items;
* `readBytes`: reading a byte string of definite length;
* **`length_head`**, **`headLen_mono`**: the size of a head.
-/

namespace Cbor

abbrev Bytes := List UInt8

/-- The last `k` bytes of `n`, the most significant one first. -/
def beBytes : ℕ → ℕ → Bytes
  | 0, _ => []
  | k + 1, n => beBytes k (n / 256) ++ [UInt8.ofNat n]

/-- The head of an item of major type `major` with argument `n`. -/
def head (major n : ℕ) : Bytes :=
  if n < 24 then [UInt8.ofNat (major * 32 + n)]
  else if n < 2 ^ 8 then UInt8.ofNat (major * 32 + 24) :: beBytes 1 n
  else if n < 2 ^ 16 then UInt8.ofNat (major * 32 + 25) :: beBytes 2 n
  else if n < 2 ^ 32 then UInt8.ofNat (major * 32 + 26) :: beBytes 4 n
  else UInt8.ofNat (major * 32 + 27) :: beBytes 8 n

/-- The number of bytes of a head. -/
def headLen (n : ℕ) : ℕ :=
  if n < 24 then 1 else if n < 2 ^ 8 then 2 else if n < 2 ^ 16 then 3 else if n < 2 ^ 32 then 5 else 9

/-- An item, or the head of one that holds others. `negative n` is `-1 - n`. -/
inductive Item
  | unsigned (n : ℕ)
  | negative (n : ℕ)
  | bytes (b : Bytes)
  | text (s : String)
  | array (n : ℕ)
  | map (n : ℕ)
  | tag (n : ℕ)
  | null
  deriving DecidableEq

/-- The bytes of a text in UTF-8. -/
def utf8 (s : String) : Bytes := s.toByteArray.data.toList

def Item.encode : Item → Bytes
  | unsigned n => head 0 n
  | negative n => head 1 n
  | bytes b => head 2 b.length ++ b
  | text s => head 3 (utf8 s).length ++ utf8 s
  | array n => head 4 n
  | map n => head 5 n
  | tag n => head 6 n
  | null => [0xF6]

/-- An integer is an unsigned or a negative item. -/
def Item.ofInt : ℤ → Item
  | .ofNat n => unsigned n
  | .negSucc n => negative n

/-- A number from its bytes, the most significant one first. -/
def ofBeBytes (b : Bytes) : ℕ := b.foldl (fun n x => 256 * n + x.toNat) 0

/-- The argument of a head whose first byte carries `info`, and the number of bytes it takes. -/
def readArg (info : ℕ) (rest : Bytes) : Option (ℕ × ℕ) :=
  if info < 24 then some (info, 0)
  else
    let k := 2 ^ (info - 24)
    if info < 28 ∧ k ≤ rest.length then some (ofBeBytes (rest.take k), k) else none

/-- Read one byte string of definite length: the number of bytes it takes. -/
def readBytes : Bytes → Option ℕ
  | [] => none
  | first :: rest =>
    if first.toNat / 32 = 2 then
      (readArg (first.toNat % 32) rest).bind fun (n, k) =>
        if k + n ≤ rest.length then some (1 + k + n) else none
    else none

/-! ## Sizes -/

@[simp] theorem length_beBytes (k n : ℕ) : (beBytes k n).length = k := by
  induction k generalizing n with
  | zero => rfl
  | succ k ih => rw [beBytes, List.length_append, ih]; rfl

@[simp] theorem length_head (major n : ℕ) : (head major n).length = headLen n := by
  rw [head, headLen]
  split_ifs <;> simp

theorem headLen_mono {m n : ℕ} (h : m ≤ n) : headLen m ≤ headLen n := by
  rw [headLen, headLen]
  split_ifs <;> omega

theorem headLen_le (n : ℕ) : headLen n ≤ 9 := by
  rw [headLen]
  split_ifs <;> omega

theorem headLen_pos (n : ℕ) : 0 < headLen n := by
  rw [headLen]
  split_ifs <;> omega

/-- The size of an item, without the items it holds. -/
def Item.size : Item → ℕ
  | unsigned n | negative n | array n | map n | tag n => headLen n
  | bytes b => headLen b.length + b.length
  | text s => headLen (utf8 s).length + (utf8 s).length
  | null => 1

@[simp] theorem Item.length_encode (i : Item) : i.encode.length = i.size := by
  cases i <;> simp [encode, size]

theorem Item.size_pos (i : Item) : 0 < i.size := by
  cases i with
  | null => exact Nat.one_pos
  | bytes b => exact Nat.lt_of_lt_of_le (headLen_pos _) (Nat.le_add_right _ _)
  | text s => exact Nat.lt_of_lt_of_le (headLen_pos _) (Nat.le_add_right _ _)
  | _ => exact headLen_pos _

end Cbor
