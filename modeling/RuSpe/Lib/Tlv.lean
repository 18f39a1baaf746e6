import Mathlib.Tactic

set_option autoImplicit false

/-!
# Records of type, length and value

A region of bytes holds records one after the other: a type of two bytes, a length of two bytes, the
least significant byte first, and as many bytes as the length says. The region may end in the middle
of a record, and what follows the region may then complete it.

* `Record`, `encodeAll`: records and their bytes;
* `walk`: the records that lie in a region, and the one that runs past its end;
* `Contents.seenWith`: the records with the last one completed from outside; `lastOf`;
* **`walk_encodeAll`**: the walk finds again what was written;
* **`walk_records_infix`**: a record of the walk lies in the region.
-/

namespace Tlv

/-- The bytes of a number of two bytes. -/
def le16 (n : ℕ) : List UInt8 := [UInt8.ofNat n, UInt8.ofNat (n / 256)]

/-- The number two bytes stand for. -/
def ofLe16 (a b : UInt8) : ℕ := a.toNat + 256 * b.toNat

theorem ofLe16_lt (a b : UInt8) : ofLe16 a b < 2 ^ 16 := by
  have ha := a.toNat_lt
  have hb := b.toNat_lt
  unfold ofLe16
  omega

theorem ofLe16_le16 {n : ℕ} (h : n < 2 ^ 16) :
    ofLe16 (UInt8.ofNat n) (UInt8.ofNat (n / 256)) = n := by
  unfold ofLe16
  rw [UInt8.toNat_ofNat', UInt8.toNat_ofNat']
  omega

/-- A record. Its type and the length of its value take two bytes each. -/
@[ext]
structure Record where
  type : ℕ
  value : List UInt8
  type_lt : type < 2 ^ 16
  length_lt : value.length < 2 ^ 16

def Record.encode (r : Record) : List UInt8 := le16 r.type ++ le16 r.value.length ++ r.value

/-- The bytes of records in a row. -/
def encodeAll (rs : List Record) : List UInt8 := rs.flatMap Record.encode

/-- A record that runs `missing` bytes past the end of its region; `inside` is the part of its value
that does not. -/
structure Overrun where
  type : ℕ
  inside : List UInt8
  missing : ℕ
  type_lt : type < 2 ^ 16
  length_lt : inside.length + missing < 2 ^ 16
  missing_pos : 0 < missing

/-- The record with the rest of its value from what follows the region. -/
def Overrun.complete (o : Overrun) (suffix : List UInt8) : Record where
  type := o.type
  value := o.inside ++ suffix.take o.missing
  type_lt := o.type_lt
  length_lt := by
    have h := o.length_lt
    rw [List.length_append, List.length_take]
    omega

/-- What a region holds. -/
structure Contents where
  records : List Record
  overrun : Option Overrun

section

variable {l₀ l₁ : UInt8} {rest : List UInt8}

theorem length_take_lt (h : ofLe16 l₀ l₁ ≤ rest.length) :
    (rest.take (ofLe16 l₀ l₁)).length < 2 ^ 16 := by
  rw [List.length_take_of_le h]
  exact ofLe16_lt l₀ l₁

theorem length_add_missing_lt (h : ¬ ofLe16 l₀ l₁ ≤ rest.length) :
    rest.length + (ofLe16 l₀ l₁ - rest.length) < 2 ^ 16 := by
  have hlt := ofLe16_lt l₀ l₁
  omega

theorem missing_pos (h : ¬ ofLe16 l₀ l₁ ≤ rest.length) : 0 < ofLe16 l₀ l₁ - rest.length := by
  omega

end

/-- The records of a region, from its start on. Fewer than four bytes at its end are no record. -/
def walk : List UInt8 → Contents
  | t₀ :: t₁ :: l₀ :: l₁ :: rest =>
    if h : ofLe16 l₀ l₁ ≤ rest.length then
      let rest' := walk (rest.drop (ofLe16 l₀ l₁))
      { rest' with
        records := ⟨ofLe16 t₀ t₁, rest.take (ofLe16 l₀ l₁), ofLe16_lt t₀ t₁,
          length_take_lt h⟩ :: rest'.records }
    else
      ⟨[], some ⟨ofLe16 t₀ t₁, rest, ofLe16 l₀ l₁ - rest.length, ofLe16_lt t₀ t₁,
        length_add_missing_lt h, missing_pos h⟩⟩
  | _ => ⟨[], none⟩
termination_by region => region.length
decreasing_by simp only [List.length_drop, List.length_cons]; omega

/-- The types of all records that begin in the region. -/
def Contents.types (c : Contents) : List ℕ :=
  c.records.map (·.type) ++ (c.overrun.map (·.type)).toList

/-- The records a reader sees that lets `suffix` complete the one that runs past the end. -/
def Contents.seenWith (c : Contents) (suffix : List UInt8) : Option (List Record) :=
  match c.overrun with
  | none => some c.records
  | some o => if o.missing ≤ suffix.length then some (c.records ++ [o.complete suffix]) else none

/-! ## What was written is found -/

theorem walk_nil : walk [] = ⟨[], none⟩ := by
  rw [walk]
  rintro t₀ t₁ l₀ l₁ rest ⟨⟩

theorem walk_encode_append (r : Record) (region : List UInt8) :
    walk (r.encode ++ region) = ⟨r :: (walk region).records, (walk region).overrun⟩ := by
  have hlen : ofLe16 (UInt8.ofNat r.value.length) (UInt8.ofNat (r.value.length / 256))
      = r.value.length := ofLe16_le16 r.length_lt
  have htype : ofLe16 (UInt8.ofNat r.type) (UInt8.ofNat (r.type / 256)) = r.type :=
    ofLe16_le16 r.type_lt
  rw [Record.encode, le16, le16]
  simp only [List.cons_append, List.nil_append]
  rw [walk, dif_pos (by rw [hlen, List.length_append]; omega)]
  simp only [hlen, htype, List.take_left, List.drop_left]

theorem walk_encodeAll (rs : List Record) : walk (encodeAll rs) = ⟨rs, none⟩ := by
  induction rs with
  | nil => exact walk_nil
  | cons r rs ih =>
    rw [encodeAll, List.flatMap_cons, walk_encode_append, ← encodeAll, ih]

/-! ## Records lie in their region -/

theorem walk_records_infix (region : List UInt8) :
    ∀ r ∈ (walk region).records, r.value <:+: region := by
  fun_induction walk region with
  | case1 t₀ t₁ l₀ l₁ rest h rest' ih =>
    have hhead : rest <:+ t₀ :: t₁ :: l₀ :: l₁ :: rest := ⟨[t₀, t₁, l₀, l₁], rfl⟩
    intro r hr
    rcases List.mem_cons.mp hr with rfl | hr
    · exact (List.take_prefix _ rest).isInfix.trans hhead.isInfix
    · exact (ih r hr).trans ((List.drop_suffix _ rest).isInfix.trans hhead.isInfix)
  | case2 => intro r hr; cases hr
  | case3 => intro r hr; cases hr

/-! ## The records a reader sees -/

theorem seenWith_of_missing_le (c : Contents) (suffix : List UInt8) (o : Overrun)
    (ho : c.overrun = some o) (h : o.missing ≤ suffix.length) :
    c.seenWith suffix = some (c.records ++ [o.complete suffix]) := by
  unfold Contents.seenWith
  rw [ho]
  exact if_pos h

theorem seenWith_cons (r : Record) (c : Contents) (suffix : List UInt8) :
    (⟨r :: c.records, c.overrun⟩ : Contents).seenWith suffix
      = (c.seenWith suffix).map (r :: ·) := by
  unfold Contents.seenWith
  cases c.overrun with
  | none => rfl
  | some o => by_cases h : o.missing ≤ suffix.length <;> simp [h]

theorem seenWith_nil_of_overrun (c : Contents) (o : Overrun) (ho : c.overrun = some o) :
    c.seenWith [] = none := by
  have hpos := o.missing_pos
  unfold Contents.seenWith
  rw [ho]
  refine if_neg ?_
  rw [List.length_nil]
  omega

/-- All types of the region are among those of the records seen, and there are no others. -/
theorem map_type_of_seenWith {c : Contents} {suffix : List UInt8} {rs : List Record}
    (h : c.seenWith suffix = some rs) : rs.map (·.type) = c.types := by
  unfold Contents.seenWith at h
  unfold Contents.types
  cases ho : c.overrun with
  | none =>
    rw [ho] at h
    cases h
    simp
  | some o =>
    rw [ho] at h
    simp only [Option.ite_none_right_eq_some, Option.some.injEq] at h
    rw [← h.2]
    simp [Overrun.complete]

/-! ## The last record of a type -/

/-- The value of the last record of type `ty`. -/
def lastOf (ty : ℕ) (rs : List Record) : Option (List UInt8) :=
  (rs.filter (·.type = ty)).getLast?.map (·.value)

theorem lastOf_append_singleton (ty : ℕ) (rs : List Record) (r : Record) :
    lastOf ty (rs ++ [r]) = if r.type = ty then some r.value else lastOf ty rs := by
  unfold lastOf
  by_cases h : r.type = ty <;> simp [h]

theorem isSome_lastOf (ty : ℕ) (rs : List Record) :
    (lastOf ty rs).isSome ↔ ∃ r ∈ rs, r.type = ty := by
  unfold lastOf
  rw [Option.isSome_map, List.getLast?_isSome, ne_eq, List.filter_eq_nil_iff]
  simp

theorem mem_of_lastOf {ty : ℕ} {rs : List Record} {v : List UInt8} (h : lastOf ty rs = some v) :
    ∃ r ∈ rs, r.value = v := by
  unfold lastOf at h
  rw [Option.map_eq_some_iff] at h
  obtain ⟨r, hr, hv⟩ := h
  exact ⟨r, (List.mem_filter.mp (List.mem_of_getLast? hr)).1, hv⟩

end Tlv
