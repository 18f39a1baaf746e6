import RuSpe.Lib.Tlv
import RuSpe.Attest.Service

set_option autoImplicit false

/-!
# The boot record

The bootloader leaves a record of known total length in memory, and the platform hands over a window
that is longer. The loop over the record ends with the record, but a value is cut from the window.

* `note`, `component`: what the loop keeps, and what it makes of it;
* `parseBootData_eq`: the result in terms of the walk over the record;
* `StaysInside`, `RunsOver`; **`staysInside_iff`**: the result depends on the record alone iff its
  last value does not run over its end, or a value is missing anyway;
* `bootRecord`; **`parseBootData_bootRecord`**: what was written is read.
-/

namespace RuSpe

open Cbor (Bytes)

/-! ## Reading at an offset -/

theorem getFrom_append (pre rest : Bytes) (k : ℕ) :
    getFrom (pre ++ rest) (pre.length + k) = getFrom rest k := by
  unfold getFrom
  rw [List.length_append, List.drop_append]
  by_cases h : k ≤ rest.length
  · rw [if_pos h, if_pos (by omega), List.drop_eq_nil_of_le (by omega), List.nil_append]
    congr 2
    omega
  · rw [if_neg h, if_neg (by omega)]

theorem getRange_append (pre rest : Bytes) (a b : ℕ) :
    getRange (pre ++ rest) (pre.length + a) (pre.length + b) = getRange rest a b := by
  unfold getRange
  rw [List.length_append, List.take_append, List.drop_append]
  by_cases h : a ≤ b ∧ b ≤ rest.length
  · rw [if_pos h, if_pos (by omega), List.take_of_length_le (by omega),
      List.drop_eq_nil_of_le (by omega), List.nil_append]
    congr 3 <;> omega
  · rw [if_neg h, if_neg (by omega)]

theorem getU16Le_cons_cons (a b : UInt8) (rest : Bytes) :
    getU16Le (a :: b :: rest) = some (Tlv.ofLe16 a b) := by
  simp [getU16Le, getRange, fromLeBytes, Tlv.ofLe16]

/-- The value behind the head of a record. -/
theorem getRange_value (t₀ t₁ l₀ l₁ : UInt8) (rest : Bytes) (n : ℕ) :
    getRange (t₀ :: t₁ :: l₀ :: l₁ :: rest) 4 (4 + n)
      = if n ≤ rest.length then some (rest.take n) else none := by
  have h := getRange_append [t₀, t₁, l₀, l₁] rest 0 n
  simp only [List.cons_append, List.nil_append, List.length_cons, List.length_nil] at h
  rw [h]
  simp [getRange]

/-! ## The loop -/

/-- What the loop has found after one more record. -/
def note (found : Option Bytes × Option Bytes) (tlvType : ℕ) (payload : Bytes) :
    Option Bytes × Option Bytes :=
  (if tlvType = iasMeasureValueType then some payload else found.1,
    if tlvType = iasMeasureValueType then found.2
    else if tlvType = iasSignerIdType then some payload else found.2)

/-- One pass of the loop. -/
theorem parseTlvs_step (pre tail : Bytes) (t₀ t₁ l₀ l₁ : UInt8) (totLen : ℕ)
    (found : Option Bytes × Option Bytes) (h : pre.length + 4 ≤ totLen) :
    parseTlvs (pre ++ t₀ :: t₁ :: l₀ :: l₁ :: tail) totLen pre.length found.1 found.2 =
      if Tlv.ofLe16 l₀ l₁ ≤ tail.length then
        let found' := note found (Tlv.ofLe16 t₀ t₁) (tail.take (Tlv.ofLe16 l₀ l₁))
        parseTlvs (pre ++ t₀ :: t₁ :: l₀ :: l₁ :: tail) totLen
          (pre.length + 4 + Tlv.ofLe16 l₀ l₁) found'.1 found'.2
      else none := by
  have htype : (getFrom (pre ++ t₀ :: t₁ :: l₀ :: l₁ :: tail) pre.length).bind getU16Le
      = some (Tlv.ofLe16 t₀ t₁) := by
    have hget := getFrom_append pre (t₀ :: t₁ :: l₀ :: l₁ :: tail) 0
    rw [Nat.add_zero] at hget
    rw [hget]
    simp [getFrom, getU16Le_cons_cons]
  have hlen : (getFrom (pre ++ t₀ :: t₁ :: l₀ :: l₁ :: tail) (pre.length + 2)).bind getU16Le
      = some (Tlv.ofLe16 l₀ l₁) := by
    rw [getFrom_append]
    simp [getFrom, getU16Le_cons_cons]
  rw [parseTlvs, dif_pos h, htype, Option.bind_some, hlen, Option.bind_some, Nat.add_assoc,
    getRange_append, getRange_value]
  by_cases hn : Tlv.ofLe16 l₀ l₁ ≤ tail.length
  · rw [if_pos hn, if_pos hn, Option.bind_some]
    rfl
  · rw [if_neg hn, if_neg hn, Option.bind_none]

/-- The loop ends with the record. -/
theorem parseTlvs_end (data : Bytes) {totLen offset : ℕ} (found : Option Bytes × Option Bytes)
    (h : totLen < offset + 4) : parseTlvs data totLen offset found.1 found.2 = some found := by
  rw [parseTlvs, dif_neg (by omega)]

/-- The loop sees the records of the region, the last of them completed by what follows it. -/
theorem parseTlvs_eq (region suffix : Bytes) (pre : Bytes) (found : Option Bytes × Option Bytes) :
    parseTlvs (pre ++ (region ++ suffix)) (pre.length + region.length) pre.length found.1 found.2 =
      ((Tlv.walk region).seenWith suffix).map
        (fun rs => rs.foldl (fun f r => note f r.type r.value) found) := by
  fun_induction Tlv.walk region generalizing pre found with
  | case1 t₀ t₁ l₀ l₁ rest h rest' ih =>
    have hstep := parseTlvs_step pre (rest ++ suffix) t₀ t₁ l₀ l₁
      (pre.length + (t₀ :: t₁ :: l₀ :: l₁ :: rest).length) found
      (by simp only [List.length_cons]; omega)
    rw [if_pos (by rw [List.length_append]; omega), List.take_append_of_le_length h] at hstep
    -- The rest of the record, behind all that has been read.
    have hnext := ih (pre ++ t₀ :: t₁ :: l₀ :: l₁ :: rest.take (Tlv.ofLe16 l₀ l₁))
      (note found (Tlv.ofLe16 t₀ t₁) (rest.take (Tlv.ofLe16 l₀ l₁)))
    have hdata : pre ++ t₀ :: t₁ :: l₀ :: l₁ :: rest.take (Tlv.ofLe16 l₀ l₁)
          ++ (rest.drop (Tlv.ofLe16 l₀ l₁) ++ suffix)
        = pre ++ t₀ :: t₁ :: l₀ :: l₁ :: (rest ++ suffix) := by
      simp only [List.append_assoc, List.cons_append]
      rw [← List.append_assoc (rest.take _), List.take_append_drop]
    have hoffset : (pre ++ t₀ :: t₁ :: l₀ :: l₁ :: rest.take (Tlv.ofLe16 l₀ l₁)).length
        = pre.length + 4 + Tlv.ofLe16 l₀ l₁ := by
      simp only [List.length_append, List.length_cons, List.length_take_of_le h]
      omega
    have hend : pre.length + 4 + Tlv.ofLe16 l₀ l₁ + (rest.drop (Tlv.ofLe16 l₀ l₁)).length
        = pre.length + (t₀ :: t₁ :: l₀ :: l₁ :: rest).length := by
      simp only [List.length_drop, List.length_cons]
      omega
    rw [hdata, hoffset, hend] at hnext
    rw [List.cons_append, List.cons_append, List.cons_append, List.cons_append, hstep, hnext,
      Tlv.seenWith_cons, Option.map_map]
    rfl
  | case2 t₀ t₁ l₀ l₁ rest h =>
    have hstep := parseTlvs_step pre (rest ++ suffix) t₀ t₁ l₀ l₁
      (pre.length + (t₀ :: t₁ :: l₀ :: l₁ :: rest).length) found
      (by simp only [List.length_cons]; omega)
    rw [List.cons_append, List.cons_append, List.cons_append, List.cons_append, hstep,
      List.length_append, Tlv.Contents.seenWith]
    by_cases hmissing : Tlv.ofLe16 l₀ l₁ ≤ rest.length + suffix.length
    · rw [if_pos hmissing, parseTlvs_end _ _ (by simp only [List.length_cons]; omega),
        List.take_append, List.take_of_length_le (by omega)]
      simp [Tlv.Overrun.complete]
      omega
    · rw [if_neg hmissing]
      simp
      omega
  | case3 region h =>
    have hshort : region.length < 4 := by
      rcases region with _ | ⟨t₀, _ | ⟨t₁, _ | ⟨l₀, _ | ⟨l₁, rest⟩⟩⟩⟩
      · simp
      · simp
      · simp
      · simp
      · exact absurd rfl (h t₀ t₁ l₀ l₁ rest)
    rw [parseTlvs_end _ _ (by omega)]
    rfl

/-! ## The whole record -/

theorem foldl_note (rs : List Tlv.Record) :
    rs.foldl (fun f r => note f r.type r.value) (none, none)
      = (Tlv.lastOf iasMeasureValueType rs, Tlv.lastOf iasSignerIdType rs) := by
  induction rs using List.reverseRecOn with
  | nil => rfl
  | append_singleton rs r ih =>
    have hne : iasMeasureValueType ≠ iasSignerIdType := by decide
    rw [List.foldl_append, ih, List.foldl_cons, List.foldl_nil, note,
      Tlv.lastOf_append_singleton, Tlv.lastOf_append_singleton]
    by_cases h : r.type = iasMeasureValueType
    · rw [if_pos h, if_pos h, if_neg (by rw [h]; exact hne)]
    · rw [if_neg h, if_neg h]

/-- The software component of the records that were seen. -/
def component (rs : List Tlv.Record) : Option SwComponent :=
  (Tlv.lastOf iasMeasureValueType rs).bind fun measurementValue =>
    (Tlv.lastOf iasSignerIdType rs).bind fun signerId => some ⟨none, measurementValue, signerId⟩

theorem component_eq_some {rs : List Tlv.Record} {c : SwComponent} :
    component rs = some c ↔ c.measurementType = none ∧
      Tlv.lastOf iasMeasureValueType rs = some c.measurementValue ∧
      Tlv.lastOf iasSignerIdType rs = some c.signerId := by
  unfold component
  constructor
  · intro h
    obtain ⟨v, hv, h⟩ := Option.bind_eq_some_iff.mp h
    obtain ⟨s, hs, h⟩ := Option.bind_eq_some_iff.mp h
    cases h
    exact ⟨rfl, hv, hs⟩
  · rintro ⟨htype, hv, hs⟩
    rw [hv, hs, Option.bind_some, Option.bind_some, ← htype]

theorem isSome_component {rs : List Tlv.Record} :
    (component rs).isSome ↔
      iasMeasureValueType ∈ rs.map (·.type) ∧ iasSignerIdType ∈ rs.map (·.type) := by
  rw [List.mem_map, List.mem_map, ← Tlv.isSome_lastOf, ← Tlv.isSome_lastOf]
  unfold component
  cases Tlv.lastOf iasMeasureValueType rs with
  | none => simp
  | some v => cases Tlv.lastOf iasSignerIdType rs <;> simp

/-- The header of `data` announces a total length of `totLen` bytes. -/
def Announces (data : Bytes) (totLen : ℕ) : Prop := (getFrom data 2).bind getU16Le = some totLen

/-- What the walk finds behind the header of a record. -/
def contents (record : Bytes) : Tlv.Contents := Tlv.walk (record.drop 4)

theorem parseBootData_eq {data : Bytes} {totLen : ℕ} (h : Announces data totLen)
    (hlen : totLen ≤ data.length) :
    parseBootData data =
      if getU16Le data = some sharedDataTlvInfoMagic ∧ 4 ≤ totLen then
        ((contents (data.take totLen)).seenWith (data.drop totLen)).bind component
      else none := by
  unfold parseBootData
  cases hmagic : getU16Le data with
  | none => simp
  | some magic =>
    rw [h]
    simp only [Option.bind_eq_bind, Option.bind_some, Option.some.injEq]
    by_cases hok : magic = sharedDataTlvInfoMagic ∧ 4 ≤ totLen
    · rw [if_pos hok, if_neg (by omega)]
      have hloop := parseTlvs_eq ((data.take totLen).drop 4) (data.drop totLen) (data.take 4)
        (none, none)
      have hdata : data.take 4 ++ ((data.take totLen).drop 4 ++ data.drop totLen) = data := by
        have hhead : (data.take totLen).take 4 = data.take 4 := by
          rw [List.take_take, min_eq_left hok.2]
        rw [← List.append_assoc, ← hhead, List.take_append_drop, List.take_append_drop]
      have hfour : (data.take 4).length = 4 := List.length_take_of_le (by omega)
      have hend : 4 + ((data.take totLen).drop 4).length = totLen := by
        rw [List.length_drop, List.length_take_of_le hlen]
        omega
      rw [hdata, hfour, hend] at hloop
      rw [hloop, ← contents]
      cases (contents (data.take totLen)).seenWith (data.drop totLen) with
      | none => rfl
      | some rs =>
        rw [Option.map_some, Option.bind_some, Option.bind_some, foldl_note]
        rfl
    · rw [if_neg hok, if_pos (by omega)]

/-! ## The result depends on the record alone -/

/-- The result is that of every window that begins with the same record, the values lie in the
record, and a record that runs past the end is rejected. -/
structure StaysInside (data : Bytes) (totLen : ℕ) : Prop where
  depends : ∀ data', Announces data' totLen → totLen ≤ data'.length →
    data'.take totLen = data.take totLen → parseBootData data' = parseBootData data
  inside : ∀ c, parseBootData data = some c →
    c.measurementValue <:+: (data.take totLen).drop 4 ∧ c.signerId <:+: (data.take totLen).drop 4
  rejected : (contents (data.take totLen)).overrun.isSome → parseBootData data = none

/-- The last value runs over the end of the record, and with its type both values are there. -/
def RunsOver (record : Bytes) : Prop :=
  getU16Le record = some sharedDataTlvInfoMagic ∧ 4 ≤ record.length ∧
    (contents record).overrun.isSome ∧
    iasMeasureValueType ∈ (contents record).types ∧ iasSignerIdType ∈ (contents record).types

theorem getU16Le_append {data : Bytes} (h : 2 ≤ data.length) (suffix : Bytes) :
    getU16Le (data ++ suffix) = getU16Le data := by
  unfold getU16Le getRange
  rw [List.length_append, List.take_append_of_le_length h, if_pos (by omega), if_pos (by omega)]

theorem announces_append {record : Bytes} {totLen : ℕ} (h : 4 ≤ record.length) (suffix : Bytes) :
    Announces (record ++ suffix) totLen ↔ Announces record totLen := by
  unfold Announces getFrom
  rw [List.length_append, if_pos (by omega), if_pos (by omega), Option.bind_some, Option.bind_some,
    List.drop_append_of_le_length (by omega), getU16Le_append (by rw [List.length_drop]; omega)]

/-- What a window gives that begins with the record: `suffix` is the rest of the window. -/
theorem parseBootData_append {record : Bytes} (h : Announces record record.length)
    (hlen : 4 ≤ record.length) (hmagic : getU16Le record = some sharedDataTlvInfoMagic)
    (suffix : Bytes) :
    parseBootData (record ++ suffix) = ((contents record).seenWith suffix).bind component := by
  rw [parseBootData_eq ((announces_append hlen suffix).mpr h)
    (by rw [List.length_append]; omega), getU16Le_append (by omega), if_pos ⟨hmagic, hlen⟩,
    List.take_left, List.drop_left]

/-- Two windows on one such record give different results. -/
theorem not_staysInside {data : Bytes} {totLen : ℕ} (h : Announces data totLen)
    (hlen : totLen ≤ data.length) (hover : RunsOver (data.take totLen)) :
    ¬ StaysInside data totLen := by
  intro hstay
  obtain ⟨hmagic, hfour, hsome, hmeasure, hsigner⟩ := hover
  obtain ⟨o, ho⟩ := Option.isSome_iff_exists.mp hsome
  have htake : (data.take totLen).length = totLen := List.length_take_of_le hlen
  have hrecord : Announces (data.take totLen) (data.take totLen).length := by
    rw [← announces_append hfour (data.drop totLen), List.take_append_drop, htake]
    exact h
  have hwindow : ∀ suffix : Bytes,
      parseBootData (data.take totLen ++ suffix) = parseBootData data := by
    intro suffix
    apply hstay.depends
    · rw [htake] at hrecord
      exact (announces_append hfour suffix).mpr hrecord
    · rw [List.length_append]
      omega
    · exact List.take_left' htake
  -- The window that ends with the record.
  have hshort := parseBootData_append hrecord hfour hmagic []
  rw [Tlv.seenWith_nil_of_overrun _ o ho, Option.bind_none, hwindow] at hshort
  -- The window with as many bytes as the last value asks for.
  have hlong := parseBootData_append hrecord hfour hmagic (List.replicate o.missing 0)
  have hseen := Tlv.seenWith_of_missing_le _ (List.replicate o.missing 0) o ho (by simp)
  have hsome : (component ((contents (data.take totLen)).records
      ++ [o.complete (List.replicate o.missing 0)])).isSome := by
    rw [isSome_component, Tlv.map_type_of_seenWith hseen]
    exact ⟨hmeasure, hsigner⟩
  rw [hseen, Option.bind_some, hwindow, hshort] at hlong
  rw [← hlong] at hsome
  exact Bool.false_ne_true hsome

/-- What the record alone gives. -/
def readRecord (record : Bytes) : Option SwComponent :=
  if getU16Le record = some sharedDataTlvInfoMagic ∧ 4 ≤ record.length ∧
      (contents record).overrun = none then component (contents record).records
  else none

/-- A value is missing whatever follows the record. -/
theorem bind_component_eq_none {c : Tlv.Contents} (suffix : Bytes)
    (h : ¬ (iasMeasureValueType ∈ c.types ∧ iasSignerIdType ∈ c.types)) :
    (c.seenWith suffix).bind component = none := by
  cases hrs : c.seenWith suffix with
  | none => rfl
  | some rs =>
    rw [Option.bind_some, ← Option.not_isSome_iff_eq_none, isSome_component,
      Tlv.map_type_of_seenWith hrs]
    exact h

theorem parseBootData_of_not_runsOver {data : Bytes} {totLen : ℕ} (h : Announces data totLen)
    (hlen : totLen ≤ data.length) (hover : ¬ RunsOver (data.take totLen)) :
    parseBootData data = readRecord (data.take totLen) := by
  rw [parseBootData_eq h hlen, readRecord, List.length_take_of_le hlen]
  by_cases hfour : 4 ≤ totLen
  · have hmagic : getU16Le (data.take totLen) = getU16Le data := by
      conv_rhs => rw [← List.take_append_drop totLen data]
      rw [getU16Le_append (by rw [List.length_take_of_le hlen]; omega)]
    rw [hmagic]
    by_cases hok : getU16Le data = some sharedDataTlvInfoMagic
    · rw [if_pos ⟨hok, hfour⟩]
      cases ho : (contents (data.take totLen)).overrun with
      | none =>
        rw [if_pos ⟨hok, hfour, rfl⟩, Tlv.Contents.seenWith, ho, Option.bind_some]
      | some o =>
        rw [if_neg (fun hc => by cases hc.2.2)]
        apply bind_component_eq_none
        rintro ⟨hmeasure, hsigner⟩
        refine hover ⟨hmagic.trans hok, ?_, ?_, hmeasure, hsigner⟩
        · rw [List.length_take_of_le hlen]
          exact hfour
        · rw [ho]
          rfl
    · rw [if_neg (fun hc => hok hc.1), if_neg (fun hc => hok hc.1)]
  · rw [if_neg (fun hc => hfour hc.2), if_neg (fun hc => hfour hc.2.1)]

theorem readRecord_eq_some {record : Bytes} {c : SwComponent} (h : readRecord record = some c) :
    (contents record).overrun = none ∧ component (contents record).records = some c := by
  unfold readRecord at h
  split_ifs at h with hok
  exact ⟨hok.2.2, h⟩

/-- **The result depends on the record alone iff the last value does not run over its end, or a
value is missing with it.** -/
theorem staysInside_iff {data : Bytes} {totLen : ℕ} (h : Announces data totLen)
    (hlen : totLen ≤ data.length) :
    StaysInside data totLen ↔ ¬ RunsOver (data.take totLen) := by
  constructor
  · intro hstay hover
    exact not_staysInside h hlen hover hstay
  · intro hover
    have hread := parseBootData_of_not_runsOver h hlen hover
    refine ⟨?_, ?_, ?_⟩
    · intro data' h' hlen' htake
      rw [hread, parseBootData_of_not_runsOver h' hlen' (by rw [htake]; exact hover), htake]
    · intro c hc
      rw [hread] at hc
      obtain ⟨-, hvalue, hsigner⟩ := component_eq_some.mp (readRecord_eq_some hc).2
      obtain ⟨r, hr, hrvalue⟩ := Tlv.mem_of_lastOf hvalue
      obtain ⟨s, hs, hsvalue⟩ := Tlv.mem_of_lastOf hsigner
      rw [← hrvalue, ← hsvalue]
      exact ⟨Tlv.walk_records_infix _ r hr, Tlv.walk_records_infix _ s hs⟩
    · intro hsome
      rw [hread, Option.eq_none_iff_forall_ne_some]
      intro c hc
      rw [(readRecord_eq_some hc).1] at hsome
      exact Bool.false_ne_true hsome

/-- A window with a whole record and one byte that is not part of it. -/
def wholeWindow : Bytes :=
  [0x16, 0x20, 16, 0, 0x08, 0x10, 2, 0, 0xA1, 0xA2, 0x01, 0x10, 2, 0, 0xB1, 0xB2, 0xFF]

theorem contents_wholeWindow : (contents (wholeWindow.take 16)).overrun = none := by
  simp [contents, wholeWindow, Tlv.walk, Tlv.ofLe16]

theorem staysInside_wholeWindow : StaysInside wholeWindow 16 :=
  (staysInside_iff (by rfl) (by decide)).mpr fun h => by
    have hsome := h.2.2.1
    rw [contents_wholeWindow] at hsome
    cases hsome

/-- A window whose record ends inside its signer id. -/
def overrunWindow : Bytes :=
  [0x16, 0x20, 14, 0, 0x08, 0x10, 2, 0, 0xA1, 0xA2, 0x01, 0x10, 4, 0, 0xF1, 0xF2, 0xF3, 0xF4]

theorem contents_overrunWindow : (contents (overrunWindow.take 14)).overrun.isSome ∧
    (contents (overrunWindow.take 14)).types = [iasMeasureValueType, iasSignerIdType] := by
  simp [contents, overrunWindow, Tlv.walk, Tlv.ofLe16, Tlv.Contents.types, iasMeasureValueType,
    iasSignerIdType]

theorem not_staysInside_overrunWindow :
    ¬ ∀ (data : Bytes) (totLen : ℕ), Announces data totLen → totLen ≤ data.length →
      StaysInside data totLen := by
  intro hall
  have h : Announces overrunWindow 14 := by rfl
  refine not_staysInside h (by decide) ?_ (hall overrunWindow 14 h (by decide))
  refine ⟨by decide, by decide, contents_overrunWindow.1, ?_, ?_⟩
  · rw [contents_overrunWindow.2]
    exact List.mem_cons_self
  · rw [contents_overrunWindow.2]
    exact List.mem_cons_of_mem _ List.mem_cons_self

/-! ## What was written is read -/

/-- A boot record: the header, and the records behind it. -/
def bootRecord (rs : List Tlv.Record) : Bytes :=
  Tlv.le16 sharedDataTlvInfoMagic ++ Tlv.le16 (4 + (Tlv.encodeAll rs).length) ++ Tlv.encodeAll rs

theorem length_bootRecord (rs : List Tlv.Record) :
    (bootRecord rs).length = 4 + (Tlv.encodeAll rs).length := by
  simp [bootRecord, Tlv.le16]
  omega

theorem contents_bootRecord (rs : List Tlv.Record) : contents (bootRecord rs) = ⟨rs, none⟩ := by
  rw [contents, bootRecord, Tlv.le16, Tlv.le16]
  exact Tlv.walk_encodeAll rs

theorem getU16Le_bootRecord (rs : List Tlv.Record) :
    getU16Le (bootRecord rs) = some sharedDataTlvInfoMagic := by
  rw [bootRecord, Tlv.le16]
  exact (getU16Le_cons_cons _ _ _).trans (congrArg some (Tlv.ofLe16_le16 (by decide)))

theorem announces_bootRecord {rs : List Tlv.Record} (h : (bootRecord rs).length < 2 ^ 16) :
    Announces (bootRecord rs) (bootRecord rs).length := by
  rw [length_bootRecord] at h
  have hget : getFrom (bootRecord rs) 2
      = some (Tlv.le16 (4 + (Tlv.encodeAll rs).length) ++ Tlv.encodeAll rs) := by
    rw [getFrom, if_pos (by rw [length_bootRecord]; omega), bootRecord, Tlv.le16]
    rfl
  rw [Announces, hget, length_bootRecord, Tlv.le16]
  exact (getU16Le_cons_cons _ _ _).trans (congrArg some (Tlv.ofLe16_le16 h))

/-- **What was written is read, whatever follows it: the last value of each type.** -/
theorem parseBootData_bootRecord (rs : List Tlv.Record) (suffix : Bytes)
    (h : (bootRecord rs).length < 2 ^ 16) :
    (∀ c, parseBootData (bootRecord rs ++ suffix) = some c ↔ c.measurementType = none ∧
      Tlv.lastOf iasMeasureValueType rs = some c.measurementValue ∧
      Tlv.lastOf iasSignerIdType rs = some c.signerId) ∧
    ((parseBootData (bootRecord rs ++ suffix)).isSome ↔
      (∃ r ∈ rs, r.type = iasMeasureValueType) ∧ ∃ r ∈ rs, r.type = iasSignerIdType) := by
  have hparse : parseBootData (bootRecord rs ++ suffix) = component rs := by
    rw [parseBootData_append (announces_bootRecord h) (by rw [length_bootRecord]; omega)
      (getU16Le_bootRecord rs), contents_bootRecord]
    rfl
  rw [hparse, isSome_component, List.mem_map, List.mem_map]
  exact ⟨fun c => component_eq_some, Iff.rfl⟩

theorem parseBootData_twoSigners :
    (parseBootData (bootRecord [⟨iasSignerIdType, [1], by decide, by decide⟩,
      ⟨0, [], by decide, by decide⟩, ⟨iasMeasureValueType, [2], by decide, by decide⟩,
      ⟨iasSignerIdType, [3], by decide, by decide⟩] ++ [4])) = some ⟨none, [2], [3]⟩ :=
  ((parseBootData_bootRecord _ _ (by decide)).1 _).mpr ⟨rfl, by decide, by decide⟩

end RuSpe
