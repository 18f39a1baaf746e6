import RuSpe.Psc3.TrngFresh

set_option autoImplicit false

/-!
# The seed of a boot

The seed is a fill of 32 bytes, right after the generator was enabled. As long as no health test
fails, a fill needs one word to succeed, of any length; then all its chunks may be that word.

* `Quiet`, `Available`, **`trngTryFillBytes_of_available`**: one word is enough for a fill;
* `bootSeed_eq`: the fill that draws the seed;
* **`fresh_iff_timely`**: when the words of a fill, and of a seed, are distinct.
-/

namespace RuSpe

open Cbor (Bytes)

/-! ## Fills that succeed -/

section

variable {hw : TrngSchedule} {v : TrngWorld}

/-- The event is a failed health test. -/
def TrngEvent.isHealthError : TrngEvent → Bool
  | .apDetect => true
  | .rcDetect => true
  | _ => false

/-- No health test fails. -/
def Quiet (hw : TrngSchedule) : Prop := ∀ k, ∀ e ∈ hw k, e.isHealthError = false

/-- The generator is enabled and healthy, and has a word. -/
structure Available (d : Trng) : Prop where
  enabled : ringOscillators.any (d.ctl1.getLsbD ·) = true
  dataAvailable : d.intr.dataAvailable = true
  apDetect : d.intr.apDetect = false
  rcDetect : d.intr.rcDetect = false

/-- `d'` follows `d` without a failed health test. -/
structure StillAvailable (d d' : Trng) : Prop where
  available : Available d → Available d'
  ctl1 : d'.ctl1 = d.ctl1

theorem StillAvailable.apply {e : TrngEvent} (he : e.isHealthError = false) (d : Trng) :
    StillAvailable d (e.apply d) := by
  cases e with
  | initialized => exact ⟨fun h => ⟨h.enabled, h.dataAvailable, h.apDetect, h.rcDetect⟩, rfl⟩
  | word data => exact ⟨fun h => ⟨h.enabled, rfl, h.apDetect, h.rcDetect⟩, rfl⟩
  | apDetect => cases he
  | rcDetect => cases he

theorem stillAvailable_after (hq : Quiet hw) (n : ℕ) (v : TrngWorld) :
    StillAvailable v.dev (v.after hw n).dev :=
  Schedule.rel_after (fun _ => ⟨id, rfl⟩)
    (fun _ _ _ h h' => ⟨h'.available ∘ h.available, h'.ctl1.trans h.ctl1⟩)
    (fun k e he => StillAvailable.apply (hq k e he)) v.clock (Nat.zero_le n)

theorem anySet_of_quiet (hq : Quiet hw) {bits : List ℕ}
    (h : bits.any (v.dev.ctl1.getLsbD ·) = true) : (anySet hw bits v).1 = true := by
  induction bits generalizing v with
  | nil => cases h
  | cons bit bits ih =>
    have hctl : (v.tick hw).dev.ctl1 = v.dev.ctl1 := (stillAvailable_after hq 1 v).ctl1
    rw [anySet, TrngWorld.isSetCtl1]
    dsimp only
    split_ifs with hbit
    · rfl
    · rw [hctl] at hbit
      rw [List.any_cons, Bool.eq_false_of_not_eq_true hbit, Bool.false_or, ← hctl] at h
      exact ih h

theorem available_after (hq : Quiet hw) (h : Available v.dev) (n : ℕ) :
    Available (v.after hw n).dev := (stillAvailable_after hq n v).available h

/-- A check of a generator that stays enabled. -/
theorem trngIsEnabled_of_available (hq : Quiet hw) (h : Available v.dev) :
    trngIsEnabled hw v = (true, v.after hw (enabledReads v.dev.ctl1)) := by
  have htrue : trngIsEnabled hw v = (true, (trngIsEnabled hw v).2) :=
    Prod.ext (anySet_of_quiet hq h.enabled) rfl
  rw [htrue, (trngIsEnabled_eq htrue).1]

/-- A word is read from a generator that has one. -/
theorem trngReadData_of_available (hq : Quiet hw) (h : Available v.dev) (fuel : ℕ) :
    ∃ word v₁, trngReadData hw (fuel + 1) v = some (.ok word, v₁) ∧ Available v₁.dev := by
  suffices hread : ∃ word v₁, trngReadData hw (fuel + 1) v = some (.ok word, v₁) by
    obtain ⟨word, v₁, hread⟩ := hread
    obtain ⟨-, m, -, -, hv₁, -⟩ := trngReadData_eq hread
    exact ⟨word, v₁, hread, hv₁ ▸ available_after hq h _⟩
  generalize hn : enabledReads v.dev.ctl1 = n
  have hpoll : trngWaitForComplete hw (fuel + 1) (v.after hw n) = some (v.after hw (n + 1)) := by
    have hdata := (available_after hq h (n + 1)).dataAvailable
    rw [trngWaitForComplete, TrngWorld.isSetIntr, TrngWorld.tick_after]
    dsimp only
    rw [if_pos hdata]
  have hstatus : (trngMonGetHealthStatus hw ((v.after hw (n + 1)).readResult hw).2).1 = 0 := by
    rw [trngMonGetHealthStatus_eq_zero_iff, readResult_after, readResult_after,
      TrngWorld.after_after, TrngWorld.after_after]
    exact ⟨(available_after hq h _).apDetect, (available_after hq h _).rcDetect⟩
  rw [trngReadData, trngIsEnabled_of_available hq h, hn]
  dsimp only
  rw [if_neg (show ¬ (!true) = true from Bool.false_ne_true), hpoll]
  dsimp only
  rw [if_neg (not_not.mpr hstatus)]
  exact ⟨_, _, rfl⟩

/-- **A fill succeeds as soon as there is one word**, if no health test fails. -/
theorem trngFillLoop_of_available (hq : Quiet hw) (h : Available v.dev) (fuel : ℕ) (dest : Bytes)
    (offset : ℕ) : ∃ out v', trngFillLoop hw (fuel + 1) dest offset v = some (.ok (), out, v') := by
  generalize hk : dest.length - offset = k
  induction k using Nat.strong_induction_on generalizing v dest offset with
  | _ k ih =>
    rw [trngFillLoop]
    by_cases hlt : offset < dest.length
    · obtain ⟨word, v₁, hread, hv₁⟩ := trngReadData_of_available hq h fuel
      rw [if_pos hlt, hread]
      refine ih _ ?_ hv₁ _ _ rfl
      rw [← hk]
      exact sub_lt_of_copy hlt (AttestService.length_toLeBytes 4 word.toNat)
    · rw [if_neg hlt]
      exact ⟨_, _, rfl⟩

theorem trngTryFillBytes_of_available (hq : Quiet hw) (h : Available v.dev) (fuel : ℕ)
    (dest : Bytes) : ∃ out v', trngTryFillBytes hw (fuel + 1) dest v = some (.ok (), out, v') := by
  rw [trngTryFillBytes, trngIsEnabled_of_available hq h]
  exact trngFillLoop_of_available hq (available_after hq h _) fuel dest 0

end

/-! ## The seed -/

section

variable {hw : TrngSchedule} {fuel : ℕ} {state state' : BootSeedState} {seed : Vector UInt8 32}
  {w w' : TrngWorld}

theorem toList_seedOf {b : Bytes} (h : b.length = 32) : (seedOf b).toList = b := by
  rw [seedOf, Vector.toList_ofFn]
  apply List.ext_getElem
  · rw [List.length_ofFn, h]
  · intro i hi hi'
    rw [List.getElem_ofFn, List.getD_eq_getElem?_getD, List.getElem?_eq_getElem hi',
      Option.getD_some]

/-- A fill does not change the length. -/
theorem length_of_fill {dest out : Bytes}
    (h : trngTryFillBytes hw fuel dest w = some (.ok (), out, w')) : out.length = dest.length := by
  obtain ⟨m, -, -, -, hout⟩ := fills h
  have hlen (f : ℕ → Trng) (n : ℕ) :
      ((List.range n).flatMap fun i => (f i).bytes).length = 4 * n := by
    simp only [List.length_flatMap, length_bytes, List.map_const', List.sum_replicate,
      List.length_range, smul_eq_mul, mul_comm]
  rw [hout, List.length_take, hlen, chunks]
  omega

/-- The first seed is a fill, right after the generator was enabled. -/
theorem bootSeed_eq (hinit : state.init = false)
    (h : bootSeed hw fuel false state w = some (.ok seed, state', w')) :
    ∃ v out, trngEnable hw fuel (trngInit hw .default w).2 = some (.ok (), v) ∧
      trngTryFillBytes hw fuel state.seed.toList v = some (.ok (), out, w') ∧
      seed = seedOf out := by
  rw [bootSeed, if_neg Bool.false_ne_true, if_neg (by rw [hinit]; exact Bool.false_ne_true)] at h
  rcases htrng : trngInit hw .default w with ⟨res, v₀⟩
  rw [htrng] at h
  cases res with
  | error e => cases h
  | ok u =>
    dsimp only at h ⊢
    rcases hen : trngEnable hw fuel v₀ with _ | ⟨res, v⟩
    · rw [hen] at h
      cases h
    rw [hen] at h
    cases res with
    | error e => cases h
    | ok u =>
      dsimp only at h
      rcases hfill : trngTryFillBytes hw fuel state.seed.toList v with _ | ⟨res, out, v'⟩
      · rw [hfill] at h
        cases h
      rw [hfill] at h
      cases res with
      | error e => cases h
      | ok u =>
        obtain ⟨hseed, hrest⟩ := Prod.mk.inj (Option.some.inj h)
        obtain ⟨-, rfl⟩ := Prod.mk.inj hrest
        exact ⟨v, out, rfl, hfill, (Except.ok.inj hseed).symm⟩

/-- The first seed is drawn if the generator can be enabled and the fill succeeds. -/
theorem bootSeed_of_fill {v : TrngWorld} {out : Bytes} (hinit : state.init = false)
    (hen : trngEnable hw fuel (trngInit hw .default w).2 = some (.ok (), v))
    (hfill : trngTryFillBytes hw fuel state.seed.toList v = some (.ok (), out, w')) :
    bootSeed hw fuel false state w = some (.ok (seedOf out), ⟨seedOf out, true⟩, w') := by
  have htrng : trngInit hw .default w = (.ok (), (trngInit hw .default w).2) := rfl
  rw [bootSeed, if_neg Bool.false_ne_true, if_neg (by rw [hinit]; exact Bool.false_ne_true), htrng]
  dsimp only
  rw [hen]
  dsimp only
  rw [hfill]

/-- Hardware that places a word before every access is fast enough. -/
theorem timely_of_busy (h : ∀ k, (hw k).any TrngEvent.isWord = true) (w : TrngWorld) (n : ℕ) :
    Timely hw w n := by
  refine fun m _ i _ => ⟨fillTime w m i, le_rfl, ?_, h _⟩
  rw [fillTime, fillTime]
  exact Nat.add_lt_add_left (Nat.mul_lt_mul_of_pos_right (Nat.lt_succ_self i) (by omega)) _

/-- **Which fills and which seeds have fresh words**: those for which the hardware places a word
between each two reads. -/
theorem fresh_iff_timely (hw : TrngSchedule) :
    (∀ {fuel dest out w w'}, trngTryFillBytes hw fuel dest w = some (.ok (), out, w') →
      ∃ l, w'.reads = w.reads ++ l ∧ l.length = chunks dest.length ∧
        (FreshFill l dest out ↔ Timely hw w dest.length)) ∧
    (∀ {fuel state seed state' w w'}, state.init = false →
      bootSeed hw fuel false state w = some (.ok seed, state', w') →
      ∃ v l, trngEnable hw fuel (trngInit hw .default w).2 = some (.ok (), v) ∧
        w'.reads = v.reads ++ l ∧ l.length = 8 ∧
        (FreshFill l state.seed.toList seed.toList ↔ Timely hw v 32)) := by
  constructor
  · exact fun h => freshFill_iff_timely h
  · intro fuel state seed state' w w' hinit h
    obtain ⟨v, out, hen, hfill, rfl⟩ := bootSeed_eq hinit h
    obtain ⟨l, hreads, hl, hiff⟩ := freshFill_iff_timely hfill
    have hlen := length_of_fill hfill
    rw [Vector.length_toList] at hlen hl hiff
    rw [toList_seedOf hlen]
    exact ⟨v, l, hen, hreads, hl, hiff⟩

/-- A generator that has a word. -/
def oneWord : TrngWorld :=
  ⟨⟨⟨0x3F, true, true, ⟨true, true, false, false⟩, 0xDEADBEEF, 1⟩, 0⟩, []⟩

/-- A generator that is off. -/
def switchedOff : TrngWorld :=
  ⟨⟨⟨0, false, false, ⟨false, false, false, false⟩, 0, 0⟩, 0⟩, []⟩

/-- Hardware that places a word before every access. -/
def busy : TrngSchedule := fun k => [.initialized, .word (BitVec.ofNat 32 k)]

theorem quiet_busy : Quiet busy := by
  intro k e he
  rw [busy, List.mem_pair] at he
  rcases he with rfl | rfl
  · rfl
  · rfl

/-- Two chunks, the second of one byte, and a seed of eight, all of different words. -/
theorem fresh_iff_timely_busy :
    (∃ out w' l, trngTryFillBytes busy 1 (List.replicate 5 0) oneWord = some (.ok (), out, w') ∧
      w'.reads = l ∧ l.length = 2 ∧ FreshFill l (List.replicate 5 0) out) ∧
    ∃ seed state' w', bootSeed busy 1 false .new switchedOff = some (.ok seed, state', w') ∧
      w'.reads.length = 8 ∧ FreshFill w'.reads (List.replicate 32 0) seed.toList := by
  have hbusy (w : TrngWorld) (n : ℕ) : Timely busy w n := timely_of_busy (fun _ => rfl) w n
  constructor
  · obtain ⟨out, w', h⟩ := trngTryFillBytes_of_available quiet_busy (v := oneWord)
      ⟨rfl, rfl, rfl, rfl⟩ 0 (List.replicate 5 0)
    obtain ⟨l, hreads, hlen, hiff⟩ := (fresh_iff_timely busy).1 h
    exact ⟨out, w', l, h, hreads, hlen, hiff.mpr (hbusy _ _)⟩
  · obtain ⟨v, hen, hreads, hv⟩ : ∃ v, trngEnable busy 1 (trngInit busy .default switchedOff).2 =
        some (.ok (), v) ∧ v.reads = [] ∧ Available v.dev :=
      ⟨_, rfl, rfl, rfl, rfl, rfl, rfl⟩
    obtain ⟨out, w', hfill⟩ := trngTryFillBytes_of_available quiet_busy hv 0
      BootSeedState.new.seed.toList
    have h : bootSeed busy 1 false .new switchedOff = _ := bootSeed_of_fill rfl hen hfill
    obtain ⟨v', l, hen', hreads', hlen, hiff⟩ := (fresh_iff_timely busy).2 rfl h
    obtain rfl := (Prod.mk.inj (Option.some.inj (hen.symm.trans hen'))).2
    rw [hreads, List.nil_append] at hreads'
    rw [← hreads'] at hlen hiff
    exact ⟨_, _, w', h, hlen, hiff.mpr (hbusy _ _)⟩

/-- Its word is used eight times, if there is no other. -/
theorem seed_repeats : ∃ out w', trngTryFillBytes (fun _ => []) 1 (List.replicate 32 0) oneWord =
    some (.ok (), out, w') ∧ w'.reads = List.replicate 8 oneWord.dev ∧
      out = (List.replicate 8 [0xEF, 0xBE, 0xAD, 0xDE]).flatten ∧
      ¬ FreshFill w'.reads (List.replicate 32 0) out := by
  have hdev (n : ℕ) : (oneWord.after (fun _ => []) n).dev = oneWord.dev :=
    Schedule.rel_after (R := fun d d' => d' = d) (fun _ => rfl) (fun _ _ _ h h' => h'.trans h)
      (fun _ _ he => absurd he List.not_mem_nil) oneWord.clock (Nat.zero_le n)
  have hquiet : Quiet fun _ => [] := fun _ _ he => absurd he List.not_mem_nil
  obtain ⟨out, w', h⟩ := trngTryFillBytes_of_available hquiet (v := oneWord) ⟨rfl, rfl, rfl, rfl⟩ 0
    (List.replicate 32 0)
  obtain ⟨m, -, hreads, -, hout⟩ := fills h
  simp only [hdev] at hreads hout
  refine ⟨out, w', h, hreads, hout, fun hfresh => ?_⟩
  have hlt := hfresh.fresh
  rw [hreads] at hlt
  revert hlt
  decide

end

end RuSpe
