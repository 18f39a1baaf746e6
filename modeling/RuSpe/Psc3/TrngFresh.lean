import RuSpe.Psc3.Trng

set_option autoImplicit false

/-!
# Random words that are used twice

Nothing in the read path clears `DATA_AVAILABLE`. The first word of a fill is waited for; after that
the wait is over at its first poll, and the driver reads `TRNG_RESULT` again after a fixed number of
accesses, whether there is a new word or not.

* `Later`, `after`: what the hardware cannot undo, and the device at each access;
* `trngIsEnabled_eq`, `trngWaitForComplete_eq`, `trngReadData_eq`: when each read happens;
* `readTime`, **`fills`**: what a fill reads, and when;
* `Timely`, **`freshFill_iff_timely`**: the chunks are fresh exactly if the hardware is fast enough.
-/

namespace RuSpe

open Cbor (Bytes)

/-! ## What the hardware cannot undo -/

/-- `d'` follows `d` in some schedule: causes stay set, and the enable bits are at most cleared. -/
structure Later (d d' : Trng) : Prop where
  ctl1 : d'.ctl1 = d.ctl1 ∨ d'.ctl1 = 0
  dataAvailable : d.intr.dataAvailable = true → d'.intr.dataAvailable = true
  apDetect : d.intr.apDetect = true → d'.intr.apDetect = true
  rcDetect : d.intr.rcDetect = true → d'.intr.rcDetect = true

theorem Later.refl (d : Trng) : Later d d := ⟨Or.inl rfl, id, id, id⟩

theorem Later.trans {a b c : Trng} (h : Later a b) (h' : Later b c) : Later a c where
  ctl1 := by
    rcases h'.ctl1 with hc | hc
    · rw [hc]
      exact h.ctl1
    · exact Or.inr hc
  dataAvailable hd := h'.dataAvailable (h.dataAvailable hd)
  apDetect hd := h'.apDetect (h.apDetect hd)
  rcDetect hd := h'.rcDetect (h.rcDetect hd)

theorem later_apply (e : TrngEvent) (d : Trng) : Later d (e.apply d) := by
  cases e with
  | initialized => exact ⟨Or.inl rfl, id, id, id⟩
  | word data => exact ⟨Or.inl rfl, fun _ => rfl, id, id⟩
  | apDetect =>
    refine ⟨?_, id, fun _ => rfl, id⟩
    dsimp only [TrngEvent.apply]
    split
    · exact Or.inr rfl
    · exact Or.inl rfl
  | rcDetect =>
    refine ⟨?_, id, id, fun _ => rfl⟩
    dsimp only [TrngEvent.apply]
    split
    · exact Or.inr rfl
    · exact Or.inl rfl

/-- The event is a new word. -/
def TrngEvent.isWord : TrngEvent → Bool
  | .word _ => true
  | _ => false

theorem words_apply (e : TrngEvent) (d : Trng) : (e.apply d).words = d.words + e.isWord.toNat := by
  cases e <;> rfl

/-! ## The device at each access -/

namespace TrngWorld

variable (hw : TrngSchedule)

/-- The world `n` accesses later. -/
def after (n : ℕ) (w : TrngWorld) : TrngWorld :=
  { w with clock := Schedule.after TrngEvent.apply hw n w.clock }

/-- Further reads of `TRNG_RESULT`. -/
def log (l : List Trng) (w : TrngWorld) : TrngWorld := { w with reads := w.reads ++ l }

variable {hw}

theorem after_log (l : List Trng) (n : ℕ) (w : TrngWorld) :
    (w.log l).after hw n = (w.after hw n).log l := rfl

theorem after_after (m n : ℕ) (w : TrngWorld) : (w.after hw m).after hw n = w.after hw (m + n) := by
  rw [after, after, after, Schedule.after_after]

theorem tick_after (n : ℕ) (w : TrngWorld) : (w.after hw n).tick hw = w.after hw (n + 1) := by
  rw [after, after, tick, Schedule.tick_after]

theorem tick_eq (w : TrngWorld) : w.tick hw = w.after hw 1 := rfl

theorem later_after {m n : ℕ} (h : m ≤ n) (w : TrngWorld) :
    Later (w.after hw m).dev (w.after hw n).dev :=
  Schedule.rel_after Later.refl (fun _ _ _ => Later.trans) (fun _ e _ => later_apply e) w.clock h

end TrngWorld

/-! ## When each read happens -/

section

variable {hw : TrngSchedule} {v v' : TrngWorld}

/-- How often `TRNG_CTL1` is read to find that the generator is enabled. -/
def enabledReads (ctl1 : BitVec 32) : ℕ := ringOscillators.findIdx (ctl1.getLsbD ·) + 1

theorem anySet_eq {bits : List ℕ} (h : anySet hw bits v = (true, v')) :
    v' = v.after hw (bits.findIdx (v.dev.ctl1.getLsbD ·) + 1) ∧ v'.dev.ctl1 = v.dev.ctl1 ∧
      v.dev.ctl1 ≠ 0 := by
  induction bits generalizing v with
  | nil => cases (Prod.mk.inj h).1
  | cons bit bits ih =>
    have hlater : Later v.dev (v.tick hw).dev := TrngWorld.later_after (Nat.zero_le 1) v
    rw [anySet, TrngWorld.isSetCtl1] at h
    dsimp only at h
    split_ifs at h with hbit
    · obtain rfl := (Prod.mk.inj h).2
      have hne : (v.tick hw).dev.ctl1 ≠ 0 := by
        intro h0
        rw [h0] at hbit
        simp at hbit
      have heq := hlater.ctl1.resolve_right hne
      rw [heq] at hbit hne
      refine ⟨?_, heq, hne⟩
      rw [List.findIdx_cons, hbit]
      rfl
    · obtain ⟨heq, hctl, hne⟩ := ih h
      have hsame := hlater.ctl1.resolve_right hne
      rw [hsame] at heq hctl hne hbit
      refine ⟨?_, hctl, hne⟩
      rw [heq, TrngWorld.tick_eq, TrngWorld.after_after, List.findIdx_cons,
        Bool.eq_false_of_not_eq_true hbit]
      dsimp only [cond_false]
      rw [Nat.add_comm 1]

/-- A check that finds the generator enabled leaves the enable bits as they were. -/
theorem trngIsEnabled_eq (h : trngIsEnabled hw v = (true, v')) :
    v' = v.after hw (enabledReads v.dev.ctl1) ∧ v'.dev.ctl1 = v.dev.ctl1 ∧ v.dev.ctl1 ≠ 0 :=
  anySet_eq h

/-- The `m`-th poll of `DATA_AVAILABLE` from now is the first that finds it set. -/
def FirstReady (hw : TrngSchedule) (v : TrngWorld) (m : ℕ) : Prop :=
  (v.after hw (3 * m + 1)).dev.intr.dataAvailable = true ∧
    ∀ k < m, (v.after hw (3 * k + 1)).dev.intr.dataAvailable = false

/-- The wait ends with a health error, or with the first poll that finds a word. -/
theorem trngWaitForComplete_eq {fuel : ℕ} (h : trngWaitForComplete hw fuel v = some v') :
    (v'.dev.intr.apDetect = true ∨ v'.dev.intr.rcDetect = true) ∨
      ∃ m, FirstReady hw v m ∧ v' = v.after hw (3 * m + 1) := by
  induction fuel generalizing v with
  | zero => cases h
  | succ fuel ih =>
    simp only [trngWaitForComplete, TrngWorld.isSetIntr, TrngWorld.tick_eq,
      TrngWorld.after_after] at h
    by_cases hdata : (v.after hw 1).dev.intr.dataAvailable = true
    · rw [if_pos hdata] at h
      obtain rfl := Option.some.inj h
      exact Or.inr ⟨0, ⟨hdata, nofun⟩, rfl⟩
    rw [if_neg hdata] at h
    by_cases hap : (v.after hw 2).dev.intr.apDetect = true
    · rw [if_pos hap] at h
      obtain rfl := Option.some.inj h
      exact Or.inl (Or.inl hap)
    rw [if_neg hap] at h
    by_cases hrc : (v.after hw 3).dev.intr.rcDetect = true
    · rw [if_pos hrc] at h
      obtain rfl := Option.some.inj h
      exact Or.inl (Or.inr hrc)
    rw [if_neg hrc] at h
    refine (ih h).imp_right ?_
    rintro ⟨m, ⟨hready, hfirst⟩, rfl⟩
    rw [TrngWorld.after_after] at hready
    have hthree (k : ℕ) : 3 * (k + 1) + 1 = 3 + (3 * k + 1) := by ring
    refine ⟨m + 1, ⟨?_, fun k hk => ?_⟩, ?_⟩
    · rw [hthree]
      exact hready
    · cases k with
      | zero => exact Bool.eq_false_of_not_eq_true hdata
      | succ k =>
        have hk := hfirst k (by omega)
        rw [TrngWorld.after_after] at hk
        rw [hthree]
        exact hk
    · rw [TrngWorld.after_after, hthree]

/-- The accesses before the `m`-th poll of a word. -/
def pollTime (v : TrngWorld) (m : ℕ) : ℕ := enabledReads v.dev.ctl1 + 3 * m + 1

/-- The status after two reads of the causes. -/
theorem trngMonGetHealthStatus_eq_zero_iff : (trngMonGetHealthStatus hw v).1 = 0 ↔
    (v.after hw 1).dev.intr.apDetect = false ∧ (v.after hw 2).dev.intr.rcDetect = false := by
  have hstatus (a b : Bool) : ((BitVec.ofBool a).zeroExtend 8 |||
      (BitVec.ofBool b).zeroExtend 8 <<< 1 = 0) ↔ a = false ∧ b = false := by
    cases a <;> cases b <;> decide
  exact hstatus _ _

theorem readResult_after (k : ℕ) :
    ((v.readResult hw).2.after hw k).dev = (v.after hw (k + 1)).dev := by
  rw [Nat.add_comm, ← TrngWorld.after_after]
  rfl

theorem trngMonGetHealthStatus_snd : (trngMonGetHealthStatus hw v).2 = v.after hw 2 := rfl

/-- A good status says that no error was flagged at the read before it, or when the wait ended. -/
theorem healthy_of_status (h : (trngMonGetHealthStatus hw (v.readResult hw).2).1 = 0) {k : ℕ}
    (hk : k ≤ 1) : (v.after hw k).dev.intr.apDetect = false ∧
      (v.after hw k).dev.intr.rcDetect = false := by
  obtain ⟨hap, hrc⟩ := trngMonGetHealthStatus_eq_zero_iff.mp h
  have hearly {a b : Bool} (hb : b = false) (hab : a = true → b = true) : a = false :=
    Bool.eq_false_of_not_eq_true fun ha => Bool.false_ne_true (hb.symm.trans (hab ha))
  constructor
  · exact hearly (b := (v.after hw 2).dev.intr.apDetect) hap
      (TrngWorld.later_after (by omega) v).apDetect
  · exact hearly (b := (v.after hw 3).dev.intr.rcDetect) hrc
      (TrngWorld.later_after (by omega) v).rcDetect

/-- A word that was read: when, and that no health error was flagged. -/
theorem trngReadData_eq {fuel : ℕ} {word : BitVec 32}
    (h : trngReadData hw fuel v = some (.ok word, v')) :
    v.dev.ctl1 ≠ 0 ∧ ∃ m, FirstReady hw (v.after hw (enabledReads v.dev.ctl1)) m ∧
      word = (v.after hw (pollTime v m + 1)).dev.result ∧
      v' = (v.after hw (pollTime v m + 3)).log [(v.after hw (pollTime v m + 1)).dev] ∧
      (v.after hw (pollTime v m + 1)).dev.intr.apDetect = false ∧
      (v.after hw (pollTime v m + 1)).dev.intr.rcDetect = false := by
  rw [trngReadData] at h
  rcases hen : trngIsEnabled hw v with ⟨enabled, v₁⟩
  rw [hen] at h
  cases enabled with
  | false => cases h
  | true =>
    obtain ⟨rfl, -, hne⟩ := trngIsEnabled_eq hen
    dsimp only at h
    rw [if_neg (show ¬ (!true) = true from Bool.false_ne_true)] at h
    rcases hwait : trngWaitForComplete hw fuel (v.after hw (enabledReads v.dev.ctl1)) with _ | v₂
    · rw [hwait] at h
      cases h
    · rw [hwait] at h
      dsimp only at h
      by_cases hstatus : (trngMonGetHealthStatus hw (v₂.readResult hw).2).1 = 0
      swap
      · rw [if_pos hstatus] at h
        cases h
      rw [if_neg (not_not.mpr hstatus)] at h
      obtain ⟨hword, rfl⟩ := Prod.mk.inj (Option.some.inj h)
      have hnow := healthy_of_status hstatus (Nat.zero_le 1)
      have hread := healthy_of_status hstatus le_rfl
      refine ⟨hne, ?_⟩
      rcases trngWaitForComplete_eq hwait with (hflag | hflag) | ⟨m, hready, rfl⟩
      · exact absurd (hnow.1.symm.trans hflag) Bool.false_ne_true
      · exact absurd (hnow.2.symm.trans hflag) Bool.false_ne_true
      · rw [TrngWorld.after_after, TrngWorld.after_after] at hread
        refine ⟨m, hready, ?_, ?_, hread⟩
        · rw [← Except.ok.inj hword, TrngWorld.readResult, TrngWorld.tick_eq,
            TrngWorld.after_after, TrngWorld.after_after]
          rfl
        · rw [trngMonGetHealthStatus_snd, TrngWorld.readResult, TrngWorld.tick_eq,
            TrngWorld.after_after, TrngWorld.after_after]
          exact congrArg (TrngWorld.log _) (TrngWorld.after_after _ 2 v)

/-! ## The loop -/

/-- The access that reads the word of chunk `i`, if the first word is seen at poll `m`. -/
def readTime (v : TrngWorld) (m i : ℕ) : ℕ :=
  pollTime v m + 1 + i * (enabledReads v.dev.ctl1 + 4)

/-- The generator at that access. -/
def readAt (hw : TrngSchedule) (v : TrngWorld) (m i : ℕ) : Trng :=
  (v.after hw (readTime v m i)).dev

/-- `to_le_bytes` of the word in `TRNG_RESULT`. -/
def Trng.bytes (d : Trng) : Bytes := toLeBytes 4 d.result.toNat

/-- Words that fill `k` bytes. -/
def chunks (k : ℕ) : ℕ := (k + 3) / 4

/-- After a word was read, the next one is read a fixed number of accesses later. -/
theorem readAt_next {m m' : ℕ} {l : List Trng}
    (hready : FirstReady hw (v.after hw (enabledReads v.dev.ctl1)) m)
    (hv' : v' = (v.after hw (pollTime v m + 3)).log l) (hne : v'.dev.ctl1 ≠ 0)
    (hready' : FirstReady hw (v'.after hw (enabledReads v'.dev.ctl1)) m') (i : ℕ) :
    readAt hw v' m' i = readAt hw v m (i + 1) := by
  have hctl : v'.dev.ctl1 = v.dev.ctl1 := by
    subst hv'
    exact (TrngWorld.later_after (Nat.zero_le _) v).ctl1.resolve_right hne
  have hm : m' = 0 := by
    by_contra hpos
    have hfalse := hready'.2 0 (Nat.pos_of_ne_zero hpos)
    have htrue := hready.1
    rw [hctl, hv', TrngWorld.after_log, TrngWorld.after_log, TrngWorld.after_after,
      TrngWorld.after_after] at hfalse
    rw [TrngWorld.after_after] at htrue
    refine Bool.false_ne_true (hfalse.symm.trans ?_)
    exact (TrngWorld.later_after (by rw [pollTime]; omega) v).dataAvailable htrue
  subst hm
  have htime : pollTime v m + 3 + readTime v' 0 i = readTime v m (i + 1) := by
    simp only [readTime, pollTime, hctl]
    ring
  rw [readAt, readAt, ← htime, hv', TrngWorld.after_log, TrngWorld.after_after]
  rfl

/-- From `v` to `v'`, `k` bytes were filled: what was read, and when. -/
structure Filled (hw : TrngSchedule) (v v' : TrngWorld) (m k : ℕ) (added : Bytes) : Prop where
  ready : 0 < k → v.dev.ctl1 ≠ 0 ∧ FirstReady hw (v.after hw (enabledReads v.dev.ctl1)) m
  reads : v'.reads = v.reads ++ (List.range (chunks k)).map (readAt hw v m)
  healthy : ∀ i < chunks k,
    (readAt hw v m i).intr.apDetect = false ∧ (readAt hw v m i).intr.rcDetect = false
  added_eq : added = ((List.range (chunks k)).flatMap fun i => (readAt hw v m i).bytes).take k

theorem chunks_pos {k : ℕ} (h : 0 < k) : chunks k = chunks (k - min k 4) + 1 := by
  unfold chunks
  omega

theorem length_bytes (d : Trng) : d.bytes.length = 4 := AttestService.length_toLeBytes 4 _

theorem Filled.nil (v : TrngWorld) : Filled hw v v 0 0 [] where
  ready h := absurd h (lt_irrefl 0)
  reads := (List.append_nil _).symm
  healthy _ h := absurd h (Nat.not_lt_zero _)
  added_eq := rfl

/-- A word was read, and the rest is filled with further words. -/
theorem Filled.cons {fuel m' k : ℕ} {word : BitVec 32} {v₁ : TrngWorld} {added : Bytes}
    (hfill : Filled hw v₁ v' m' (k - min k 4) added)
    (h : trngReadData hw fuel v = some (.ok word, v₁)) (hk : 0 < k) :
    ∃ m, Filled hw v v' m k ((toLeBytes 4 word.toNat).take (min k 4) ++ added) := by
  obtain ⟨hne, m, hready, hword, hv₁, hhealthy⟩ := trngReadData_eq h
  have hfirst : readAt hw v m 0 = (v.after hw (pollTime v m + 1)).dev := by
    rw [readAt, readTime, Nat.zero_mul, Nat.add_zero]
  have hnext : ∀ i < chunks (k - min k 4), readAt hw v₁ m' i = readAt hw v m (i + 1) := by
    intro i hi
    obtain ⟨hne₁, hready₁⟩ := hfill.ready (by unfold chunks at hi; omega)
    exact readAt_next hready hv₁ hne₁ hready₁ i
  rw [← hfirst] at hword hhealthy
  refine ⟨m, fun _ => ⟨hne, hready⟩, ?_, ?_, ?_⟩
  · have hmap : (List.range (chunks (k - min k 4))).map (readAt hw v₁ m') =
        (List.range (chunks (k - min k 4))).map (readAt hw v m ∘ Nat.succ) :=
      List.map_congr_left fun i hi => hnext i (List.mem_range.mp hi)
    rw [hfill.reads, hmap, hv₁, chunks_pos hk, List.range_succ_eq_map, List.map_cons, List.map_map,
      hfirst]
    exact List.append_assoc _ _ _
  · intro i hi
    cases i with
    | zero => exact hhealthy
    | succ i =>
      rw [chunks_pos hk] at hi
      rw [← hnext i (by omega)]
      exact hfill.healthy i (by omega)
  · have hrest : ((List.range (chunks (k - min k 4))).flatMap fun i => (readAt hw v₁ m' i).bytes) =
        (List.range (chunks (k - min k 4))).flatMap fun i => (readAt hw v m (i + 1)).bytes := by
      rw [List.flatMap_def, List.flatMap_def]
      refine congrArg List.flatten (List.map_congr_left fun i hi => ?_)
      rw [hnext i (List.mem_range.mp hi)]
    have hlen := length_bytes (readAt hw v m 0)
    rw [hfill.added_eq, hrest, chunks_pos hk, List.range_succ_eq_map, List.flatMap_cons,
      List.flatMap_map, List.take_append, hlen, hword, show k - min k 4 = k - 4 by omega]
    refine congrArg (· ++ _) ?_
    rw [List.take_eq_take_min (l := Trng.bytes _), hlen]
    rfl

theorem trngFillLoop_eq {fuel offset : ℕ} {dest₀ pre dest out : Bytes}
    (h : trngFillLoop hw fuel dest offset v = some (.ok (), out, v'))
    (hw₀ : Written dest₀ pre dest offset) (hle : offset ≤ dest₀.length) :
    ∃ m added, Filled hw v v' m (dest₀.length - offset) added ∧ out = pre ++ added := by
  have hlen : dest.length = dest₀.length := hw₀.length_eq (hw₀.cursor_eq ▸ hle)
  generalize hk : dest₀.length - offset = k
  induction k using Nat.strong_induction_on generalizing v dest pre offset with
  | _ k ih =>
    rw [trngFillLoop] at h
    by_cases hlt : offset < dest.length
    · rw [if_pos hlt] at h
      rcases hread : trngReadData hw fuel v with _ | ⟨res, v₁⟩
      · rw [hread] at h
        cases h
      rw [hread] at h
      cases res with
      | error e => cases h
      | ok word =>
        have htake : ((toLeBytes 4 word.toNat).take (min k 4)).length = min k 4 := by
          rw [List.length_take, AttestService.length_toLeBytes]
          exact min_eq_left (min_le_right k 4)
        have hw₁ := hw₀.copy ((toLeBytes 4 word.toNat).take (min k 4))
        dsimp only at h
        rw [AttestService.length_toLeBytes, hlen, hk] at h
        rw [htake] at hw₁
        obtain ⟨m', added, hfill, hout⟩ := ih (k - min k 4) (by omega) h hw₁ (by omega)
          (hw₁.length_eq (by rw [← hw₁.cursor_eq]; omega)) (by omega)
        obtain ⟨m, hm⟩ := hfill.cons hread (by omega)
        refine ⟨m, _, hm, ?_⟩
        rw [hout, List.append_assoc]
    · rw [if_neg hlt] at h
      obtain ⟨rfl, rfl⟩ := Prod.mk.inj (Prod.mk.inj (Option.some.inj h)).2
      have hk0 : k = 0 := by omega
      subst hk0
      refine ⟨0, [], Filled.nil v, ?_⟩
      rw [hw₀.out_eq, ← hw₀.cursor_eq, List.drop_eq_nil_of_le (by omega)]

/-! ## Fresh words -/

/-- What is asked of a fill that read the words `l`: its bytes are those of the words, no error was
flagged when they were read, and each was generated after the one before it was read. -/
structure FreshFill (l : List Trng) (dest out : Bytes) : Prop where
  out_eq : out = (l.flatMap Trng.bytes).take dest.length
  healthy : ∀ d ∈ l, d.intr.apDetect = false ∧ d.intr.rcDetect = false
  fresh : (l.map Trng.words).Pairwise (· < ·)

/-- The accesses of a fill before it reads the word of chunk `i`, if its `m`-th poll is the first
that finds a word. -/
def fillTime (w : TrngWorld) (m i : ℕ) : ℕ :=
  2 * enabledReads w.dev.ctl1 + 3 * m + 2 + i * (enabledReads w.dev.ctl1 + 4)

/-- The hardware places a new word between each two reads of a fill of `n` bytes. -/
def Timely (hw : TrngSchedule) (w : TrngWorld) (n : ℕ) : Prop :=
  ∀ m, FirstReady hw (w.after hw (2 * enabledReads w.dev.ctl1)) m → ∀ i, i + 1 < chunks n →
    ∃ k, fillTime w m i ≤ k ∧ k < fillTime w m (i + 1) ∧
      (hw (w.clock.time + k)).any TrngEvent.isWord = true

theorem FirstReady.unique {m m' : ℕ} (h : FirstReady hw v m) (h' : FirstReady hw v m') :
    m = m' := by
  rcases lt_trichotomy m m' with hlt | heq | hlt
  · exact absurd ((h'.2 m hlt).symm.trans h.1) Bool.false_ne_true
  · exact heq
  · exact absurd ((h.2 m' hlt).symm.trans h'.1) Bool.false_ne_true

/-- The numbers of the words increase if one is placed between each two reads. -/
theorem pairwise_words_iff (w : TrngWorld) (m n : ℕ) :
    (((List.range n).map fun i => (w.after hw (fillTime w m i)).dev).map Trng.words).Pairwise
      (· < ·) ↔ ∀ i, i + 1 < n → ∃ k, fillTime w m i ≤ k ∧ k < fillTime w m (i + 1) ∧
        (hw (w.clock.time + k)).any TrngEvent.isWord = true := by
  rw [← List.isChain_iff_pairwise, List.map_map, List.isChain_map, List.isChain_range]
  have hle (i : ℕ) : fillTime w m i ≤ fillTime w m (i + 1) := by
    rw [fillTime, fillTime]
    exact Nat.add_le_add_left (Nat.mul_le_mul_right _ (Nat.le_succ i)) _
  have hstep (i : ℕ) : (w.after hw (fillTime w m i)).dev.words <
      (w.after hw (fillTime w m (i + 1))).dev.words ↔ _ :=
    Schedule.count_lt_iff words_apply w.clock (hle i)
  constructor
  · exact fun h i hi => (hstep i).mp (h i (by omega))
  · exact fun h i hi => (hstep i).mpr (h i (by omega))

/-- **What a fill reads, and when.** -/
theorem fills {fuel : ℕ} {dest out : Bytes} {w w' : TrngWorld}
    (h : trngTryFillBytes hw fuel dest w = some (.ok (), out, w')) :
    ∃ m, (0 < dest.length → FirstReady hw (w.after hw (2 * enabledReads w.dev.ctl1)) m) ∧
      w'.reads = w.reads ++
        (List.range (chunks dest.length)).map (fun i => (w.after hw (fillTime w m i)).dev) ∧
      (∀ i < chunks dest.length, (w.after hw (fillTime w m i)).dev.intr.apDetect = false ∧
        (w.after hw (fillTime w m i)).dev.intr.rcDetect = false) ∧
      out = ((List.range (chunks dest.length)).flatMap
        fun i => (w.after hw (fillTime w m i)).dev.bytes).take dest.length := by
  rw [trngTryFillBytes] at h
  rcases hen : trngIsEnabled hw w with ⟨enabled, v⟩
  rw [hen] at h
  cases enabled with
  | false => cases h
  | true =>
    obtain ⟨hv, hctl, -⟩ := trngIsEnabled_eq hen
    dsimp only at h
    rw [if_neg (show ¬ (!true) = true from Bool.false_ne_true)] at h
    obtain ⟨m, added, hm, hout⟩ := trngFillLoop_eq h (Written.start dest) (Nat.zero_le _)
    have hread : readAt hw v m = fun i => (w.after hw (fillTime w m i)).dev := by
      funext i
      rw [readAt, hv, TrngWorld.after_after, ← hv, readTime, pollTime, hctl]
      congr 2
      rw [fillTime]
      ring
    obtain ⟨hready, hreads, hhealthy, hadded⟩ := hm
    rw [hread] at hreads hhealthy hadded
    refine ⟨m, fun hpos => ?_, ?_, hhealthy, ?_⟩
    · have hfirst := (hready hpos).2
      rw [hctl, hv, TrngWorld.after_after, ← two_mul] at hfirst
      exact hfirst
    · rw [hreads, hv]
      rfl
    · rw [hout, hadded]
      rfl

/-- **The chunks of a fill are fresh exactly if the hardware places a word between each two
reads.** -/
theorem freshFill_iff_timely {fuel : ℕ} {dest out : Bytes} {w w' : TrngWorld}
    (h : trngTryFillBytes hw fuel dest w = some (.ok (), out, w')) :
    ∃ l, w'.reads = w.reads ++ l ∧ l.length = chunks dest.length ∧
      (FreshFill l dest out ↔ Timely hw w dest.length) := by
  obtain ⟨m, hready, hreads, hhealthy, hout⟩ := fills h
  refine ⟨_, hreads, by rw [List.length_map, List.length_range], ?_⟩
  constructor
  · intro hfresh m' hm' i hi
    obtain rfl := hm'.unique (hready (by unfold chunks at hi; omega))
    exact (pairwise_words_iff w m' _).mp hfresh.fresh i hi
  · intro htimely
    refine ⟨?_, ?_, (pairwise_words_iff w m _).mpr fun i hi => ?_⟩
    · rw [hout, List.flatMap_map]
    · intro d hd
      obtain ⟨i, hi, rfl⟩ := List.mem_map.mp hd
      exact hhealthy i (List.mem_range.mp hi)
    · exact htimely m (hready (by unfold chunks at hi; omega)) i hi

end

end RuSpe
