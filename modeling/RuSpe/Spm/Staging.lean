import RuSpe.Spm.MpuFollows

set_option autoImplicit false

/-!
# Where a call is staged

`stage_msg_mailbox` puts the message below the top of the stack of a service, and `svc_call_unpriv`
the exception frame below the message. The first looks at the RAM window for the message only.

* `stageMsgMailbox_eq_ok_iff`, `startFrameBase_eq_ok_iff`: the two addresses, as numbers;
* `StagedInside`: message and frame are inside the stack and the RAM window;
* `FrameLeavesRam`: the window begins between the frame and the message;
* **`stagedInside_iff`**: the first holds exactly when the second does not.
-/

namespace RuSpe

/-! ## The addresses -/

theorem checkedSub_eq_some_iff {a b d : Usize} :
    checkedSub a b = some d ↔ d.toNat + b.toNat = a.toNat := by
  rw [checkedSub]
  by_cases h : a < b
  · rw [if_pos h]
    refine iff_of_false nofun fun hd => ?_
    bv_omega
  · rw [if_neg h, Option.some_inj]
    constructor
    · rintro rfl
      bv_omega
    · intro hd
      bv_omega

theorem startFrameBase_eq_ok_iff {stackLimit stackTop base : Usize} :
    startFrameBase stackLimit stackTop = .ok base ↔
      stackLimit ≤ base ∧ base.toNat + 32 = stackTop.toNat := by
  have hs : frameSize.toNat = 32 := rfl
  rw [startFrameBase]
  cases hb : checkedSub stackTop frameSize with
  | none =>
    refine iff_of_false nofun fun hd => ?_
    have hsub : base.toNat + frameSize.toNat = stackTop.toNat := by rw [hs, hd.2]
    rw [← checkedSub_eq_some_iff, hb] at hsub
    cases hsub
  | some b =>
    have hsub := hb
    rw [checkedSub_eq_some_iff] at hsub
    dsimp only
    constructor
    · intro h
      split_ifs at h with hlt
      obtain rfl := Except.ok.inj h
      exact ⟨BitVec.not_lt.mp hlt, hsub⟩
    · rintro ⟨hle, hbase⟩
      obtain rfl : b = base := by
        apply BitVec.eq_of_toNat_eq
        omega
      rw [if_neg (BitVec.not_lt.mpr hle)]

theorem toNat_alignDown_eight (a : Usize) : (alignDown a 8).toNat = a.toNat / 8 * 8 :=
  AlignDown.toNat_and_mask (k := 3) (by decide)

variable {v : ServiceVectors}

/-- **Where the message is written, and when.** -/
theorem stageMsgMailbox_eq_ok_iff {addr : Usize} :
    stageMsgMailbox v = .ok addr ↔ 44 ≤ v.stackTop.toNat ∧
      addr.toNat = (v.stackTop.toNat - 44) / 8 * 8 ∧ v.stackLimit.toNat + 32 ≤ addr.toNat ∧
        v.ramStart.toNat ≤ addr.toNat ∧ addr.toNat + 44 ≤ v.ramLimit.toNat := by
  have hmsg : msgSize.toNat = 44 := rfl
  have hframe : frameSize.toNat = 32 := rfl
  rw [stageMsgMailbox]
  cases hs : checkedSub v.stackTop msgSize with
  | none =>
    refine iff_of_false nofun fun h => ?_
    have hsub : (v.stackTop - msgSize).toNat + msgSize.toNat = v.stackTop.toNat := by bv_omega
    rw [← checkedSub_eq_some_iff, hs] at hsub
    cases hsub
  | some subTop =>
    have hsub := hs
    rw [checkedSub_eq_some_iff] at hsub
    have hal := toNat_alignDown_eight subTop
    dsimp only
    cases hb : checkedSub (alignDown subTop 8) frameSize with
    | none =>
      refine iff_of_false nofun fun h => ?_
      have hsub' : (alignDown subTop 8 - frameSize).toNat + frameSize.toNat =
          (alignDown subTop 8).toNat := by bv_omega
      rw [← checkedSub_eq_some_iff, hb] at hsub'
      cases hsub'
    | some frameBase =>
      have hbase := hb
      rw [checkedSub_eq_some_iff] at hbase
      have hadd : (alignDown subTop 8 + msgSize).toNat = (alignDown subTop 8).toNat + 44 := by
        bv_omega
      dsimp only
      constructor
      · intro h
        split_ifs at h with hlt hram
        obtain rfl := Except.ok.inj h
        rw [not_or, gt_iff_lt, BitVec.not_lt, BitVec.not_lt, BitVec.le_def, BitVec.le_def] at hram
        rw [BitVec.not_lt, BitVec.le_def] at hlt
        exact ⟨by omega, by omega, by omega, hram.1, by omega⟩
      · rintro ⟨-, haddr, hlimit, hstart, hend⟩
        obtain rfl : alignDown subTop 8 = addr := by
          apply BitVec.eq_of_toNat_eq
          omega
        have hlt : ¬ frameBase < v.stackLimit := by
          rw [BitVec.not_lt, BitVec.le_def]
          omega
        have hram : ¬ (alignDown subTop 8 < v.ramStart ∨
            alignDown subTop 8 + msgSize > v.ramLimit) := by
          rw [not_or, gt_iff_lt, BitVec.not_lt, BitVec.not_lt, BitVec.le_def, BitVec.le_def]
          omega
        rw [if_neg hlt, if_neg hram]

theorem svcCallUnpriv_hits {fnPtr arg stackLimit stackTop a : Usize} {w : Write}
    (hw : svcCallUnpriv fnPtr arg stackLimit stackTop = some w) (h : w.Hits a) :
    InWindow stackLimit stackTop a := by
  rw [svcCallUnpriv] at hw
  cases hb : startFrameBase stackLimit stackTop with
  | error e =>
    rw [hb] at hw
    cases hw
  | ok base =>
    rw [hb] at hw
    obtain rfl := Option.some.inj hw
    rw [startFrameBase_eq_ok_iff] at hb
    obtain ⟨h1, h2⟩ := hb
    have hs : frameSize.toNat = 32 := rfl
    simp only [Write.Hits, Write.addr, Write.size, hs] at h
    rw [InWindow]
    constructor <;> bv_omega

/-! ## The area that is written -/

/-- A call with the message at `addr` goes on to the code of the service, and what was written for
it is one area below the top of the stack, inside the stack and the RAM window. -/
structure StagedInside (v : ServiceVectors) (msg : PsaMsg) (addr : Usize) : Prop where
  aligned : addr.toNat % 8 = 0
  below_top : addr.toNat + msgSize.toNat ≤ v.stackTop.toNat
  frame_below : (addr - frameSize).toNat + frameSize.toNat = addr.toNat
  starts : ∃ words, startCall v msg = ([.message addr msg, .frame (addr - frameSize) words], .call)
  inside : ∀ w ∈ (startCall v msg).1, ∀ a, w.Hits a →
    InWindow v.ramStart v.ramLimit a ∧ v.stackLimit ≤ a

/-- The message finds a place, in the first 32 bytes of the RAM window. -/
def FrameLeavesRam (v : ServiceVectors) : Prop :=
  let addr := (v.stackTop.toNat - 44) / 8 * 8
  44 ≤ v.stackTop.toNat ∧ v.stackLimit.toNat + 32 ≤ addr ∧ v.ramStart.toNat ≤ addr ∧
    addr < v.ramStart.toNat + 32 ∧ addr + 44 ≤ v.ramLimit.toNat

instance (v : ServiceVectors) : Decidable (FrameLeavesRam v) :=
  inferInstanceAs (Decidable (_ ∧ _ ∧ _ ∧ _ ∧ _))

/-- The two writes of a call whose message is staged. -/
theorem startCall_of_staged {msg : PsaMsg} {addr : Usize} (h : stageMsgMailbox v = .ok addr) :
    ∃ words, startCall v msg =
      ([.message addr msg, .frame (addr - frameSize) words], .call) := by
  obtain ⟨-, haddr, hlimit, -, -⟩ := stageMsgMailbox_eq_ok_iff.mp h
  have hframe : frameSize.toNat = 32 := rfl
  have hbase : startFrameBase v.stackLimit addr = .ok (addr - frameSize) := by
    rw [startFrameBase_eq_ok_iff]
    constructor <;> bv_omega
  refine ⟨#v[addr, 0, 0, 0, 0, 0xFFFFFFFF, v.callEntry, 0x01000000], ?_⟩
  rw [startCall, h]
  dsimp only
  rw [svcCallUnpriv, hbase]

/-- A message in the first 32 bytes of the window has its frame in front of it. -/
theorem FrameLeavesRam.not_stagedInside (h : FrameLeavesRam v) (msg : PsaMsg) :
    ∃ addr, stageMsgMailbox v = .ok addr ∧ ¬ StagedInside v msg addr := by
  have hframe : frameSize.toNat = 32 := rfl
  obtain ⟨htop, hlimit, hstart, hnear, hend⟩ := h
  have hlt := v.stackTop.isLt
  have haddr : (BitVec.ofNat 32 ((v.stackTop.toNat - 44) / 8 * 8)).toNat =
      (v.stackTop.toNat - 44) / 8 * 8 := by
    rw [BitVec.toNat_ofNat]
    omega
  refine ⟨BitVec.ofNat 32 ((v.stackTop.toNat - 44) / 8 * 8),
    stageMsgMailbox_eq_ok_iff.mpr ⟨htop, haddr, by omega, by omega, by omega⟩, ?_⟩
  rintro ⟨-, -, hbelow, ⟨words, hw⟩, hinside⟩
  -- the frame begins before the window
  have hhit : (Write.frame (BitVec.ofNat 32 ((v.stackTop.toNat - 44) / 8 * 8) - frameSize)
      words).Hits (BitVec.ofNat 32 ((v.stackTop.toNat - 44) / 8 * 8) - frameSize) := by
    simp only [Write.Hits, Write.addr, Write.size, hframe]
    omega
  have hin := (hinside _ (by rw [hw]; exact .tail _ (.head _)) _ hhit).1.1
  rw [BitVec.le_def] at hin
  omega

/-- Any other message that is staged has room for its frame. -/
theorem stagedInside_of_not_frameLeavesRam (h : ¬ FrameLeavesRam v) {msg : PsaMsg} {addr : Usize}
    (hs : stageMsgMailbox v = .ok addr) : StagedInside v msg addr := by
  have hframe : frameSize.toNat = 32 := rfl
  have hmsg : msgSize.toNat = 44 := rfl
  obtain ⟨htop, haddr, hlimit, hstart, hend⟩ := stageMsgMailbox_eq_ok_iff.mp hs
  have hfar : v.ramStart.toNat + 32 ≤ addr.toNat := by
    by_contra hnear
    exact h ⟨htop, by omega, by omega, by omega, by omega⟩
  have hbelow : (addr - frameSize).toNat + frameSize.toNat = addr.toNat := by bv_omega
  obtain ⟨words, hw⟩ := @startCall_of_staged v msg addr hs
  refine ⟨by omega, by omega, hbelow, ⟨words, hw⟩, ?_⟩
  intro w hmem a hhit
  rw [hw] at hmem
  rw [InWindow, BitVec.le_def, BitVec.lt_def, BitVec.le_def]
  rcases List.mem_cons.mp hmem with rfl | hmem
  · simp only [Write.Hits, Write.addr, Write.size, hmsg] at hhit
    omega
  · rw [List.mem_singleton.mp hmem] at hhit
    simp only [Write.Hits, Write.addr, Write.size, hframe] at hhit
    omega

/-- **What is written for a call stays inside the stack and the RAM window of the service, unless
the message lands in the first 32 bytes of the window.** -/
theorem stagedInside_iff (v : ServiceVectors) (msg : PsaMsg) :
    (∀ addr, stageMsgMailbox v = .ok addr → StagedInside v msg addr) ↔ ¬ FrameLeavesRam v := by
  constructor
  · intro h hleaves
    obtain ⟨addr, hs, hnot⟩ := hleaves.not_stagedInside msg
    exact hnot (h addr hs)
  · intro h addr hs
    exact stagedInside_of_not_frameLeavesRam h hs

/-- A service whose stack reaches below its RAM window. -/
def lowStack : ServiceVectors :=
  ⟨1, 0x10001001, 0x10001101, 0x10001000, 0x10002000, 0x200000C0, 0x20000100, 0x20000080, 0x20000100⟩

def lowMsg : PsaMsg := .new .crypto 0 .secureUnprivileged

/-- Its frame is written to the 16 bytes in front of the window. -/
theorem not_stagedInside_lowStack :
    stageMsgMailbox lowStack = .ok 0x200000D0 ∧
      (startCall lowStack lowMsg).1 = [.message 0x200000D0 lowMsg, .frame 0x200000B0
        #v[0x200000D0, 0, 0, 0, 0, 0xFFFFFFFF, 0x10001101, 0x01000000]] ∧
      ¬ StagedInside lowStack lowMsg 0x200000D0 := by
  have hw : (startCall lowStack lowMsg).1 = [.message 0x200000D0 lowMsg, .frame 0x200000B0
      #v[0x200000D0, 0, 0, 0, 0, 0xFFFFFFFF, 0x10001101, 0x01000000]] := rfl
  refine ⟨by decide, hw, fun h => ?_⟩
  have hin := h.inside (.frame 0x200000B0 _) (by rw [hw]; exact .tail _ (.head _)) 0x200000B0
    (by decide)
  exact absurd hin.1 (by decide)

end RuSpe
