import RuSpe.Attest.Service
import RuSpe.Lib.Schedule

set_option autoImplicit false

/-!
# The random number generator of the PSC3

The generator runs by itself: it places words in `TRNG_RESULT`, sets interrupt causes, and stops
when a health test fails. The driver polls it, one register access at a time. What the hardware does
before each access is a schedule, so the model has every timing of the two.

* `Trng`, `TrngEvent`, `TrngWorld`: the registers, the events, and what was read so far;
* `trngReadData`, `trngTryFillBytes`: the read path of the driver;
* `trngInit`, `trngEnable`, `bootSeed`: how the seed of a boot is drawn.
-/

namespace RuSpe

open Cbor (Bytes)

/-- `CryptoliteErr`. -/
inductive CryptoliteErr
  | badParams
  | hwBusy
  | busError
  | notSupported
  | sizeNotX16
  | alignmentError
  | trngNotEnabled
  | trngUnhealthy
  | bufferNotAligned
  | hwError
  deriving DecidableEq, Repr

/-- The interrupt causes of `INTR_TRNG`. -/
structure IntrTrng where
  initialized : Bool
  dataAvailable : Bool
  apDetect : Bool
  rcDetect : Bool
  deriving DecidableEq, Repr

/-- The registers that the driver reads, `TRNG_CTL0` and `TRNG_MON_CTL` as far as they matter, and
how many words were generated. The word in `result` is the last of them. -/
structure Trng where
  ctl1 : BitVec 32
  stopOnApDetect : Bool
  stopOnRcDetect : Bool
  intr : IntrTrng
  result : BitVec 32
  words : ℕ
  deriving DecidableEq, Repr

/-- What the generator does by itself. -/
inductive TrngEvent
  | initialized
  | word (data : BitVec 32)
  | apDetect
  | rcDetect
  deriving DecidableEq, Repr

/-- Causes are only set. A failed health test clears the enable bits, if it is told to. -/
def TrngEvent.apply : TrngEvent → Trng → Trng
  | .initialized, d => { d with intr := { d.intr with initialized := true } }
  | .word data, d =>
    { d with intr := { d.intr with dataAvailable := true }, result := data, words := d.words + 1 }
  | .apDetect, d =>
    { d with
      intr := { d.intr with apDetect := true }
      ctl1 := if d.stopOnApDetect then 0 else d.ctl1 }
  | .rcDetect, d =>
    { d with
      intr := { d.intr with rcDetect := true }
      ctl1 := if d.stopOnRcDetect then 0 else d.ctl1 }

/-- What the hardware does before each access. -/
abbrev TrngSchedule := ℕ → List TrngEvent

/-- The generator, and the states it was in when `TRNG_RESULT` was read, oldest first. -/
structure TrngWorld where
  clock : Schedule.Clocked Trng
  reads : List Trng

/-- `TrngBitstreamSelect`. -/
inductive TrngBitstreamSelect
  | das
  | red
  | tr
  | undefined
  deriving DecidableEq, Repr

/-- `TrngConfig`, as far as the control flow and the stop bits depend on it. -/
structure TrngConfig where
  enableApTest : Bool
  enableRcTest : Bool
  stopOnApDetect : Bool
  stopOnRcDetect : Bool
  monBitstreamSelect : TrngBitstreamSelect

/-- `TrngConfig::default`. -/
def TrngConfig.default : TrngConfig := ⟨true, true, true, true, .tr⟩

/-- `BootSeedState`. -/
structure BootSeedState where
  seed : Vector UInt8 32
  init : Bool

/-- `STATE` at a boot. -/
def BootSeedState.new : BootSeedState := ⟨.replicate 32 0, false⟩

/-- The array under a slice of 32 bytes. -/
def seedOf (b : Bytes) : Vector UInt8 32 := .ofFn fun i => b.getD i 0

/-- A piece that is copied in leaves less to fill. -/
theorem sub_lt_of_copy {dest bytes : Bytes} {offset : ℕ} (h : offset < dest.length)
    (hlen : bytes.length = 4) :
    (copyAt dest offset (bytes.take (min (dest.length - offset) bytes.length))).length -
      (offset + min (dest.length - offset) bytes.length) < dest.length - offset := by
  have htake : (bytes.take (min (dest.length - offset) bytes.length)).length =
      min (dest.length - offset) bytes.length := by
    rw [List.length_take]
    exact min_eq_left (min_le_right _ _)
  rw [length_copyAt]
  · omega
  · rw [htake]
    omega

section

variable (hw : TrngSchedule)

/-! ## Accesses -/

namespace TrngWorld

/-- The hardware runs on until the next access. -/
def tick (w : TrngWorld) : TrngWorld :=
  { w with clock := Schedule.tick TrngEvent.apply hw w.clock }

def dev (w : TrngWorld) : Trng := w.clock.dev

/-- Accesses to registers that are not modelled. -/
def accesses (n : ℕ) (w : TrngWorld) : TrngWorld := (tick hw)^[n] w

/-- `trng_ctl1.is_set`. -/
def isSetCtl1 (bit : ℕ) (w : TrngWorld) : Bool × TrngWorld :=
  let w := w.tick hw
  (w.dev.ctl1.getLsbD bit, w)

/-- `intr_trng.is_set`. -/
def isSetIntr (field : IntrTrng → Bool) (w : TrngWorld) : Bool × TrngWorld :=
  let w := w.tick hw
  (field w.dev.intr, w)

/-- `trng_result.read`. -/
def readResult (w : TrngWorld) : BitVec 32 × TrngWorld :=
  let w := w.tick hw
  (w.dev.result, { w with reads := w.reads ++ [w.dev] })

/-- `intr_trng.write`: the causes that are written with a one are cleared. -/
def writeIntr (ones : IntrTrng) (w : TrngWorld) : TrngWorld :=
  let w := w.tick hw
  let i := w.dev.intr
  { w with clock.dev.intr :=
      ⟨i.initialized && !ones.initialized, i.dataAvailable && !ones.dataAvailable,
        i.apDetect && !ones.apDetect, i.rcDetect && !ones.rcDetect⟩ }

/-- `trng_ctl1.write`. -/
def writeCtl1 (val : BitVec 32) (w : TrngWorld) : TrngWorld :=
  let w := w.tick hw
  { w with clock.dev.ctl1 := val }

/-- `trng_ctl0.write`, of which the stop bits matter. -/
def writeCtl0 (stopOnApDetect stopOnRcDetect : Bool) (w : TrngWorld) : TrngWorld :=
  let w := w.tick hw
  { w with clock.dev.stopOnApDetect := stopOnApDetect
           clock.dev.stopOnRcDetect := stopOnRcDetect }

end TrngWorld

/-! ## The read path -/

/-- The bits `RO11_EN`, `RO15_EN`, `GARO15_EN`, `GARO31_EN`, `FIRO15_EN` and `FIRO31_EN`. -/
def ringOscillators : List ℕ := [0, 1, 2, 3, 4, 5]

/-- `is_set(a) || is_set(b) || ..`: reads go on until a bit is set. -/
def anySet : List ℕ → TrngWorld → Bool × TrngWorld
  | [], w => (false, w)
  | bit :: bits, w =>
    let (set, w) := w.isSetCtl1 hw bit
    if set then (true, w) else anySet bits w

/-- `trng_is_enabled`. -/
def trngIsEnabled (w : TrngWorld) : Bool × TrngWorld := anySet hw ringOscillators w

/-- `trng_wait_for_complete`, or `none` while it still spins. -/
def trngWaitForComplete : ℕ → TrngWorld → Option TrngWorld
  | 0, _ => none
  | fuel + 1, w =>
    let (dataAvailable, w) := w.isSetIntr hw (·.dataAvailable)
    if dataAvailable then some w
    else
      let (apDetect, w) := w.isSetIntr hw (·.apDetect)
      if apDetect then some w
      else
        let (rcDetect, w) := w.isSetIntr hw (·.rcDetect)
        if rcDetect then some w else trngWaitForComplete fuel w

/-- `trng_mon_get_health_status`. -/
def trngMonGetHealthStatus (w : TrngWorld) : BitVec 8 × TrngWorld :=
  let (apDetect, w) := w.isSetIntr hw (·.apDetect)
  let (rcDetect, w) := w.isSetIntr hw (·.rcDetect)
  ((BitVec.ofBool apDetect).zeroExtend 8 ||| (BitVec.ofBool rcDetect).zeroExtend 8 <<< 1, w)

/-- `trng_read_data`. -/
def trngReadData (fuel : ℕ) (w : TrngWorld) :
    Option (Except CryptoliteErr (BitVec 32) × TrngWorld) :=
  let (enabled, w) := trngIsEnabled hw w
  if !enabled then some (.error .trngNotEnabled, w)
  else
    match trngWaitForComplete hw fuel w with
    | none => none
    | some w =>
      let (randomData, w) := w.readResult hw
      let (status, w) := trngMonGetHealthStatus hw w
      if status ≠ 0 then some (.error .trngUnhealthy, w) else some (.ok randomData, w)

/-- The loop of `trng_try_fill_bytes`. -/
def trngFillLoop (fuel : ℕ) (dest : Bytes) (offset : ℕ) (w : TrngWorld) :
    Option (Except CryptoliteErr Unit × Bytes × TrngWorld) :=
  if offset < dest.length then
    match trngReadData hw fuel w with
    | none => none
    | some (.error e, w) => some (.error e, dest, w)
    | some (.ok word, w) =>
      let bytes := toLeBytes 4 word.toNat
      let remaining := dest.length - offset
      let take := min remaining bytes.length
      trngFillLoop fuel (copyAt dest offset (bytes.take take)) (offset + take) w
  else some (.ok (), dest, w)
termination_by dest.length - offset
decreasing_by
  exact sub_lt_of_copy ‹_› (AttestService.length_toLeBytes 4 word.toNat)

/-- `trng_try_fill_bytes`. -/
def trngTryFillBytes (fuel : ℕ) (dest : Bytes) (w : TrngWorld) :
    Option (Except CryptoliteErr Unit × Bytes × TrngWorld) :=
  let (enabled, w) := trngIsEnabled hw w
  if !enabled then some (.error .trngNotEnabled, dest, w) else trngFillLoop hw fuel dest 0 w

/-! ## The seed of a boot -/

/-- `trng_mon_clear_health_status`. -/
def trngMonClearHealthStatus (w : TrngWorld) : TrngWorld :=
  w.writeIntr hw ⟨false, false, true, true⟩

/-- `trng_init`. The registers that nothing here reads are only accessed. -/
def trngInit (config : TrngConfig) (w : TrngWorld) : Except CryptoliteErr Unit × TrngWorld :=
  if config.monBitstreamSelect = .undefined then (.error .badParams, w)
  else
    let w := w.writeIntr hw ⟨true, true, false, false⟩
    let w := trngMonClearHealthStatus hw w
    let w := w.accesses hw 2
    let w := w.writeCtl0 hw config.stopOnApDetect config.stopOnRcDetect
    let w := w.accesses hw 2
    let w := if config.enableApTest then w.accesses hw 2 else w
    let w := if config.enableRcTest then w.accesses hw 2 else w
    (.ok (), w.accesses hw 2)

/-- `trng_wait_for_init`, or `none` while it still spins. -/
def trngWaitForInit : ℕ → TrngWorld → Option TrngWorld
  | 0, _ => none
  | fuel + 1, w =>
    let (initialized, w) := w.isSetIntr hw (·.initialized)
    if initialized then some w else trngWaitForInit fuel w

/-- `trng_enable`. -/
def trngEnable (fuel : ℕ) (w : TrngWorld) : Option (Except CryptoliteErr Unit × TrngWorld) :=
  let (enabled, w) := trngIsEnabled hw w
  if enabled then some (.ok (), w)
  else
    let w := w.writeIntr hw ⟨true, true, false, false⟩
    let w := w.writeCtl1 hw 0x3F
    (trngWaitForInit hw fuel w).map fun w => (.ok (), w)

/-- `boot_seed`, with the buffer that it fills if it returns `Ok`. -/
def bootSeed (fuel : ℕ) (locked : Bool) (state : BootSeedState) (w : TrngWorld) :
    Option (Except StatusCode (Vector UInt8 32) × BootSeedState × TrngWorld) :=
  if locked then some (.error .genericError, state, w)
  else if state.init then some (.ok state.seed, state, w)
  else
    match trngInit hw .default w with
    | (.error _, w) => some (.error .genericError, state, w)
    | (.ok _, w) =>
      match trngEnable hw fuel w with
      | none => none
      | some (.error _, w) => some (.error .genericError, state, w)
      | some (.ok _, w) =>
        match trngTryFillBytes hw fuel state.seed.toList w with
        | none => none
        | some (.error _, seed, w) =>
          some (.error .genericError, { state with seed := seedOf seed }, w)
        | some (.ok _, seed, w) => some (.ok (seedOf seed), ⟨seedOf seed, true⟩, w)

end

end RuSpe
