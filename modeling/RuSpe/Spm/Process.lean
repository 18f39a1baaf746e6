import RuSpe.Mpu.Region
import RuSpe.Spm.ConnectionArray

set_option autoImplicit false

/-!
# Service processes

A service of the IPC model is a separate binary with its own ROM window, RAM window and stack.
The message of a call is written to the top of that stack, below it the exception frame that
starts the service.

* `ServiceVectors`, `ServiceProcess`, `CustomMpuRegion`, `IpcPlatform`;
* `stageMsgMailbox`, `startFrameBase`: where the message and the frame are written.
-/

namespace RuSpe

/-- `ServiceVectors`. -/
structure ServiceVectors where
  version : BitVec 32
  initEntry : Usize
  callEntry : Usize
  romStart : Usize
  romLimit : Usize
  ramStart : Usize
  ramLimit : Usize
  stackLimit : Usize
  stackTop : Usize
  deriving DecidableEq, Repr

/-- `MemoryRegion`. -/
structure MemoryRegion where
  base : Usize
  size : Usize
  deriving DecidableEq, Repr

/-- `u32::saturating_sub`. -/
def saturatingSub (a b : Usize) : Usize := if a < b then 0 else a - b

namespace ServiceVectors

/-- `rom_region`. -/
def romRegion (v : ServiceVectors) : MemoryRegion := ⟨v.romStart, saturatingSub v.romLimit v.romStart⟩

/-- `ram_region`. -/
def ramRegion (v : ServiceVectors) : MemoryRegion := ⟨v.ramStart, saturatingSub v.ramLimit v.ramStart⟩

end ServiceVectors

/-- `ServiceProcess`. -/
structure ServiceProcess where
  handle : ServiceHandle
  vectors : ServiceVectors
  deriving DecidableEq, Repr

/-- `CustomMpuRegion`. -/
structure CustomMpuRegion where
  base : Usize
  size : Usize
  permissions : Permissions
  deriving DecidableEq, Repr

/-- `IpcPlatform`, as far as the MPU configuration uses it. -/
structure IpcPlatform where
  customMpuRegions : ServiceHandle → List CustomMpuRegion

/-! ## Staging a call on the stack of a service -/

/-- `size_of::<PsaMsg>()`: handle, type, two attribute bytes with padding, eight sizes. -/
def msgSize : Usize := 44

/-- `EXCEPTION_FRAME_WORDS * size_of::<usize>()`. -/
def frameSize : Usize := 32

/-- `usize::checked_sub`. -/
def checkedSub (a b : Usize) : Option Usize := if a < b then none else some (a - b)

/-- `align_down` for a power of two. -/
def alignDown (addr align : Usize) : Usize := addr &&& ~~~(align - 1)

/-- `stage_msg_mailbox`: the address the message is written to. -/
def stageMsgMailbox (vectors : ServiceVectors) : Except StatusCode Usize :=
  match checkedSub vectors.stackTop msgSize with
  | none => .error .insufficientMemory
  | some subTop =>
    let mailboxAddr := alignDown subTop 8
    match checkedSub mailboxAddr frameSize with
    | none => .error .insufficientMemory
    | some frameBase =>
      if frameBase < vectors.stackLimit then .error .insufficientMemory
      else if mailboxAddr < vectors.ramStart ∨ mailboxAddr + msgSize > vectors.ramLimit then
        .error .programmerError
      else .ok mailboxAddr

/-- The address `svc_call_unpriv` builds the exception frame at. -/
def startFrameBase (stackLimit stackTop : Usize) : Except StatusCode Usize :=
  match checkedSub stackTop frameSize with
  | none => .error .insufficientMemory
  | some frameBase => if frameBase < stackLimit then .error .insufficientMemory else .ok frameBase

end RuSpe
