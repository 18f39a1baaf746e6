import RuSpe.Psa.Types
import RuSpe.Lib.LentStack
import RuSpe.Spm.Connection
import RuSpe.Spm.Accept
import RuSpe.Spm.Accepted
import RuSpe.Spm.Permission
import RuSpe.Spm.ConnectionArray
import RuSpe.Lib.Armv8Mpu
import RuSpe.Mpu.Region
import RuSpe.Spm.SpmCall
import RuSpe.Spm.Svc
import RuSpe.Spm.SpmFn
import RuSpe.Spm.Process
import RuSpe.Spm.SpmIpc
import RuSpe.Spm.Service
import RuSpe.Spm.Lawful
import RuSpe.Spm.Discipline
import RuSpe.Psa.Client
import RuSpe.Spm.Delivery
import RuSpe.Spm.IpcSvc
import RuSpe.Spm.VecUse
import RuSpe.Spm.IpcRun
import RuSpe.Spm.MpuFollows
import RuSpe.Spm.StackReuse
import RuSpe.Lib.Cbor
import RuSpe.Cose.Cursor
import RuSpe.Cose.Sign1
import RuSpe.Attest.Token
import RuSpe.Attest.Service
import RuSpe.Lib.WordMemory
import RuSpe.Lib.Armv8m
import RuSpe.Spm.SvcHandler
import RuSpe.Spm.SvcBranches
import RuSpe.Spm.ServiceRun
import RuSpe.Spm.SvcRun
import RuSpe.Spm.PsaCallReturn
import RuSpe.Spm.SvcBrackets
import RuSpe.Spm.PsaCallRun
import RuSpe.Spm.CallFromSlices
import RuSpe.Spm.Observed
import RuSpe.Spm.Grants
import RuSpe.Spm.Aliasing
import RuSpe.Spm.InitOnce
import RuSpe.Spm.SvcApi
import RuSpe.Spm.Version
import RuSpe.Spm.Access
import RuSpe.Spm.Interchange
import RuSpe.Lib.GuardedSection
import RuSpe.Lib.LockSteps
import RuSpe.Spm.ServiceSim
import RuSpe.Spm.LockTrace
import RuSpe.Spm.Veneers
import RuSpe.Lib.FirstFit
import RuSpe.Mpu.Placement
import RuSpe.Spm.Reach
import RuSpe.Lib.CborValue
import RuSpe.Cose.Signed
import RuSpe.Mpu.Overlap
import RuSpe.Spm.FailedAccess
import RuSpe.Spm.Staging
import RuSpe.Lib.Tlv
import RuSpe.Attest.BootRecord
import RuSpe.Attest.Payload
import RuSpe.Attest.TokenSize
import RuSpe.Lib.CborHead
import RuSpe.Cose.PayloadBstr
import RuSpe.Lib.BlockTable
import RuSpe.Services.FfiAlloc
import RuSpe.Lib.AlignDown
import RuSpe.Services.FfiAllocRun
import RuSpe.Lib.Armv8mTt
import RuSpe.CortexM.Cmse
import RuSpe.Cose.SigStructure
import RuSpe.Cose.InPlace
import RuSpe.Attest.TokenOutput
import RuSpe.Lib.ByteMemory
import RuSpe.Attest.TokenAccess
import RuSpe.Services.FfiAllocFit
import RuSpe.Services.FfiAllocBounds
import RuSpe.Lib.Ownership
import RuSpe.Services.SignHash
import RuSpe.Services.FfiAllocSearch
import RuSpe.Spm.InvecOverlap
import RuSpe.Lib.Interleaving
import RuSpe.Spm.OnceLock
import RuSpe.Lib.Schedule
import RuSpe.Psc3.Trng
import RuSpe.Psc3.TrngFresh
import RuSpe.Psc3.BootSeed
import RuSpe.Lib.BitTable
import RuSpe.Musca.Mpc
import RuSpe.Lib.RegisterBank
import RuSpe.CortexM.Nvic
import RuSpe.Psc3.Ppc
import RuSpe.Lib.RegisterField
import RuSpe.CortexM.Sau
import RuSpe.Lib.Calls
import RuSpe.Psc3.PpcTable
import RuSpe.Psc3.Policy
import RuSpe.Spm.Isolation
import RuSpe.Psc3.Security
import RuSpe.Psa.PackIovec
import RuSpe.Services.Crypto
import RuSpe.Services.CryptoClient
import RuSpe.Lib.HeldSection
import RuSpe.Tock.SpeMutex
import RuSpe.Services.Request
import RuSpe.Attest.ServiceCall
import RuSpe.Attest.AttestClient
import RuSpe.Attest.Attested
import RuSpe.Lib.Hex
import RuSpe.Tock.ParseHex
import RuSpe.Tock.PsaApp
import RuSpe.Tock.TokenApps
import RuSpe.Tock.TypedNonce
import RuSpe.Attest.McubootSig
import RuSpe.Musca.Security
