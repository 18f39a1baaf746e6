import RuSpe.Psa.Types
import RuSpe.Tock.ParseHex

set_option autoImplicit false

/-!
# The dialogue of the token app

The app asks for a nonce until a line of the console is one. The bytes of a line are kept in an array
that is not cleared between the lines, and the bytes past its end are counted only.

* `enterNonce`: the dialogue, over the reads of the console;
* `Types`: the lines that reads make up; `transcript`: what is shown to them;
* `Entry.Holds`: the array and the count stand for the line so far;
* **`enterNonce_accepted_iff`**: the nonce is that of the first line that is one, whatever the lines
  before it were;
* **`token_response`**: what is shown of a token is what the app would read as the token.
-/

namespace RuSpe

open Cbor (Bytes)

namespace PsaApp

/-! ## The console -/

/-- `TokenError`. -/
inductive TokenError
  | consoleRead
  | speDriverNotAvailable
  | tokenRequestFailed
  | writeError
  deriving DecidableEq, Repr

/-- `Console::read` of one byte: how many bytes came, what is in the buffer, and the status. -/
structure ConsoleRead (E : Type) where
  len : Usize
  c : UInt8
  stat : Except E Unit

/-- `core::fmt::Write`: whether the writer took a text, and what is left of it. -/
class Write (W : Type) where
  writeFmt : String → W → Bool × W

section

variable {E W : Type} [Write W] (debug : E → String)

/-- What writes to a writer, and stops at an error. -/
abbrev Emit (W α : Type) := ExceptT TokenError (StateM W) α

/-- `write!`, with the error that every call of it is mapped to. -/
def put (text : String) : Emit W Unit := fun w =>
  match Write.writeFmt text w with
  | (true, w) => (.ok (), w)
  | (false, w) => (.error .writeError, w)

/-- `emit_json_error`. -/
def emitJsonError (error : String) (tokenError : TokenError) : Emit W Unit := do
  put ("\x7b\"type\":\"error\",\"msg\":\"" ++ error ++ "\"\x7d\n")
  throw tokenError

/-- `emit_json_console_read_error`. -/
def emitJsonConsoleReadError (err : E) : Emit W Unit := do
  put ("\x7b\"type\":\"error\",\"msg\":\"console_read\",\"detail\":\"" ++ debug err ++ "\"\x7d\n")
  throw .consoleRead

/-- The text of `*b as char`. -/
def asChar (b : UInt8) : String := String.singleton (Char.ofNat b.toNat)

/-- `emit_json_nonce_read_error`. -/
def emitJsonNonceReadError (nonceHex : Vector UInt8 64) (len : Usize) : Emit W Unit := do
  let shownLen := min len.toNat 64
  put ("\x7b\"type\":\"error\",\"msg\":\"Nonce-Read Failed\",\"read_len\":" ++ toString len.toNat ++
    ",\"read\":\"")
  (nonceHex.toList.take shownLen).forM fun b => put (asChar b)
  if 64 < len.toNat then put "...<truncated>"
  put "\"\x7d\n"

/-- The text of `{:02x}`. -/
def hexByte (b : UInt8) : String :=
  String.ofList ((Hex.encodeByte b).map fun c => Char.ofNat c.toNat)

/-- `emit_json_ok`. -/
def emitJsonOk (token : Bytes) (tokenLen : Usize) : Emit W Unit := do
  put ("\x7b\"type\":\"token_response\",\"token_len\":" ++ toString tokenLen.toNat ++
    ",\"token\":\"")
  token.forM fun b => put (hexByte b)
  put "\"\x7d\n"

/-! ## The dialogue -/

/-- The locals of `create_psa_token`: `nonce_hex`, the `i` of the inner loop, and `nonce`. -/
structure Entry where
  nonceHex : Vector UInt8 64
  i : Usize
  nonce : Vector UInt8 32

def Entry.new : Entry := ⟨.replicate 64 0, 0, .replicate 32 0⟩

/-- A byte of the line goes into the array as long as there is room. -/
def Entry.push (s : Entry) (byte : UInt8) : Entry :=
  { s with
    nonceHex := if h : s.i.toNat < 64 then s.nonceHex.set s.i.toNat byte h else s.nonceHex
    i := s.i + 1 }

def promptText : String :=
  "\n\x7b \"type\": \"enter_nonce\", \"msg\": \"Please enter a hex-encoded nonce (up to 32 bytes):\" \x7d\n"

def parseFailedText : String := "\x7b\"type\":\"error\",\"msg\":\"Nonce-Parse Failed\"\x7d\n"

def acceptedText : String :=
  "\x7b\"type\":\"status\",\"msg\":\"Nonce accepted. Generating token, this can take a few seconds.\"\x7d\n"

/-- What the outer loop does with a line: whether it ends, and the nonce. Where it goes on it asks
again. -/
def endLine (s : Entry) : Emit W (Bool × Vector UInt8 32) := do
  if s.i ≠ 64 then
    emitJsonNonceReadError s.nonceHex s.i
    put promptText
    return (false, s.nonce)
  let (parsedLen, nonce) := parseHex (s.nonceHex.toList.take s.i.toNat) s.nonce
  if parsedLen ≠ 32 then
    put parseFailedText
    put promptText
    return (false, nonce)
  put acceptedText
  return (true, nonce)

/-- How the dialogue goes: it waits for the next read, the app returns, or a nonce is accepted and
the reads behind it are left. -/
inductive Dialogue (E W : Type)
  | waiting (s : Entry) (w : W)
  | returned (result : Except TokenError Unit) (w : W)
  | accepted (nonce : Vector UInt8 32) (reads : List (ConsoleRead E)) (w : W)

/-- The loops of `create_psa_token`, over the reads of the console. -/
def readLines : List (ConsoleRead E) → Entry → W → Dialogue E W
  | [], s, w => .waiting s w
  | r :: reads, s, w =>
    match r.stat with
    | .error err =>
      let (result, w) := emitJsonConsoleReadError debug err w
      .returned result w
    | .ok () =>
      if r.len = 1 then
        if r.c = 0x0A ∨ r.c = 0x0D then
          match endLine s w with
          | (.error e, w) => .returned (.error e) w
          | (.ok (true, nonce), w) => .accepted nonce reads w
          | (.ok (false, nonce), w) => readLines reads ⟨s.nonceHex, 0, nonce⟩ w
        else readLines reads (s.push r.c) w
      else readLines reads s w

/-- The dialogue of `create_psa_token`. -/
def enterNonce (reads : List (ConsoleRead E)) (w : W) : Dialogue E W :=
  match put promptText w with
  | (.error e, w) => .returned (.error e) w
  | (.ok (), w) => readLines debug reads .new w

/-! ## What is written -/

/-- Texts one after another. -/
def putAll (texts : List String) : Emit W Unit := texts.forM put

omit [Write W] in
theorem bind_apply {α β : Type} (x : Emit W α) (f : α → Emit W β) (w : W) :
    (x >>= f) w = match x w with
      | (.ok a, w) => f a w
      | (.error e, w) => ((Except.error e, w) : Except TokenError β × W) := by
  simp only [bind, ExceptT.bind, ExceptT.mk, StateT.bind]
  rcases x w with ⟨_ | _, _⟩ <;> rfl

omit [Write W] in
theorem bind_eq_ok {β : Type} {x : Emit W Unit} {y : Emit W β} {w w' : W} {b : β} :
    (x >>= fun _ => y) w = (Except.ok b, w') ↔
      ∃ w₁, x w = (Except.ok (), w₁) ∧ y w₁ = (Except.ok b, w') := by
  rw [bind_apply]
  constructor
  · intro h
    rcases hx : x w with ⟨_ | ⟨⟩, w₁⟩
    · rw [hx] at h
      cases h
    · rw [hx] at h
      exact ⟨w₁, rfl, h⟩
  · rintro ⟨w₁, hx, hy⟩
    rw [hx]
    exact hy

theorem putAll_cons (text : String) (texts : List String) :
    (putAll (text :: texts) : Emit W Unit) = put text >>= fun _ => putAll texts := rfl

theorem putAll_append (texts texts' : List String) :
    (putAll (texts ++ texts') : Emit W Unit) = putAll texts >>= fun _ => putAll texts' := by
  induction texts with
  | nil => exact (pure_bind ..).symm
  | cons text texts ih => rw [List.cons_append, putAll_cons, ih, putAll_cons, bind_assoc]

theorem putAll_singleton (text : String) : (putAll [text] : Emit W Unit) = put text := by
  rw [putAll_cons]
  exact bind_pure_unit

theorem forM_put {α : Type} (f : α → String) (l : List α) :
    (l.forM fun a => put (f a)) = (putAll (l.map f) : Emit W Unit) := by
  induction l with
  | nil => rfl
  | cons a l ih =>
    rw [List.map_cons, putAll_cons, ← ih]
    rfl

/-! ## Lines -/

/-- The line is the text of a nonce. -/
def IsNonce (line : Bytes) (nonce : Vector UInt8 32) : Prop := Hex.decode line = some nonce.toList

/-- The reads complete the line that was begun, and type the others. They end with the last line. -/
inductive Types : Bytes → List (ConsoleRead E) → List Bytes → Bytes → Prop
  | last {line : Bytes} {r : ConsoleRead E} (hstat : r.stat = .ok ()) (hlen : r.len = 1)
      (hc : r.c = 0x0A ∨ r.c = 0x0D) : Types line [r] [] line
  | line {line last : Bytes} {r : ConsoleRead E} {reads : List (ConsoleRead E)}
      {others : List Bytes} (hstat : r.stat = .ok ()) (hlen : r.len = 1)
      (hc : r.c = 0x0A ∨ r.c = 0x0D) (h : Types [] reads others last) :
      Types line (r :: reads) (line :: others) last
  | byte {line last : Bytes} {r : ConsoleRead E} {reads : List (ConsoleRead E)}
      {others : List Bytes} (hstat : r.stat = .ok ()) (hlen : r.len = 1)
      (hc : ¬ (r.c = 0x0A ∨ r.c = 0x0D)) (h : Types (line ++ [r.c]) reads others last) :
      Types line (r :: reads) others last
  | nothing {line last : Bytes} {r : ConsoleRead E} {reads : List (ConsoleRead E)}
      {others : List Bytes} (hstat : r.stat = .ok ()) (hlen : r.len ≠ 1)
      (h : Types line reads others last) : Types line (r :: reads) others last

/-- What is shown to a line that is not the text of a nonce. -/
def complaint (line : Bytes) : List String :=
  if line.length ≠ 64 then
    ("\x7b\"type\":\"error\",\"msg\":\"Nonce-Read Failed\",\"read_len\":" ++ toString line.length ++
      ",\"read\":\"") ::
    ((line.take 64).map asChar ++ ((if 64 < line.length then ["...<truncated>"] else []) ++ ["\"\x7d\n"]))
  else [parseFailedText]

/-- What is shown while a nonce is entered behind other lines. -/
def transcript (others : List Bytes) : List String :=
  others.flatMap (fun line => complaint line ++ [promptText]) ++ [acceptedText]

/-- The nonce is that of the first line that is the text of one. -/
def Enters (line : Bytes) (reads : List (ConsoleRead E)) (w : W) (nonce : Vector UInt8 32)
    (rest : List (ConsoleRead E)) (w' : W) : Prop :=
  ∃ others last typed, reads = typed ++ rest ∧ Types line typed others last ∧
    (∀ l ∈ others, ∀ n, ¬ IsNonce l n) ∧ IsNonce last nonce ∧
    putAll (transcript others) w = (Except.ok (), w')

section

variable {line : Bytes} {r : ConsoleRead E} {reads rest : List (ConsoleRead E)} {w w' : W}
  {nonce : Vector UInt8 32}

theorem not_enters_nil : ¬ Enters line ([] : List (ConsoleRead E)) w nonce rest w' := by
  rintro ⟨others, last, typed, htyped, htypes, -⟩
  cases (List.append_eq_nil_iff.mp htyped.symm).1
  cases htypes

/-- The first read of those that type lines. -/
theorem enters_cons (h : Enters line (r :: reads) w nonce rest w') :
    ∃ others last typed, reads = typed ++ rest ∧ Types line (r :: typed) others last ∧
      (∀ l ∈ others, ∀ n, ¬ IsNonce l n) ∧ IsNonce last nonce ∧
      putAll (transcript others) w = (Except.ok (), w') := by
  obtain ⟨others, last, typed, htyped, htypes, h⟩ := h
  cases typed with
  | nil => cases htypes
  | cons r' typed =>
    obtain ⟨rfl, hreads⟩ := List.cons.inj htyped
    exact ⟨others, last, typed, hreads, htypes, h⟩

theorem not_enters_error {err : E} (hstat : r.stat = .error err) :
    ¬ Enters line (r :: reads) w nonce rest w' := by
  intro h
  obtain ⟨others, last, typed, -, htypes, -⟩ := enters_cons h
  cases htypes <;> simp_all

theorem enters_nothing (hstat : r.stat = .ok ()) (hlen : r.len ≠ 1) :
    Enters line (r :: reads) w nonce rest w' ↔ Enters line reads w nonce rest w' := by
  constructor
  · intro h
    obtain ⟨others, last, typed, hreads, htypes, h⟩ := enters_cons h
    cases htypes with
    | nothing _ _ htypes => exact ⟨others, last, typed, hreads, htypes, h⟩
    | _ => contradiction
  · rintro ⟨others, last, typed, rfl, htypes, h⟩
    exact ⟨others, last, r :: typed, rfl, .nothing hstat hlen htypes, h⟩

theorem enters_byte (hstat : r.stat = .ok ()) (hlen : r.len = 1) (hc : ¬ (r.c = 0x0A ∨ r.c = 0x0D)) :
    Enters line (r :: reads) w nonce rest w' ↔ Enters (line ++ [r.c]) reads w nonce rest w' := by
  constructor
  · intro h
    obtain ⟨others, last, typed, hreads, htypes, h⟩ := enters_cons h
    cases htypes with
    | byte _ _ _ htypes => exact ⟨others, last, typed, hreads, htypes, h⟩
    | _ => contradiction
  · rintro ⟨others, last, typed, rfl, htypes, h⟩
    exact ⟨others, last, r :: typed, rfl, .byte hstat hlen hc htypes, h⟩

/-- The end of a line that is the text of a nonce. -/
theorem enters_last (hstat : r.stat = .ok ()) (hlen : r.len = 1) (hc : r.c = 0x0A ∨ r.c = 0x0D)
    (hn : IsNonce line nonce) {n : Vector UInt8 32} :
    Enters line (r :: reads) w n rest w' ↔
      n = nonce ∧ rest = reads ∧ put acceptedText w = (Except.ok (), w') := by
  constructor
  · intro h
    obtain ⟨others, last, typed, hreads, htypes, hothers, hlast, hput⟩ := enters_cons h
    cases htypes with
    | last =>
      rw [transcript, List.flatMap_nil, List.nil_append, putAll_singleton] at hput
      rw [IsNonce, hn, Option.some.injEq, Vector.toList_inj] at hlast
      exact ⟨hlast.symm, hreads.symm, hput⟩
    | line _ _ _ htypes => exact absurd hn (hothers line List.mem_cons_self nonce)
    | _ => contradiction
  · rintro ⟨rfl, rfl, hput⟩
    refine ⟨[], line, [r], rfl, .last hstat hlen hc, nofun, hn, ?_⟩
    rw [transcript, List.flatMap_nil, List.nil_append, putAll_singleton]
    exact hput

theorem transcript_cons (line : Bytes) (others : List Bytes) :
    transcript (line :: others) = complaint line ++ [promptText] ++ transcript others := by
  rw [transcript, List.flatMap_cons, List.append_assoc]
  rfl

/-- The end of another line. -/
theorem enters_other (hstat : r.stat = .ok ()) (hlen : r.len = 1) (hc : r.c = 0x0A ∨ r.c = 0x0D)
    (hn : ∀ n, ¬ IsNonce line n) :
    Enters line (r :: reads) w nonce rest w' ↔
      ∃ w₁, putAll (complaint line ++ [promptText]) w = (Except.ok (), w₁) ∧
        Enters [] reads w₁ nonce rest w' := by
  constructor
  · intro h
    obtain ⟨others, last, typed, hreads, htypes, hothers, hlast, hput⟩ := enters_cons h
    cases htypes with
    | last => exact absurd hlast (hn nonce)
    | @line _ _ _ _ others _ _ _ htypes =>
      rw [transcript_cons, putAll_append, bind_eq_ok] at hput
      obtain ⟨w₁, hput₁, hput⟩ := hput
      exact ⟨w₁, hput₁, others, last, typed, hreads, htypes,
        fun l hl => hothers l (List.mem_cons_of_mem _ hl), hlast, hput⟩
    | _ => contradiction
  · rintro ⟨w₁, hput₁, others, last, typed, rfl, htypes, hothers, hlast, hput⟩
    refine ⟨line :: others, last, r :: typed, rfl, .line hstat hlen hc htypes, ?_, hlast, ?_⟩
    · exact List.forall_mem_cons.mpr ⟨hn, hothers⟩
    · rw [transcript_cons, putAll_append, bind_eq_ok]
      exact ⟨w₁, hput₁, hput⟩

end

/-! ## The array of the line -/

/-- The array and the count stand for the line. -/
structure Entry.Holds (s : Entry) (line : Bytes) : Prop where
  count : s.i = BitVec.ofNat 32 line.length
  bytes : s.nonceHex.toList.take line.length = line.take 64

theorem holds_nil (nonceHex : Vector UInt8 64) (nonce : Vector UInt8 32) :
    Entry.Holds ⟨nonceHex, 0, nonce⟩ [] := ⟨rfl, rfl⟩

theorem Entry.Holds.toNat_i {s : Entry} {line : Bytes} (h : s.Holds line)
    (hlen : line.length < 2 ^ 32) : s.i.toNat = line.length := by
  rw [h.count, BitVec.toNat_ofNat, Nat.mod_eq_of_lt hlen]

theorem Entry.Holds.push {s : Entry} {line : Bytes} (h : s.Holds line)
    (hlen : line.length + 1 < 2 ^ 32) (byte : UInt8) : (s.push byte).Holds (line ++ [byte]) := by
  have hi := h.toNat_i (by omega)
  constructor
  · rw [List.length_append, List.length_singleton, BitVec.ofNat_add, ← h.count]
    rfl
  · rw [Entry.push, List.length_append, List.length_singleton]
    by_cases hroom : s.i.toNat < 64
    · rw [dif_pos hroom, Vector.toList_set, List.take_add_one, hi,
        List.getElem?_set_self (by rw [Vector.length_toList]; omega), List.take_set_of_le le_rfl,
        h.bytes, List.take_of_length_le (by omega), List.take_of_length_le (by simp; omega)]
      rfl
    · rw [dif_neg hroom, List.take_of_length_le (by simp; omega),
        ← List.take_of_length_le (l := s.nonceHex.toList) (i := line.length) (by simp; omega), h.bytes,
        List.take_append_of_le_length (by omega)]

section

variable {s : Entry} {line : Bytes}

/-- A line of another length gets its complaint. -/
theorem emitJsonNonceReadError_eq (h : s.Holds line) (hlen : line.length < 2 ^ 32)
    (hne : line.length ≠ 64) :
    emitJsonNonceReadError s.nonceHex s.i = (putAll (complaint line) : Emit W Unit) := by
  have hshown : s.nonceHex.toList.take (min line.length 64) = line.take 64 := by
    rw [← h.bytes]
    rcases le_total line.length 64 with hle | hle
    · rw [min_eq_left hle]
    · rw [min_eq_right hle, List.take_of_length_le (by simp), List.take_of_length_le (by simp; omega)]
  rw [emitJsonNonceReadError, h.toNat_i hlen, complaint, if_pos hne, putAll_cons, putAll_append,
    putAll_append]
  dsimp only
  rw [hshown, forM_put]
  congr 1
  funext _
  congr 1
  funext _
  by_cases hlong : 64 < line.length
  · rw [if_pos hlong, if_pos hlong, putAll_singleton, putAll_singleton]
  · rw [if_neg hlong, if_neg hlong, putAll_singleton]
    exact (pure_bind ..).symm

theorem length_of_isNonce {nonce : Vector UInt8 32} (h : IsNonce line nonce) : line.length = 64 := by
  rw [Hex.length_of_decode h, Vector.length_toList]

/-- The end of a line that is the text of a nonce. -/
theorem endLine_of_isNonce (h : s.Holds line) {nonce : Vector UInt8 32} (hn : IsNonce line nonce) :
    endLine s =
      (put acceptedText >>= fun _ => pure (true, nonce) : Emit W (Bool × Vector UInt8 32)) := by
  have h64 := length_of_isNonce hn
  have hi : s.i = 64 := by rw [h.count, h64]; rfl
  have hbytes : s.nonceHex.toList.take s.i.toNat = line := by
    rw [h.toNat_i (by omega), h.bytes, List.take_of_length_le h64.le]
  rw [endLine, if_neg (not_not.mpr hi), hbytes, (parseHex_eq_iff h64 s.nonce nonce).mpr hn]
  dsimp only
  rw [if_neg (not_not.mpr rfl)]

/-- The end of another line. -/
theorem endLine_of_not (h : s.Holds line) (hlen : line.length < 2 ^ 32) (hn : ∀ n, ¬ IsNonce line n) :
    ∃ nonce, endLine s = (putAll (complaint line ++ [promptText]) >>= fun _ => pure (false, nonce) :
      Emit W (Bool × Vector UInt8 32)) := by
  by_cases h64 : line.length = 64
  · have hi : s.i = 64 := by rw [h.count, h64]; rfl
    have hbytes : s.nonceHex.toList.take s.i.toNat = line := by
      rw [h.toNat_i hlen, h.bytes, List.take_of_length_le h64.le]
    have hcount : (parseHex line s.nonce).1 ≠ 32 := fun hcount =>
      hn _ ((parseHex_eq_iff h64 s.nonce _).mp (Prod.ext hcount rfl))
    refine ⟨(parseHex line s.nonce).2, ?_⟩
    rw [endLine, if_neg (not_not.mpr hi), hbytes, complaint, if_neg (not_not.mpr h64), putAll_append,
      putAll_singleton, putAll_singleton]
    dsimp only
    rw [if_pos hcount, bind_assoc]
  · have hi : s.i ≠ 64 := by
      intro hi
      have := h.toNat_i hlen
      rw [hi] at this
      exact h64 this.symm
    refine ⟨s.nonce, ?_⟩
    rw [endLine, if_pos hi, emitJsonNonceReadError_eq h hlen h64, putAll_append, putAll_singleton,
      bind_assoc]

end

/-! ## The dialogue -/

/-- The dialogue from a line on that was begun. -/
theorem readLines_accepted_iff {reads rest : List (ConsoleRead E)} {s : Entry} {line : Bytes}
    {w w' : W} {nonce : Vector UInt8 32} (h : s.Holds line)
    (hlen : line.length + reads.length < 2 ^ 32) :
    readLines debug reads s w = .accepted nonce rest w' ↔ Enters line reads w nonce rest w' := by
  induction reads generalizing s line w with
  | nil =>
    rw [readLines]
    exact ⟨nofun, fun he => absurd he not_enters_nil⟩
  | cons r reads ih =>
    rw [List.length_cons] at hlen
    rw [readLines]
    cases hstat : r.stat with
    | error err => exact ⟨nofun, fun he => absurd he (not_enters_error hstat)⟩
    | ok u =>
      dsimp only
      by_cases h1 : r.len = 1
      · rw [if_pos h1]
        by_cases hc : r.c = 0x0A ∨ r.c = 0x0D
        · rw [if_pos hc]
          by_cases hn : ∃ n, IsNonce line n
          · obtain ⟨n, hn⟩ := hn
            rw [enters_last hstat h1 hc hn, endLine_of_isNonce h hn, bind_apply]
            rcases put acceptedText w with ⟨_ | ⟨⟩, w₁⟩
            · exact ⟨nofun, fun he => by cases he.2.2⟩
            · constructor
              · rintro ⟨⟩
                exact ⟨rfl, rfl, rfl⟩
              · rintro ⟨rfl, rfl, ⟨⟩⟩
                rfl
          · rw [not_exists] at hn
            obtain ⟨n, hend⟩ := endLine_of_not (W := W) h (by omega) hn
            rw [enters_other hstat h1 hc hn, hend, bind_apply]
            rcases putAll (complaint line ++ [promptText]) w with ⟨_ | ⟨⟩, w₁⟩
            · exact ⟨nofun, fun ⟨_, he, _⟩ => by cases he⟩
            · have hrest := ih (w := w₁) (holds_nil s.nonceHex n) (by rw [List.length_nil]; omega)
              constructor
              · intro hgo
                exact ⟨w₁, rfl, hrest.mp hgo⟩
              · rintro ⟨w₂, ⟨⟩, he⟩
                exact hrest.mpr he
        · rw [if_neg hc, enters_byte hstat h1 hc]
          exact ih (h.push (by omega) r.c) (by rw [List.length_append, List.length_singleton]; omega)
      · rw [if_neg h1, enters_nothing hstat h1]
        exact ih h (by omega)

/-- The dialogue, with its first text. -/
theorem enterNonce_iff {reads rest : List (ConsoleRead E)} {w w' : W} {nonce : Vector UInt8 32}
    (hlen : reads.length < 2 ^ 32) :
    enterNonce debug reads w = .accepted nonce rest w' ↔
      ∃ w₀, put promptText w = (Except.ok (), w₀) ∧ Enters [] reads w₀ nonce rest w' := by
  rw [enterNonce]
  rcases put promptText w with ⟨_ | ⟨⟩, w₀⟩
  · exact ⟨nofun, fun ⟨_, he, _⟩ => by cases he⟩
  · have hlines : readLines debug reads _ w₀ = .accepted nonce rest w' ↔
        Enters [] reads w₀ nonce rest w' :=
      readLines_accepted_iff debug (holds_nil (.replicate 64 0) (.replicate 32 0))
        (by rw [List.length_nil, zero_add]; exact hlen)
    constructor
    · intro h
      exact ⟨w₀, rfl, hlines.mp h⟩
    · rintro ⟨w₁, ⟨⟩, h⟩
      exact hlines.mpr h

/-- **The nonce is that of the first line that is the text of one**, whatever the lines before it
were: each of them is answered by its own complaint, and nothing of it is left in the nonce. -/
theorem enterNonce_accepted_iff {reads rest : List (ConsoleRead E)} {w w' : W}
    {nonce : Vector UInt8 32} (hlen : reads.length < 2 ^ 32) :
    enterNonce debug reads w = .accepted nonce rest w' ↔
      ∃ others last typed, reads = typed ++ rest ∧ Types [] typed others last ∧
        (∀ l ∈ others, ∀ n, ¬ IsNonce l n) ∧ IsNonce last nonce ∧
        putAll (promptText :: transcript others) w = (Except.ok (), w') := by
  rw [enterNonce_iff debug hlen]
  constructor
  · rintro ⟨w₀, hput, others, last, typed, hreads, htypes, hothers, hlast, hall⟩
    exact ⟨others, last, typed, hreads, htypes, hothers, hlast, bind_eq_ok.mpr ⟨w₀, hput, hall⟩⟩
  · rintro ⟨others, last, typed, hreads, htypes, hothers, hlast, hall⟩
    obtain ⟨w₀, hput, hall⟩ := bind_eq_ok.mp hall
    exact ⟨w₀, hput, others, last, typed, hreads, htypes, hothers, hlast, hall⟩

end

/-! ## The response -/

/-- The bytes of a text of ASCII characters. -/
def asciiBytes (text : String) : Bytes := text.toList.map fun c => UInt8.ofNat c.toNat

theorem asciiBytes_hexByte (b : UInt8) : asciiBytes (hexByte b) = Hex.encodeByte b := by
  rw [asciiBytes, hexByte, String.toList_ofList, List.map_map]
  refine List.map_id'' (fun c => ?_) _
  have hc : c.toNat < 256 := c.toNat_lt
  have hvalid : Nat.isValidChar c.toNat := .inl (by omega)
  rw [Function.comp_apply, Char.ofNat, dif_pos hvalid]
  exact c.ofNat_toNat

/-- The texts of the response. -/
def responseTexts (token : Bytes) (tokenLen : Usize) : List String :=
  ("\x7b\"type\":\"token_response\",\"token_len\":" ++ toString tokenLen.toNat ++
    ",\"token\":\"") :: (token.map hexByte ++ ["\"\x7d\n"])

theorem emitJsonOk_eq {W : Type} [Write W] (token : Bytes) (tokenLen : Usize) :
    emitJsonOk token tokenLen = (putAll (responseTexts token tokenLen) : Emit W Unit) := by
  rw [emitJsonOk, forM_put, responseTexts, putAll_cons, putAll_append, putAll_singleton]

/-- The bytes of the middle of the response. -/
theorem asciiBytes_response (token : Bytes) :
    (token.map hexByte).flatMap asciiBytes = Hex.encode token := by
  rw [List.flatMap_map, Hex.encode]
  exact List.flatMap_congr fun b _ => asciiBytes_hexByte b

/-- **The response carries the token**: between its fixed texts stands what `parse_hex` reads as the
token. -/
theorem token_response {W : Type} [Write W] {n : ℕ} (token : Vector UInt8 n) (tokenLen : Usize) :
    ∃ head last text, emitJsonOk token.toList tokenLen =
        (putAll (head :: (text ++ [last])) : Emit W Unit) ∧
      head = "\x7b\"type\":\"token_response\",\"token_len\":" ++ toString tokenLen.toNat ++
        ",\"token\":\"" ∧ last = "\"\x7d\n" ∧
      ∀ output : Vector UInt8 n, parseHex (text.flatMap asciiBytes) output = (n, token) := by
  refine ⟨_, _, _, emitJsonOk_eq token.toList tokenLen, rfl, rfl, fun output => ?_⟩
  rw [asciiBytes_response]
  exact (parseHex_eq_iff (by rw [Hex.length_encode, Vector.length_toList]) output token).mpr
    (Hex.decode_encode token.toList)

/-! ## A console -/

/-- A writer that keeps what was written. -/
instance : Write String := ⟨fun text w => (true, w ++ text)⟩

/-- The read of a byte. -/
def key (c : UInt8) : ConsoleRead String := ⟨1, c, .ok ()⟩

/-- A line that is typed from where it is. -/
theorem types_keys {line : Bytes} {c : UInt8} (hc : c = 0x0A ∨ c = 0x0D) (typed : Bytes)
    (h : ∀ b ∈ typed, ¬ (b = 0x0A ∨ b = 0x0D)) :
    Types line ((typed ++ [c]).map key) [] (line ++ typed) := by
  induction typed generalizing line with
  | nil =>
    rw [List.append_nil]
    exact .last rfl rfl hc
  | cons b typed ih =>
    rw [List.forall_mem_cons] at h
    rw [← List.singleton_append, ← List.append_assoc]
    exact .byte rfl rfl h.1 (ih h.2)

/-- A blank line, and 64 zeros. -/
theorem enterNonce_zeros : ∃ w',
    enterNonce id (([0x0D] ++ List.replicate 64 0x30 ++ [0x0A] : Bytes).map key) "" =
      .accepted (.replicate 32 0) [] w' := by
  refine ⟨_, (enterNonce_accepted_iff id (by decide)).mpr
    ⟨[[]], List.replicate 64 0x30, _, (List.append_nil _).symm,
      .line rfl rfl (.inr rfl) (types_keys (.inl rfl) _ ?_), ?_, ?_, rfl⟩⟩
  · intro b hb
    rw [List.eq_of_mem_replicate hb]
    decide
  · intro l hl n hn
    rw [List.mem_singleton.mp hl] at hn
    exact absurd (length_of_isNonce hn) (by decide)
  · rfl

end PsaApp

end RuSpe
