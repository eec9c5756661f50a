import Vender.GpioMdb

namespace Vender

namespace Iodin

inductive Command
  | invalid
  | mdbOpen
  | mdbReset
  | mdbTx
  | stop
  deriving DecidableEq, Repr

inductive Status
  | invalid
  | ok
  | errInput
  | errInternal
  | errChecksum
  | errTimeout
  | errHardware
  deriving DecidableEq, Repr

structure Request where
  version : UInt32 := 0
  command : Command := .invalid
  timeout : UInt32 := 0
  arg_uint : UInt32 := 0
  arg_bytes : List UInt8 := []
  deriving DecidableEq, Repr

structure Response where
  version : UInt32 := 0
  status : Status := .invalid
  error : String := ""
  data_bytes : List UInt8 := []
  deriving DecidableEq, Repr

/-- Protobuf, on either side of the pipe. -/
structure Codec where
  encodeRequest : Request → List UInt8
  decodeRequest : List UInt8 → Option Request
  encodeResponse : Response → List UInt8
  decodeResponse : List UInt8 → Option Response
  parseError : List UInt8 → String

def fixed32 (n : Nat) : List UInt8 :=
  [UInt8.ofNat n, UInt8.ofNat (n / 256), UInt8.ofNat (n / 65536), UInt8.ofNat (n / 16777216)]

def ofFixed32 : List UInt8 → Nat
  | [a, b, c, d] => a.toNat + 256 * b.toNat + 65536 * c.toNat + 16777216 * d.toNat
  | _ => 0

def frame (message : List UInt8) : List UInt8 :=
  fixed32 message.length ++ message

theorem ofFixed32_fixed32 {n : Nat} (small : n < 2 ^ 32) : ofFixed32 (fixed32 n) = n := by
  simp only [fixed32, ofFixed32, UInt8.toNat_ofNat']
  omega

theorem frame_take (message : List UInt8) : (frame message).take 4 = fixed32 message.length := rfl

theorem frame_drop (message : List UInt8) : (frame message).drop 4 = message := rfl

structure Server where
  mdb : Option GpioMdb := none
  mock : Bool := false
  running : Bool := false

/-- What `exec` takes from its surroundings. -/
structure ExecEnv where
  answers : List Answer
  wait_step : Option UInt32
  uninitialized : Vector UInt8 bufSize

/-- How `exec` ends: `died` is a panic, `blocked` waits for pigpio forever. -/
inductive ExecEnd
  | ok
  | err
  | died
  | blocked
  deriving DecidableEq, Repr

def mdbTimeout : Duration := ⟨0, 300000000⟩

def fromMillis (ms : UInt32) : Duration := ⟨ms.toNat / 1000, ms.toNat % 1000 * 1000000⟩

namespace Server

def failed (s : Server) (response : Response) : Stop → Server × Response × ExecEnd
  | .err e => (s, { response with status := .errHardware, error := e.text }, .err)
  | .panic => (s, response, .died)
  | .starved => (s, response, .blocked)

/-- What is left of the answers once the old driver has been dropped. -/
def dropMdb (s : Server) (answers : List Answer) : List Answer :=
  match s.mdb with
  | none => answers
  | some m => (Effects.after GpioMdb.close { buf := m.buf, response := [], answers }).answers

def openMdb (env : ExecEnv) (s : Server) (rx tx : UInt8) : EStateM.Result Stop Gpio GpioMdb :=
  GpioMdb.new env.wait_step env.uninitialized rx.toUInt16 tx.toUInt16
    { buf := env.uninitialized, response := [], answers := s.dropMdb env.answers }

def resetMdb (env : ExecEnv) (m : GpioMdb) (arg_uint : UInt32) : EStateM.Result Stop Gpio Unit :=
  GpioMdb.busReset (fromMillis arg_uint) { buf := m.buf, response := [], answers := env.answers }

def txMdb (env : ExecEnv) (m : GpioMdb) (arg_bytes : List UInt8) : EStateM.Result Stop Gpio Unit :=
  GpioMdb.tx blockMaxLength arg_bytes mdbTimeout { buf := m.buf, response := [], answers := env.answers }

def exec (env : ExecEnv) (s : Server) (request : Request) (response : Response) : Server × Response × ExecEnd :=
  match request.command with
  | .invalid => (s, { response with status := .errInput, error := "invalid command" }, .err)
  | .stop => ({ s with running := false }, { response with status := .ok }, .ok)
  | .mdbOpen =>
    match request.arg_bytes with
    | [rx, tx] =>
      match openMdb env s rx tx with
      | .ok m _ => ({ s with mdb := some m }, { response with status := .ok }, .ok)
      | .error stop _ => failed { s with mdb := none } response stop
    | _ => ({ s with mdb := none }, { response with status := .errInput, error := "invalid arg_bytes" }, .err)
  | .mdbReset =>
    match s.mdb with
    | none => (s, { response with status := .errInput, error := "must mdb_open" }, .err)
    | some m =>
      match resetMdb env m request.arg_uint with
      | .ok _ _ => (s, { response with status := .ok }, .ok)
      | .error stop _ => failed s response stop
  | .mdbTx =>
    match s.mdb with
    | none => (s, { response with status := .errInput, error := "must mdb_open" }, .err)
    | some m =>
      if s.mock then
        (s, { response with status := .ok, data_bytes := response.data_bytes ++ request.arg_bytes }, .ok)
      else
        match txMdb env m request.arg_bytes with
        | .ok _ g =>
          ({ s with mdb := some { m with buf := g.buf } },
            { response with status := .ok, data_bytes := response.data_bytes ++ g.response }, .ok)
        | .error stop g => failed { s with mdb := some { m with buf := g.buf } } response stop

/-- One round of the loop in `run` over the bytes of its input: the server
afterwards and the response it writes, `none` where it writes nothing. -/
def round (codec : Codec) (env : ExecEnv) (s : Server) (input : List UInt8) : Server × Option Response × ExecEnd :=
  let payload := (input.drop 4).take (ofFixed32 (input.take 4))
  match codec.decodeRequest payload with
  | none => (s, some { status := .errInput, error := codec.parseError payload }, .err)
  | some request =>
    match exec env s request {} with
    | (s, response, .ok) => (s, some response, .ok)
    | (s, response, .err) => (s, some response, .err)
    | (s, _, stop) => (s, none, stop)

/-- The command's own part of `exec` fails: its arguments, a closed port or the hardware. -/
def Refuses (env : ExecEnv) (s : Server) (request : Request) : Prop :=
  match request.command with
  | .invalid => True
  | .stop => False
  | .mdbOpen =>
    match request.arg_bytes with
    | [rx, tx] => ∃ e g, openMdb env s rx tx = .error (.err e) g
    | _ => True
  | .mdbReset =>
    match s.mdb with
    | none => True
    | some m => ∃ e g, resetMdb env m request.arg_uint = .error (.err e) g
  | .mdbTx =>
    match s.mdb with
    | none => True
    | some m => s.mock = false ∧ ∃ e g, txMdb env m request.arg_bytes = .error (.err e) g

inductive Ended (refuses : Prop) : Server × Response × ExecEnd → Prop
  | ok {s response} (status : response.status = .ok) (not : ¬refuses) : Ended refuses (s, response, .ok)
  | err {s response} (status : response.status ≠ .ok) (refused : refuses) : Ended refuses (s, response, .err)
  | died {s response} (not : ¬refuses) : Ended refuses (s, response, .died)
  | blocked {s response} (not : ¬refuses) : Ended refuses (s, response, .blocked)

theorem ended_failed (s : Server) (response : Response) (stop : Stop) {refuses : Prop}
    (h : refuses ↔ ∃ e, stop = .err e) : Ended refuses (failed s response stop) := by
  cases stop with
  | err e => exact .err (by simp) (h.mpr ⟨e, rfl⟩)
  | panic => exact .died fun hr => nomatch h.mp hr
  | starved => exact .blocked fun hr => nomatch h.mp hr

theorem exec_ended (env : ExecEnv) (s : Server) (request : Request) (response : Response) :
    Ended (Refuses env s request) (exec env s request response) := by
  unfold exec Refuses
  cases request.command with
  | invalid => exact .err (by simp) trivial
  | stop => exact .ok rfl not_false
  | mdbOpen =>
    dsimp only
    split
    next rx tx _ =>
      cases openMdb env s rx tx with
      | ok m g => exact .ok rfl (by simp)
      | error stop g => exact ended_failed _ _ _ (by simp)
    next => exact .err (by simp) trivial
  | mdbReset =>
    dsimp only
    cases s.mdb with
    | none => exact .err (by simp) trivial
    | some m =>
      dsimp only
      cases resetMdb env m request.arg_uint with
      | ok a g => exact .ok rfl (by simp)
      | error stop g => exact ended_failed _ _ _ (by simp)
  | mdbTx =>
    dsimp only
    cases s.mdb with
    | none => exact .err (by simp) trivial
    | some m =>
      dsimp only
      split
      next mock => exact .ok rfl (by simp [mock])
      next real =>
        cases txMdb env m request.arg_bytes with
        | ok a g => exact .ok rfl (by simp)
        | error stop g => exact ended_failed _ _ _ (by simp [Bool.eq_false_iff.mpr real])

end Server

end Iodin

end Vender
