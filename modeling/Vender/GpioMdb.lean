import Vender.FileUart
import Vender.Lib.Effects

namespace Vender

/-- What one call into pigpio answers: its return code, the tick it reports and
the bytes it copies, each for the calls that have one. -/
structure Answer where
  rc : Int := 0
  tick : UInt32 := 0
  data : List UInt8 := []
  deriving Repr

inductive MdbWave
  | request
  | nak
  | ack
  deriving DecidableEq, Repr

inductive MdbTimeout
  | request
  | receive
  | nak
  | ack
  deriving DecidableEq, Repr

def MdbTimeout.text : MdbTimeout → String
  | .request => "send request timeout"
  | .receive => "recv timeout"
  | .nak => "send NAK timeout"
  | .ack => "send ACK timeout"

inductive MdbError
  | pigpio (rc : Int)
  | timeout (t : MdbTimeout)
  | overflow
  | nak
  | invalidResponse (b : UInt8)
  | checksum (computed received : UInt8) (response : List UInt8)
  deriving DecidableEq, Repr

def hexByte (b : UInt8) : String :=
  let digits := Nat.toDigits 16 b.toNat
  String.ofList (if b < 16 then '0' :: digits else digits)

def hexBytes (bs : List UInt8) : String :=
  "[" ++ ", ".intercalate (bs.map hexByte) ++ "]"

def MdbError.text : MdbError → String
  | .pigpio rc => "pigpio err=" ++ toString rc
  | .timeout t => t.text
  | .overflow => "duration_as_micros32 overflow"
  | .nak => "MDB received NAK, probably invalid command"
  | .invalidResponse b => "MDB expected ACK/NAK, received unknown byte " ++ hexByte b
  | .checksum computed received response =>
    "MDB invalid checksum recv=" ++ hexByte received ++ " comp=" ++ hexByte computed ++ " response=" ++
      hexBytes response

/-- Why a program stops early; `starved` waits for an answer that never came. -/
inductive Stop
  | err (e : MdbError)
  | panic
  | starved
  deriving DecidableEq, Repr

def blockMaxLength : Nat := 40
def dataBits : UInt32 := 9
def baud : UInt32 := 9600
def responseAck : UInt8 := 0x00
def responseNak : UInt8 := 0xff
def wordSize : Nat := 2
def bufSize : Nat := blockMaxLength * wordSize
def timeoutSmallUs : UInt32 := 10000
def timeoutCharUs : UInt32 := 1000000 * (dataBits + 2) / baud + 2000
def timeoutReceiveUs : UInt32 := UInt32.ofNat blockMaxLength * timeoutCharUs

structure GpioMdb where
  rx_pin : UInt16
  tx_pin : UInt16
  wave_ack : UInt32
  wave_nak : UInt32
  wait_step : UInt32
  buf : Vector UInt8 bufSize

/-- What a call can write: the buffer and the response it was given, with the
answers pigpio has yet to give and, so far, the word buffers handed to it, the
waves sent and what each `gpioSerialRead` returned. -/
structure Gpio where
  buf : Vector UInt8 bufSize
  response : List UInt8
  answers : List Answer
  handed : List (List UInt8) := []
  sent : List MdbWave := []
  reads : List (List UInt8) := []

abbrev GpioM := EStateM Stop Gpio

structure Duration where
  secs : Nat
  nanos : Nat

namespace GpioMdb

def call : GpioM Answer := do
  match (← get).answers with
  | [] => throw .starved
  | a :: answers =>
    modify fun g => { g with answers }
    pure a

def check (rc : Int) : GpioM UInt32 :=
  if rc < 0 then throw (.err (.pigpio rc)) else pure (UInt32.ofNat rc.toNat)

def checkCall : GpioM UInt32 := do check (← call).rc

def tickSince (start : UInt32) : GpioM UInt32 := do
  pure ((← call).tick - start)

/-- Addition in a build with overflow checks, as every profile has them. -/
def addU32 (a b : UInt32) : GpioM UInt32 :=
  if a.toNat + b.toNat < 2 ^ 32 then pure (a + b) else throw .panic

/-- `Wave::new_serial`; dropping a wave is left out. -/
def mdbWaveCreate (s : List UInt8) : GpioM UInt32 := do
  modify fun g => { g with handed := g.handed ++ [s] }
  let _ ← checkCall
  let _ ← checkCall
  checkCall

def waveTxBusy : GpioM Bool := do
  pure ((← checkCall) == 1)

/-- `GpioMdb::new`; `wait_step` is `none` where the variable does not hold an
integer, and `buf` is what the uninitialised memory happens to hold. -/
def new (wait_step : Option UInt32) (buf : Vector UInt8 bufSize) (rx_pin tx_pin : UInt16) : GpioM GpioMdb := do
  match wait_step with
  | none => throw .panic
  | some wait_step =>
    let _ ← checkCall
    let _ ← checkCall
    let _ ← checkCall
    let _ ← checkCall
    let wave_ack ← mdbWaveCreate [responseAck, 0x00]
    let wave_nak ← mdbWaveCreate [responseNak, 0x00]
    pure { rx_pin, tx_pin, wave_ack, wave_nak, wait_step, buf }

def close : GpioM Unit := do
  let _ ← checkCall
  let _ ← checkCall
  pure ()

/-- The loop of `mdb_wave_send_wait`; a round takes an answer, so `fuel` lasts
as long as the answers do. -/
def sendWaitLoop (start deadline : UInt32) (err : MdbTimeout) : Nat → GpioM Unit
  | 0 => throw .starved
  | fuel + 1 => do
    if ← waveTxBusy then
      let total ← tickSince start
      if deadline < total then throw (.err (.timeout err)) else sendWaitLoop start deadline err fuel
    else pure ()

def mdbWaveSendWait (w : MdbWave) (deadline : UInt32) (err : MdbTimeout) : GpioM Unit := do
  let start ← tickSince 0
  let _ ← checkCall
  modify fun g => { g with sent := g.sent ++ [w] }
  sendWaitLoop start deadline err ((← get).answers.length + 1)
  let _ ← checkCall
  pure ()

def durationAsMicros32 (d : Duration) : Except MdbError UInt32 :=
  if 2 ^ 64 ≤ 1000000 * d.secs then .error .overflow
  else if 2 ^ 64 ≤ 1000000 * d.secs + d.nanos / 1000 then .error .overflow
  else if 2 ^ 32 - 1 ≤ 1000000 * d.secs + d.nanos / 1000 then .error .overflow
  else .ok (UInt32.ofNat (1000000 * d.secs + d.nanos / 1000))

theorem durationAsMicros32_300ms : durationAsMicros32 ⟨0, 300000000⟩ = .ok 300000 := by
  have micros : 1000000 * 0 + 300000000 / 1000 = 300000 := by omega
  simp only [durationAsMicros32, micros]
  rw [if_neg (by omega), if_neg (by omega), if_neg (by omega)]
  rfl

def overwrite (buf : Vector UInt8 bufSize) (data : List UInt8) : Vector UInt8 bufSize :=
  Vector.ofFn fun j => (data[j.val]?).getD buf[j]

def serialRead : GpioM Nat := do
  let a ← call
  let _ ← check a.rc
  modify fun g => { g with buf := overwrite g.buf a.data, reads := g.reads ++ [a.data.take bufSize] }
  pure (min a.data.length bufSize)

def waitReceive (deadline : UInt32) : Nat → GpioM Nat
  | 0 => throw .starved
  | fuel + 1 => do
    let n ← serialRead
    if 0 < n then pure n
    else if deadline < (← tickSince 0) then throw (.err (.timeout .receive))
    else waitReceive deadline fuel

def word (buf : Vector UInt8 bufSize) (i : Fin blockMaxLength) : UInt8 × UInt8 :=
  have flag : wordSize * i.val + 1 < bufSize := by
    have := i.isLt
    simp only [blockMaxLength, bufSize, wordSize] at this ⊢
    omega
  have byte : wordSize * i.val < bufSize := Nat.lt_of_succ_lt flag
  (buf[wordSize * i.val], buf[wordSize * i.val + 1])

/-- The words that `for i in (0..received_count).step_by(2)` visits. -/
def receivedWords (buf : Vector UInt8 bufSize) (received_count : Nat) : List (UInt8 × UInt8) :=
  ((List.finRange blockMaxLength).filter fun i => wordSize * i.val < received_count).map (word buf)

def takeWords : List (UInt8 × UInt8) → GpioM (Option UInt8)
  | [] => pure none
  | (bvalue, bflag) :: rest =>
    if bflag = 1 then pure (some bvalue)
    else do
      modify fun g => { g with response := g.response ++ [bvalue] }
      takeWords rest

def receiveLoop (deadline : UInt32) : Nat → Nat → GpioM UInt8
  | 0, _ => throw .starved
  | fuel + 1, received_count => do
    match ← takeWords (receivedWords (← get).buf received_count) with
    | some end_byte => pure end_byte
    | none => receiveLoop deadline fuel (← waitReceive deadline ((← get).answers.length + 1))

/-- The bytes `tx` stores for a request, in its order of writing. -/
def fillRequest (buf : Vector UInt8 bufSize) (request : List UInt8) : Vector UInt8 bufSize :=
  let buf := buf.setIfInBounds (wordSize - 1) 1
  let buf := request.zipIdx.foldl (fun buf (b, i) => buf.setIfInBounds (i * wordSize) b) buf
  buf.setIfInBounds (request.length * wordSize) (checksum request)

def micros (d : Duration) : GpioM UInt32 :=
  match durationAsMicros32 d with
  | .ok us => pure us
  | .error e => throw (.err e)

def busReset (duration : Duration) : GpioM Unit := do
  let _ ← micros duration
  let _ ← checkCall
  let _ ← checkCall
  pure ()

/-- The end of the critical section of `tx`: what the end byte means and how it is answered. -/
def answerBlock (timeout_small_us : UInt32) (end_byte : UInt8) : GpioM Unit := do
  let response := (← get).response
  if response = [] then
    if end_byte = responseAck then pure ()
    else if end_byte = responseNak then throw (.err .nak)
    else throw (.err (.invalidResponse end_byte))
  else
    let deadline_us ← addU32 (← tickSince 0) timeout_small_us
    if end_byte ≠ checksum response then
      mdbWaveSendWait .nak deadline_us .nak
      throw (.err (.checksum (checksum response) end_byte response))
    else mdbWaveSendWait .ack deadline_us .ack

def txWave (request : List UInt8) (timeout : Duration) : GpioM Unit := do
  let timeout_us ← micros timeout
  let timeout_small_us := min timeout_us timeoutSmallUs
  let io_start_us ← tickSince 0
  let receive_wait_deadline_us ← addU32 io_start_us timeout_us
  let send_deadline_us ← addU32 io_start_us (timeoutCharUs * UInt32.ofNat request.length)
  mdbWaveSendWait .request send_deadline_us .request
  let received_count ← waitReceive receive_wait_deadline_us ((← get).answers.length + 1)
  let receive_deadline ← addU32 (← tickSince 0) timeoutReceiveUs
  let end_byte ← receiveLoop receive_deadline ((← get).answers.length + 1) received_count
  answerBlock timeout_small_us end_byte
  -- the last `tick_since` only goes to the debug log
  let _ ← tickSince io_start_us
  pure ()

/-- `tx`, whose asserts a caller meets with a request of 1 to 39 bytes and a
response of the capacity `blockMaxLength`. -/
def tx (capacity : Nat) (request : List UInt8) (timeout : Duration) : GpioM Unit :=
  if request ≠ [] ∧ request.length < blockMaxLength ∧ blockMaxLength ≤ capacity then do
    modify fun g => { g with buf := fillRequest g.buf request }
    let _ ← mdbWaveCreate ((← get).buf.toList.take (request.length * wordSize + wordSize))
    txWave request timeout
  else throw .panic

end GpioMdb

end Vender
