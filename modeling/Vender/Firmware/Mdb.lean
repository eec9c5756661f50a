import Vender.Firmware.State

namespace Vender.Firmware.Gate

def mdbStartReceive (g : Gate) : Gate :=
  timer0Set mdbTimeout
    { g with
      mdbIn := g.mdbIn.clearFast
      mdbInChecksum := 0
      mdbInLastByte := 0
      history := { g.history with heard := [] } }

def mdbReset (g : Gate) : Gate :=
  { g.timer0Stop with
    mdbFastErrorCode := none
    mdbIn := g.mdbIn.clearFull
    mdbOut := g.mdbOut.clearFull
    mdbInChecksum := 0
    mdbInLastByte := 0
    mdbState := .idle
    mdbStateRetry := false }

def mdbFinish1 (code : Response) (g : Gate) : Gate := (g.masterOut1 code).mdbReset

def mdbFinish2 (code : Response) (data : UInt8) (g : Gate) : Gate :=
  (g.masterOut2 code data).mdbReset

def mdbFinish3 (code : Response) (data1 data2 : UInt8) (g : Gate) : Gate :=
  (g.masterOutN code [data1, data2]).mdbReset

def mdbFinishIn (code : Response) (g : Gate) : Gate :=
  (g.masterOutN code g.mdbIn.stored).mdbReset

/-- `ready` is what `uart_send_ready` finds in UCSR0A. -/
def mdbStartSend (ready : Bool) (g : Gate) : Gate :=
  if !ready then
    g.mdbFinish2 .uartSendBusy 0
  else
    let g := { g.timer0Set mdbTimeout with mdbState := .send, mdbStateRetry := false, txb80 := true }
    let g := g.setUdr0 (g.mdbOut.read 0 (Nat.zero_lt_succ _))
    { g with txb80 := false, mdbOut := { g.mdbOut with used := 1 }, udrie0 := true }

/-- What an interrupt finds wrong is left for the next `mdb_step` to answer. -/
def mdbFastError (code : Response) (data : UInt8) (g : Gate) : Gate :=
  { g with
    mdbFastErrorState := g.mdbState
    mdbState := .error
    mdbFastErrorCode := some code
    mdbFastErrorData := data }

/-- The main loop's part of the engine: it answers an error, or the end of a reply, and waits for
the interrupts otherwise. -/
def mdbStep (g : Gate) : Gate :=
  match g.mdbFastErrorCode with
  | some code => g.mdbFinish3 code g.mdbFastErrorState.code g.mdbFastErrorData
  | none =>
    match g.mdbState with
    | .recvEnd =>
      if g.mdbIn.length = 0 then
        if g.mdbInLastByte = mdbAck then
          g.mdbFinish1 .mdbSuccess
        else if g.mdbInLastByte = mdbNak then
          g.mdbFinish2 .mdbNak g.mdbInLastByte
        else
          g.mdbFinish2 .mdbInvalidEnd g.mdbInLastByte
      else if g.mdbInLastByte ≠ g.mdbInChecksum then
        if g.mdbStateRetry then
          (g.setUdr0 mdbNak).mdbFinish2 .mdbInvalidChk g.mdbInLastByte
        else
          mdbStartReceive { g.setUdr0 mdbRet with mdbStateRetry := true }
      else
        (g.setUdr0 mdbAck).mdbFinishIn .mdbSuccess
    | _ => g

/-- `err` holds the error flags of UCSR0A, `bit9` is RXB80. -/
def usartRx (err data : UInt8) (bit9 : Bool) (g : Gate) : Gate :=
  let g := { g.timer0Stop with history := { g.history with heard := g.history.heard ++ [(data, bit9)] } }
  if err ≠ 0 then
    g.mdbFastError .uartReadError err
  else if g.mdbState ≠ .recv then
    g.mdbFastError .uartReadUnexpected data
  else if bit9 then
    { g with mdbInLastByte := data, mdbState := .recvEnd }
  else
    let g := { g with mdbInChecksum := g.mdbInChecksum + data }
    match g.mdbIn.append data with
    | none => g.mdbFastError .mdbReceiveOverflow (UInt8.ofNat g.mdbIn.length)
    | some mdbIn => timer0Set mdbTimeout { g with mdbIn := mdbIn }

/-- The data register is empty: the next byte of the block goes out, after the last one the end of
the transmission is waited for. -/
def usartUdre (g : Gate) : Gate :=
  let g := g.timer0Stop
  if sent : g.mdbOut.used ≥ g.mdbOut.length then
    g.mdbFastError .mdbSendOverflow (UInt8.ofNat g.mdbOut.used)
  else
    let data := g.mdbOut.read g.mdbOut.used (g.mdbOut.lt_size_of_lt_length (Nat.not_le.mp sent))
    let g := { g with mdbOut := { g.mdbOut with used := g.mdbOut.used + 1 } }
    let g := if g.mdbOut.used = g.mdbOut.length then { g with udrie0 := false, txcie0 := true } else g
    (g.setUdr0 data).timer0Set mdbTimeout

def usartTx (g : Gate) : Gate :=
  { mdbStartReceive { g.timer0Stop with txcie0 := false } with mdbState := .recv }

@[simp] theorem mdbReset_mdbState (g : Gate) : g.mdbReset.mdbState = .idle := rfl

@[simp] theorem mdbReset_mdbFastErrorCode (g : Gate) : g.mdbReset.mdbFastErrorCode = none := rfl

@[simp] theorem mdbStartReceive_emitted (g : Gate) :
    g.mdbStartReceive.history.emitted = g.history.emitted := rfl

end Vender.Firmware.Gate
