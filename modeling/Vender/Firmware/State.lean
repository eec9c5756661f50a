import Vender.Firmware.Buffer
import Vender.Firmware.Crc

namespace Vender.Firmware

abbrev mdbPacketSize : Nat := 36

def mdbTimeout : UInt8 := 6

def mdbAck : UInt8 := 0x00

def mdbRet : UInt8 := 0xaa

def mdbNak : UInt8 := 0xff

inductive MdbState
  | idle
  | error
  | send
  | recv
  | recvEnd
  | busReset
  deriving DecidableEq, Repr

def MdbState.code : MdbState → UInt8
  | .idle => 0
  | .error => 1
  | .send => 2
  | .recv => 3
  | .recvEnd => 4
  | .busReset => 5

abbrev commandMaxLength : Nat := 93

inductive Command
  | poll
  | config
  | reset
  | debug
  | flash
  | mdbBusReset
  | mdbTransactionSimple
  | mdbTransactionCustom
  deriving DecidableEq, Repr

def Command.ofByte (header : UInt8) : Option Command :=
  [(0x01, poll), (0x02, config), (0x03, reset), (0x04, debug), (0x05, flash), (0x07, mdbBusReset),
    (0x08, mdbTransactionSimple), (0x09, mdbTransactionCustom)].lookup header

abbrev responseMaxLength : Nat := 80

inductive Response
  | status
  | debug
  | twi
  | mdbStarted
  | mdbSuccess
  | error
  | badPacket
  | invalidCrc
  | bufferOverflow
  | unknownCommand
  | corruption
  | notImplemented
  | mdbBusy
  | mdbInvalidChk
  | mdbNak
  | mdbTimeout
  | mdbInvalidEnd
  | mdbReceiveOverflow
  | mdbSendOverflow
  | uartReadUnexpected
  | uartReadError
  | uartSendBusy
  deriving DecidableEq, Repr

def Response.code : Response → UInt8
  | .status => 0x01
  | .debug => 0x04
  | .twi => 0x05
  | .mdbStarted => 0x08
  | .mdbSuccess => 0x09
  | .error => 0x80
  | .badPacket => 0x81
  | .invalidCrc => 0x82
  | .bufferOverflow => 0x83
  | .unknownCommand => 0x84
  | .corruption => 0x85
  | .notImplemented => 0x86
  | .mdbBusy => 0x88
  | .mdbInvalidChk => 0x89
  | .mdbNak => 0x8a
  | .mdbTimeout => 0x8b
  | .mdbInvalidEnd => 0x8c
  | .mdbReceiveOverflow => 0x8d
  | .mdbSendOverflow => 0x8e
  | .uartReadUnexpected => 0x90
  | .uartReadError => 0x91
  | .uartSendBusy => 0x92

def responseBeeBee : List UInt8 := [0xbe, 0xeb, 0xee]

structure TwiStat where
  noInfo : UInt8
  busError : UInt8
  srDataNack : UInt8
  srGcallDataNack : UInt8
  stDataNack : UInt8
  stLastData : UInt8
  srStop : UInt8
  outEmptySetLength : UInt8

def TwiStat.bytes (t : TwiStat) : List UInt8 :=
  [t.noInfo, t.busError, t.srDataNack, t.srGcallDataNack, t.stDataNack, t.stLastData, t.srStop,
    t.outEmptySetLength]

/-- What `main` is in: its loop, or one of the two endless loops that only the watchdog
ends. The one of `soft_reset` runs with interrupts off. -/
inductive Mode
  | running
  | softReset
  | stuck
  deriving DecidableEq, Repr

/-- What a run has done so far. No function of the firmware reads it. -/
structure History where
  /-- the responses appended to `master_out`, header and data -/
  emitted : List (Response × List UInt8)
  /-- the bytes written to `UDR0`, each with the ninth bit it went out with -/
  sent : List (UInt8 × Bool)
  /-- the bytes the UART received, each with its ninth bit, since it last began listening -/
  heard : List (UInt8 × Bool)

/-- The registers and variables of the firmware that its functions read or write. -/
structure Gate where
  mode : Mode
  mcusrSaved : UInt8
  -- TXB80, UDRIE0, TXCIE0 and TXEN0 of UCSR0B
  txb80 : Bool
  udrie0 : Bool
  txcie0 : Bool
  txen0 : Bool
  /-- the count it was started from; `none` is stopped -/
  timer0 : Option UInt8
  mdbState : MdbState
  mdbIn : Buffer mdbPacketSize
  mdbInChecksum : UInt8
  mdbInLastByte : UInt8
  mdbOut : Buffer mdbPacketSize
  mdbStateRetry : Bool
  /-- `none` is the code 0 -/
  mdbFastErrorCode : Option Response
  mdbFastErrorState : MdbState
  mdbFastErrorData : UInt8
  twiIdle : Bool
  twiIn : Buffer commandMaxLength
  masterOut : Buffer responseMaxLength
  twiOut : Buffer responseMaxLength
  twiStat : TwiStat
  twcr : UInt8
  twdr : UInt8
  history : History

namespace Gate

def timer0Stop (g : Gate) : Gate := { g with timer0 := none }

/-- The argument of `TCNT0 = 256 - ms * per_ms` is reduced to eight bits. -/
def timer0Set (ms : UInt8) (g : Gate) : Gate :=
  let perMs : UInt8 := 15
  { g with timer0 := some (0 - ms * perMs) }

def setUdr0 (data : UInt8) (g : Gate) : Gate :=
  { g with history := { g.history with sent := g.history.sent ++ [(data, g.txb80)] } }

def twiOutSet2 (header : Response) (data : UInt8) (g : Gate) : Gate :=
  let packetLength : UInt8 := 3 + 1
  let crc := crc8P93_3b packetLength header.code data
  { g with twiOut := g.twiOut.copy [packetLength, header.code, data, crc] }

/-- The part that `master_out_1` and `master_out_2` share. -/
def masterOutPacket (header : Response) (data packet : List UInt8) (packetLength : UInt8) (g : Gate) :
    Gate :=
  match g.masterOut.appendN packet with
  | some out =>
    { g with
      masterOut := out
      history := { g.history with emitted := g.history.emitted ++ [(header, data)] } }
  | none => g.twiOutSet2 .bufferOverflow packetLength

def masterOut1 (header : Response) (g : Gate) : Gate :=
  let packetLength : UInt8 := 3
  let crc := crc8P93_2b packetLength header.code
  g.masterOutPacket header [] [packetLength, header.code, crc] packetLength

def masterOut2 (header : Response) (data : UInt8) (g : Gate) : Gate :=
  let packetLength : UInt8 := 4
  let crc := crc8P93_3b packetLength header.code data
  g.masterOutPacket header [data] [packetLength, header.code, data, crc] packetLength

/-- The packet is appended byte by byte, and the checksum is taken over the data once more. -/
def masterOutN (header : Response) (data : List UInt8) (g : Gate) : Gate :=
  let packetLength : UInt8 := 3 + UInt8.ofNat data.length
  if g.masterOut.length + packetLength.toNat > responseMaxLength then
    g.twiOutSet2 .bufferOverflow packetLength
  else
    let out := (g.masterOut.append packetLength).getD g.masterOut
    let out := (out.append header.code).getD out
    let out := (out.appendN data).getD out
    let crc := crc8P93N (crc8P93_2b packetLength header.code) data
    let out := (out.append crc).getD out
    { g with
      masterOut := out
      history := { g.history with emitted := g.history.emitted ++ [(header, data)] } }

end Gate

end Vender.Firmware
