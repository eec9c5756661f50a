import Vender.Lib.Dialogue
import Vender.PollReady
import Vender.Setup

namespace Vender

/-- What `Tx` leaves a driver: the response, in a new packet, and the error. -/
abbrev TxReply := MdbPacket × Option MdbTxError

/-- What a driver does on the bus. It is answered by what `Tx` leaves, or `none` where `Tx` panics, and a
panic breaks it off. -/
abbrev DriverM := Dialogue MdbPacket TxResult

/-- Blocks, each with its answer. -/
abbrev Said := List (MdbPacket × TxResult)

inductive CommandError
  | tx (err : MdbTxError)
  | short (response : MdbPacket) (expectLength : Nat)
  | featureNotSupported
  | diagLength
  | dispense (err : DispenseError)
  deriving DecidableEq, Repr

def SetupError.command : SetupError → CommandError
  | .tx err => .tx err
  | .short response expectLength => .short response expectLength

/-- `errors.IsTimeout` of the error behind the annotations. -/
def CommandError.isTimeout (isTimeout : MdbTxError → Bool) : CommandError → Bool
  | .tx err => isTimeout err
  | _ => false

/-- `mdb.Tx`, which panics at a nil request, and where the Uarter does: at an answer that is longer than
the response. -/
def tx (request : Option MdbPacket) : DriverM TxReply :=
  match request with
  | none => .broken
  | some request => .ask request fun result =>
    match result with
    | none => .broken
    | some reply => .done reply

def putUint16 (n : UInt16) : List UInt8 := [(n >>> 8).toUInt8, n.toUInt8]

def putUint32 (n : UInt32) : List UInt8 :=
  [(n >>> 24).toUInt8, (n >>> 16).toUInt8, (n >>> 8).toUInt8, n.toUInt8]

def uint32be (a b c d : UInt8) : UInt32 :=
  d.toUInt32 ||| (c.toUInt32 <<< 8) ||| (b.toUInt32 <<< 16) ||| (a.toUInt32 <<< 24)

/-- `CoinAcceptor` with the field of its expansion commands. -/
structure CoinUnit extends CoinDriver where
  supportedFeatures : UInt32

/-- `BillValidator` with the field of its expansion commands. -/
structure BillUnit extends BillDriver where
  supportedFeatures : UInt32

/-- The words of a diagnostic status, none for an empty response, or an error. -/
def parseDiagResult : List UInt8 → Except CommandError (List UInt16)
  | [] => .ok []
  | [_] => .error .diagLength
  | a :: b :: rest =>
    match parseDiagResult rest with
    | .ok words => .ok (uint16be a b :: words)
    | .error err => .error err

namespace CoinUnit

def packetReset : MdbPacket := MdbPacket.new.writeAll [0x08]

def packetTubeStatus : MdbPacket := MdbPacket.new.writeAll [0x0a]

def packetPoll : MdbPacket := MdbPacket.new.writeAll [0x0b]

def packetExpIdent : MdbPacket := MdbPacket.new.writeAll [0x0f, 0x00]

def packetDiagStatus : MdbPacket := MdbPacket.new.writeAll [0x0f, 0x05]

def featureExtendedDiagnostic : UInt32 := 2

def commandReset : DriverM (Option CommandError) := do
  let (_, err) ← tx packetReset
  return err.map .tx

def commandSetup (self : CoinUnit) : DriverM (CoinUnit × Option CommandError) := do
  let reply ← tx CoinDriver.packetSetup
  match self.toCoinDriver.commandSetup (some reply) with
  | none => .broken
  | some (driver, err) => return ({ self with toCoinDriver := driver }, err.map SetupError.command)

/-- What is read of the tubes is only logged. -/
def commandTubeStatus : DriverM (Option CommandError) := do
  let (response, err) ← tx packetTubeStatus
  match err with
  | some err => return some (.tx err)
  | none => return if response.l < 2 then some (.short response 2) else none

def commandPoll (self : CoinUnit) (kind : MdbTxError → TxError) : DriverM (PollResult × Bool) := do
  let (response, err) ← tx packetPoll
  match err with
  | some err => return self.toCoinAcceptor.commandPoll (.error (kind err))
  | none => return self.toCoinAcceptor.commandPoll (.ok response.bytes)

def coinTypePacket (accept dispense : UInt16) : Option MdbPacket :=
  MdbPacket.packetFromBytes (0x0c :: putUint16 accept ++ putUint16 dispense)

def commandCoinType (accept dispense : UInt16) : DriverM (Option CommandError) := do
  let (_, err) ← tx (coinTypePacket accept dispense)
  return err.map .tx

def commandDispense (self : CoinUnit) (nominal : Nominal) (count : UInt8) : DriverM (Option CommandError) :=
  match self.dispenseRequest nominal count with
  | .error err => return some (.dispense err)
  | .ok request => do
    let (_, err) ← tx (MdbPacket.packetFromBytes [0x0d, request])
    return err.map .tx

/-- `CommandPayout`, where `/` truncates and a division by zero panics. -/
def commandPayout (self : CoinUnit) (amount : Amount) : DriverM (Option CommandError) :=
  if self.internalScalingFactor = 0 then .broken
  else do
    let (_, err) ← tx (MdbPacket.packetFromBytes
      [0x0f, 0x02, UInt8.ofInt (Int.tdiv (Int.tdiv amount.toNat 100) self.internalScalingFactor)])
    return err.map .tx

def commandExpansionIdentification (self : CoinUnit) : DriverM (CoinUnit × Option CommandError) := do
  let (response, err) ← tx packetExpIdent
  match err with
  | some err => return (self, some (.tx err))
  | none =>
    let bs := response.bytes
    if h : bs.length < 33 then return (self, some (.short response 33))
    else return ({ self with supportedFeatures := uint32be bs[29] bs[30] bs[31] bs[32] }, none)

/-- The result, where it is modified, and the error. -/
def commandExpansionSendDiagStatus (self : CoinUnit) : DriverM (Option (List UInt16) × Option CommandError) :=
  if self.supportedFeatures &&& featureExtendedDiagnostic = 0 then return (none, none)
  else do
    let (response, err) ← tx packetDiagStatus
    match err with
    | some err => return (none, some (.tx err))
    | none =>
      match parseDiagResult response.bytes with
      | .ok words => return (some words, none)
      | .error err => return (some [], some err)

def featurePacket (f : UInt32) : Option MdbPacket := MdbPacket.packetFromBytes ([0x0f, 0x01] ++ putUint32 f)

def commandFeatureEnable (self : CoinUnit) (requested : UInt32) : DriverM (Option CommandError) := do
  let (_, err) ← tx (featurePacket (requested &&& self.supportedFeatures))
  return err.map .tx

/-- `err != nil && !errors.IsTimeout(err)` -/
def fatal (isTimeout : MdbTxError → Bool) : Option CommandError → Bool
  | some err => !err.isTimeout isTimeout
  | none => false

def initSequence (isTimeout : MdbTxError → Bool) (self : CoinUnit) : DriverM (CoinUnit × Option CommandError) := do
  let (self, err) ← self.commandSetup
  if err.isSome then return (self, err)
  let (self, err) ← self.commandExpansionIdentification
  if fatal isTimeout err then return (self, err)
  let err ← self.commandFeatureEnable featureExtendedDiagnostic
  if fatal isTimeout err then return (self, err)
  let (_, err) ← self.commandExpansionSendDiagStatus
  if fatal isTimeout err then return (self, err)
  let err ← commandTubeStatus
  if err.isSome then return (self, err)
  let err ← commandCoinType 0xffff 0xffff
  if err.isSome then return (self, err)
  return (self, none)

def init (isTimeout : MdbTxError → Bool) (self : CoinUnit) : DriverM (CoinUnit × Option CommandError) :=
  initSequence isTimeout { self with toCoinDriver := self.toCoinDriver.init }

end CoinUnit

namespace BillUnit

def packetReset : MdbPacket := MdbPacket.new.writeAll [0x30]

def packetPoll : MdbPacket := MdbPacket.new.writeAll [0x33]

def packetStacker : MdbPacket := MdbPacket.new.writeAll [0x36]

def packetExpIdent : MdbPacket := MdbPacket.new.writeAll [0x37, 0x00]

def packetExpIdentOptions : MdbPacket := MdbPacket.new.writeAll [0x37, 0x02]

def commandReset : DriverM (Option CommandError) := do
  let (_, err) ← tx packetReset
  return err.map .tx

def commandSetup (self : BillUnit) : DriverM (BillUnit × Option CommandError) := do
  let reply ← tx BillDriver.packetSetup
  match self.toBillDriver.commandSetup (some reply) with
  | none => .broken
  | some (driver, err) => return ({ self with toBillDriver := driver }, err.map SetupError.command)

def commandPoll (self : BillUnit) (kind : MdbTxError → TxError) : DriverM (PollResult × Bool) := do
  let (response, err) ← tx packetPoll
  match err with
  | some err => return self.toBillValidator.commandPoll (.error (kind err))
  | none => return self.toBillValidator.commandPoll (.ok response.bytes)

def commandStacker : DriverM (Option CommandError) := do
  let (_, err) ← tx packetStacker
  return err.map .tx

def billTypePacket (accept escrow : UInt16) : Option MdbPacket :=
  MdbPacket.packetFromBytes (0x34 :: putUint16 accept ++ putUint16 escrow)

def commandBillType (accept escrow : UInt16) : DriverM (Option CommandError) := do
  let (_, err) ← tx (billTypePacket accept escrow)
  return err.map .tx

def commandExpansionIdentification : DriverM (Option CommandError) := do
  let (response, err) ← tx packetExpIdent
  match err with
  | some err => return some (.tx err)
  | none => return if response.l < 29 then some (.short response 29) else none

def commandFeatureEnable (self : BillUnit) (requested : UInt32) : DriverM (Option CommandError) := do
  let (_, err) ← tx (MdbPacket.packetFromBytes ([0x37, 0x01] ++ putUint32 (requested &&& self.supportedFeatures)))
  return err.map .tx

def commandExpansionIdentificationOptions (self : BillUnit) : DriverM (BillUnit × Option CommandError) :=
  if self.featureLevel < 2 then return (self, some .featureNotSupported)
  else do
    let (response, err) ← tx packetExpIdentOptions
    match err with
    | some err => return (self, some (.tx err))
    | none =>
      let bs := response.bytes
      if h : bs.length < 33 then return (self, some (.short response 33))
      else return ({ self with supportedFeatures := uint32be bs[29] bs[30] bs[31] bs[32] }, none)

def initSequence (self : BillUnit) : DriverM (BillUnit × Option CommandError) := do
  let (self, err) ← self.commandSetup
  if err.isSome then return (self, err)
  let (self, err) ← self.commandExpansionIdentificationOptions
  if err = some .featureNotSupported then
    let err ← commandExpansionIdentification
    if err.isSome then return (self, err)
  else if err.isSome then return (self, err)
  let err ← commandStacker
  if err.isSome then return (self, err)
  let err ← commandBillType 0xffff 0
  if err.isSome then return (self, err)
  return (self, none)

def init (self : BillUnit) : DriverM (BillUnit × Option CommandError) :=
  initSequence { self with toBillDriver := self.toBillDriver.init }

end BillUnit

/-- `evend.DeviceGeneric` -/
structure DeviceGeneric where
  address : UInt8
  setupResponse : List UInt8 := []
  deriving DecidableEq

namespace DeviceGeneric

def commandReset (self : DeviceGeneric) : DriverM (Option MdbTxError) := do
  let (_, err) ← tx (MdbPacket.packetFromBytes [self.address + 0])
  return err

def commandSetup (self : DeviceGeneric) : DriverM (DeviceGeneric × Option MdbTxError) := do
  let (response, err) ← tx (MdbPacket.packetFromBytes [self.address + 1])
  match err with
  | some err => return (self, some err)
  | none => return ({ self with setupResponse := response.bytes }, none)

def commandAction (self : DeviceGeneric) (args : List UInt8) : DriverM (Option MdbTxError) := do
  let (_, err) ← tx (MdbPacket.packetFromBytes ((self.address + 2) :: args))
  return err

def poll (self : DeviceGeneric) : DriverM (Option MdbTxError × Bool) := do
  let (response, err) ← tx (MdbPacket.packetFromBytes [self.address + 3])
  return commandPoll ⟨response.bytes, err⟩

def init (address : UInt8) : DriverM (DeviceGeneric × Option MdbTxError) := do
  let self : DeviceGeneric := { address }
  let err ← self.commandReset
  if err.isSome then return (self, err)
  self.commandSetup

end DeviceGeneric

end Vender
