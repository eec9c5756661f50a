import Vender.Firmware.Mdb

namespace Vender.Firmware

/-- What `twi_step` finds outside the firmware's own variables: the memory around
`twi_in_data`, by offset from its start; the UDRE0 flag, when the command at an offset asks
for it; and how many turns of the packet loop the watchdog lets pass. -/
structure Surroundings where
  memory : Int → UInt8
  sendReady : Nat → Bool
  patience : Nat

namespace Gate

theorem toNat_lt_commandMaxLength {offset : Int} (inside : 0 ≤ offset ∧ offset < commandMaxLength) :
    offset.toNat < commandMaxLength := by omega

/-- The byte at an offset from the start of `twi_in_data`, which is not checked against
the array's bounds. -/
def peek (env : Surroundings) (g : Gate) (offset : Int) : UInt8 :=
  if inside : 0 ≤ offset ∧ offset < commandMaxLength then
    g.twiIn.read offset.toNat (toNat_lt_commandMaxLength inside)
  else
    env.memory offset

def memsum (src : List UInt8) : UInt8 := src.foldl (· + ·) 0

def debugStatus (g : Gate) : List UInt8 :=
  let used := [77, 1, g.mdbState.code, 84, 8] ++ g.twiStat.bytes ++ [85, g.mcusrSaved]
  used ++ List.replicate (40 - used.length) 0

def mdbBusReset (data : List UInt8) (g : Gate) : Gate :=
  if data.length ≠ 2 then
    g.masterOut1 .badPacket
  else if g.mdbState ≠ .idle then
    g.masterOut1 .mdbBusy
  else
    let duration : UInt16 := (data.getD 0 0).toUInt16 <<< 8 ||| (data.getD 1 0).toUInt16
    let g := { g with mdbState := .busReset, txen0 := false }
    (g.timer0Set duration.toUInt8).masterOut1 .mdbStarted

def mdbTransactionSimple (ready : Bool) (data : List UInt8) (g : Gate) : Gate :=
  if g.mdbState ≠ .idle then
    g.masterOut1 .mdbBusy
  else
    -- a block that does not fit is not appended, and the checksum then stands alone
    let out := g.mdbOut.clearFull
    let out := (out.appendN data).getD out
    let out := (out.append (memsum data)).getD out
    (mdbStartSend ready { g with mdbOut := out }).masterOut1 .mdbStarted

def dispatch (ready : Bool) (header length : UInt8) (data : List UInt8) (g : Gate) : Gate :=
  match Command.ofByte header with
  | some .poll => if length ≠ 3 then g.masterOut2 .badPacket 1 else g
  | some .config => masterOut1 .notImplemented { g with mcusrSaved := 0 }
  | some .reset => { g with mode := .softReset }
  | some .debug => g.masterOutN .debug g.debugStatus
  | some .flash => { g with mode := .stuck }
  | some .mdbBusReset => g.mdbBusReset data
  | some .mdbTransactionSimple => g.mdbTransactionSimple ready data
  | some .mdbTransactionCustom => g.masterOut1 .notImplemented
  | none => g.masterOut1 .unknownCommand

/-- `master_command(src, max_length)` with `src` as an offset, and the count it returns. -/
def masterCommand (env : Surroundings) (src : Nat) (maxLength : UInt8) (g : Gate) : Gate × UInt8 :=
  let bs := fun k : Int => g.peek env (src + k)
  let length := bs 0
  if maxLength < 3 then
    (g.masterOut2 .badPacket 0, maxLength)
  else if length > maxLength then
    (g.masterOut2 .badPacket 0, length)
  else
    let crcIn := bs ((length.toNat : Int) - 1)
    let crcLocal := crc8P93N 0 ((List.range (length - 1).toNat).map fun k : Nat => bs k)
    if crcIn ≠ crcLocal then
      (g.masterOut2 .invalidCrc crcIn, length)
    else
      let data := (List.range (length - 3).toNat).map fun k : Nat => bs (2 + k)
      (g.dispatch (env.sendReady src) (bs 1) length data, length)

end Gate

end Vender.Firmware
