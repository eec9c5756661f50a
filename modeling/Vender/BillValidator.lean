import Vender.CoinState

namespace Vender

structure BillValidator where
  billTypeCredit : Vector Nominal 16

namespace BillValidator

def delayNext : Nat := 200

def delayErr : Nat := 500

def billTypeNominal (hw : BillValidator) (b : UInt8) : Nominal :=
  if h : b.toNat < 16 then hw.billTypeCredit[b.toNat] else 0

def pollItemCase (b : UInt8) : Option PollItem :=
  match b with
  | 0x01 => some { status := .fatal, error := some .defectiveMotor }
  | 0x02 => some { status := .fatal, error := some .sensor }
  | 0x03 => some { status := .busy }
  | 0x04 => some { status := .fatal, error := some .romChecksum }
  | 0x05 => some { status := .fatal, error := some .jam }
  | 0x06 => some { status := .wasReset }
  | 0x07 => some { status := .error, error := some .billRemoved }
  | 0x08 => some { status := .fatal, error := some .noStorage }
  | 0x09 => some { status := .disabled }
  | 0x0a => some { status := .error, error := some .escrowImpossible }
  | 0x0b => some { status := .rejected }
  | 0x0c => some { status := .error, error := some .fraud }
  | _ => none

def parsePollItem (hw : BillValidator) (b : UInt8) : PollItem :=
  match pollItemCase b with
  | some pi => pi
  | none =>
    if b &&& 0x8f = b then
      { status := .credit, dataNominal := hw.billTypeNominal (b &&& 0xf) }
    else if b &&& 0x9f = b then
      { status := .escrow, dataNominal := hw.billTypeNominal (b &&& 0xf) }
    else if b &&& 0x5f = b then
      { status := .info, error := some .attempts, dataCount := b &&& 0x1f }
    else { status := .fatal, error := some (.unknown b) }

/-- The result and whether the ready signal was set. -/
def commandPoll (hw : BillValidator) : Except TxError (List UInt8) → PollResult × Bool
  | .error err => ({ delay := delayErr, error := some err }, false)
  | .ok [] => ({ delay := delayNext }, true)
  | .ok bs => ({ delay := delayNext, items := bs.map hw.parsePollItem }, false)

theorem commandPoll_items (hw : BillValidator) (bs : List UInt8) :
    (hw.commandPoll (.ok bs)).1.items = bs.map hw.parsePollItem := by
  cases bs <;> rfl

end BillValidator

/-- The item handler of the bill poll loop, `none` for a status it leaves to the shared
switch. `initSequence` is what the set-up answers make of the validator. -/
def BillState.handleItem (initSequence : BillValidator → BillValidator) (hw : BillValidator)
    (pi : PollItem) : Option (BillValidator × Option Event) :=
  match pi.status with
  | .rejected => some (hw, none)
  | .disabled => some (hw, none)
  | .escrow => some (hw, none)
  | .wasReset => some (initSequence hw, none)
  | .busy => some (hw, none)
  | _ => none

end Vender
