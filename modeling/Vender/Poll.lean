import Vender.Currency

namespace Vender

inductive PollItemStatus
  | statusZero
  | info
  | error
  | fatal
  | disabled
  | busy
  | wasReset
  | credit
  | rejected
  | escrow
  | returnRequest
  | dispensed
  deriving DecidableEq, Repr

inductive PollError
  | noCredit
  | doubleArrival
  | coinRouting
  | coinJam
  | slugs
  | sensor
  | noStorage
  | jam
  | romChecksum
  | fraud
  | defectiveMotor
  | billRemoved
  | escrowImpossible
  | attempts
  | routingNotUsed (b : UInt8) (nominal : Nominal)
  | unknown (b : UInt8)
  deriving DecidableEq, Repr

structure PollItem where
  status : PollItemStatus := .statusZero
  error : Option PollError := none
  dataNominal : Nominal := 0
  dataCount : UInt8 := 0
  dataCashbox : Bool := false
  deriving DecidableEq, Repr

/-- An item without a count stands for one piece. -/
def PollItem.amount (pi : PollItem) : Amount :=
  let c := if pi.dataCount = 0 then 1 else pi.dataCount
  pi.dataNominal * c.toUInt32

/-- What went wrong with an MDB transaction, as `mdb.Tx` reports it. -/
inductive TxError
  | timeout
  | other
  deriving DecidableEq, Repr

/-- What a poll of a money device came to: the error, or an item for each byte of the answer. -/
structure PollResult where
  error : Option TxError := none
  delay : Nat := 0
  items : List PollItem := []
  deriving DecidableEq, Repr

namespace PollResult

def hasStatus (pr : PollResult) (s : PollItemStatus) : Bool :=
  pr.items.any fun pi => pi.status = s

def ready (pr : PollResult) : Bool :=
  if pr.error.isSome then false else !pr.hasStatus .busy

/-- The status of a result of one item, and that of no item otherwise. -/
def singleStatus (pr : PollResult) : PollItemStatus :=
  match pr.items with
  | [pi] => pi.status
  | _ => .statusZero

end PollResult

end Vender
