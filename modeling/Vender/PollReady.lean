import Vender.BillValidator

namespace Vender

/-- What a call of `mdb.Tx` leaves for its caller: the bytes of the response, also where
it fails, and the error. -/
structure TxOutcome (ε : Type) where
  bytes : List UInt8
  err : Option ε
  deriving DecidableEq, Repr

def TxOutcome.reply {ε : Type} (tx : TxOutcome ε) : Except ε (List UInt8) :=
  match tx.err with
  | some err => .error err
  | none => .ok tx.bytes

def DeviceGeneric.commandPoll {ε : Type} (tx : TxOutcome ε) : Option ε × Bool :=
  if tx.bytes.length = 0 then (none, true) else (tx.err, false)

inductive PollDriver
  | coin (hw : CoinAcceptor)
  | bill (hw : BillValidator)
  | generic

namespace PollDriver

/-- The error that a poll reports, and whether the ready signal was set. -/
def commandPoll (driver : PollDriver) (tx : TxOutcome TxError) : Option TxError × Bool :=
  match driver with
  | .coin hw => ((hw.commandPoll tx.reply).1.error, (hw.commandPoll tx.reply).2)
  | .bill hw => ((hw.commandPoll tx.reply).1.error, (hw.commandPoll tx.reply).2)
  | .generic => DeviceGeneric.commandPoll tx

/-- Ready follows success only, and an error is reported. -/
structure ReadyAfterSuccess (driver : PollDriver) (tx : TxOutcome TxError) : Prop where
  ready : (driver.commandPoll tx).2 = true → tx.err = none
  reported : ∀ err, tx.err = some err → (driver.commandPoll tx).1 = some err

variable {driver : PollDriver} {tx : TxOutcome TxError}

theorem readyAfterSuccess_of_ok (ok : tx.err = none) : ReadyAfterSuccess driver tx where
  ready := fun _ => ok
  reported := by
    intro err failed
    cases ok.symm.trans failed

theorem readyAfterSuccess_of_reported (kept : driver.commandPoll tx = (tx.err, false)) :
    ReadyAfterSuccess driver tx where
  ready := by
    rw [kept]
    intro ready
    cases ready
  reported := by
    rw [kept]
    exact fun _ failed => failed

/-- A poll keeps the contract exactly if it is not the generic driver's with an error and
no bytes. -/
theorem readyAfterSuccess_iff (driver : PollDriver) (tx : TxOutcome TxError) :
    ReadyAfterSuccess driver tx ↔ ¬(driver = .generic ∧ tx.err ≠ none ∧ tx.bytes = []) := by
  obtain ⟨bytes, err⟩ := tx
  cases err with
  | none => exact iff_of_true (readyAfterSuccess_of_ok rfl) fun h => h.2.1 rfl
  | some err =>
    cases driver with
    | coin hw => exact iff_of_true (readyAfterSuccess_of_reported rfl) fun h => by cases h.1
    | bill hw => exact iff_of_true (readyAfterSuccess_of_reported rfl) fun h => by cases h.1
    | generic =>
      cases bytes with
      | nil =>
        refine iff_of_false (fun contract => ?_) fun h => h ⟨rfl, by simp, rfl⟩
        cases contract.ready rfl
      | cons b bytes => exact iff_of_true (readyAfterSuccess_of_reported rfl) fun h => by cases h.2.2

theorem generic_timeout_is_ready : ¬ReadyAfterSuccess .generic ⟨[], some .timeout⟩ := by
  rintro ⟨ready, _⟩
  cases ready rfl

end PollDriver

end Vender
