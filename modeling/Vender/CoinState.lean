import Vender.CoinAcceptor

namespace Vender

inductive EventName
  | abort
  | credit
  | ping
  deriving DecidableEq, Repr

structure Event where
  name : EventName
  amount : Amount := 0
  deriving DecidableEq, Repr

namespace CoinState

def init (hw : CoinAcceptor) : NominalGroup :=
  NominalGroup.setValid hw.supportedNominals

theorem init_positive {hw : CoinAcceptor} {n : Nominal} (h : n ∈ (init hw).nominals) : n ≠ 0 := by
  simp only [init, NominalGroup.setValid_nominals, List.mem_toFinset,
    CoinAcceptor.supportedNominals, List.mem_filter, decide_eq_true_eq] at h
  exact UInt32.pos_iff_ne_zero.mp h.2

/-- The item handler of the coin poll loop: the credit afterwards and the event
it sends, or `none` for a status it leaves to the shared switch. -/
def handleItem (credit : NominalGroup) (pi : PollItem) : Option (NominalGroup × Option Event) :=
  match pi.status with
  | .dispensed => some (credit, none)
  | .returnRequest => some (credit, some { name := .abort })
  | .rejected => some (credit, none)
  | .wasReset => some (credit, none)
  | .credit =>
    let sent : Event := { name := .credit, amount := pi.amount }
    match credit.add pi.dataNominal pi.dataCount.toUInt64 with
    | .ok credit' => some (credit', some sent)
    | .error _ => some (credit, some sent)
  | _ => none

/-- One turn of the loop in `handlePollResult`; `none` is its panic on a status
that neither the device nor the shared switch takes. -/
def handlePollItem (credit : NominalGroup) (pi : PollItem) : Option (NominalGroup × Option Event) :=
  match handleItem credit pi with
  | some handled => some handled
  | none =>
    match pi.status with
    | .info => some (credit, none)
    | .error => some (credit, none)
    | .fatal => some (credit, none)
    | .busy => some (credit, none)
    | _ => none

def handlePollItems : NominalGroup → List PollItem → Option (NominalGroup × List Event)
  | credit, [] => some (credit, [])
  | credit, pi :: items => do
    let (credit', sent) ← handlePollItem credit pi
    let (credit'', events) ← handlePollItems credit' items
    pure (credit'', sent.toList ++ events)

def handlePollResult (credit : NominalGroup) (pr : PollResult) : Option (NominalGroup × List Event) :=
  if pr.singleStatus = .busy then some (credit, []) else handlePollItems credit pr.items

def pollResultLoop : NominalGroup → List PollResult → Option (NominalGroup × List Event)
  | credit, [] => some (credit, [])
  | credit, pr :: prs => do
    let (credit', events) ← handlePollResult credit pr
    let (credit'', events') ← pollResultLoop credit' prs
    pure (credit'', events ++ events')

/-- The switch on the status has a case for it. -/
def Handled (s : PollItemStatus) : Prop :=
  s ≠ .statusZero ∧ s ≠ .disabled ∧ s ≠ .escrow

theorem handlePollItem_of_not_credit (credit : NominalGroup) {pi : PollItem}
    (handled : Handled pi.status) (other : pi.status ≠ .credit) :
    handlePollItem credit pi =
      some (credit, if pi.status = .returnRequest then some { name := .abort } else none) := by
  obtain ⟨h0, h1, h2⟩ := handled
  unfold handlePollItem handleItem
  cases hs : pi.status with
  | statusZero => exact absurd hs h0
  | disabled => exact absurd hs h1
  | escrow => exact absurd hs h2
  | credit => exact absurd hs other
  | _ => rfl

theorem handlePollItem_of_credit (credit : NominalGroup) {pi : PollItem}
    (hs : pi.status = .credit) :
    ∃ credit', handlePollItem credit pi = some (credit', some { name := .credit, amount := pi.amount }) ∧
      (credit.add pi.dataNominal pi.dataCount.toUInt64 = .ok credit' ∨
        pi.dataNominal ∉ credit.nominals ∧ credit' = credit) := by
  unfold handlePollItem handleItem
  simp only [hs]
  cases ha : credit.add pi.dataNominal pi.dataCount.toUInt64 with
  | ok credit' => exact ⟨credit', rfl, Or.inl rfl⟩
  | error err => exact ⟨credit, rfl, Or.inr ⟨(NominalGroup.add_error ha).1, rfl⟩⟩

end CoinState

end Vender
