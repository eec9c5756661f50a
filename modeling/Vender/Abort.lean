import Vender.CoinState

namespace Vender

structure Dispensing where
  sum : Amount := 0
  requests : List (UInt8 × Option TxError) := []

namespace CoinState

/-- The body of the range in `Dispense`. -/
def dispenseVisit (hw : CoinAcceptor) (tx : Nominal → Option TxError) (nominal : Nominal)
    (count : UInt64) (d : Dispensing) : Dispensing × Option DispenseError :=
  if count = 0 then (d, none)
  else
    let (sent, err) := hw.commandDispense (tx nominal) nominal count.toUInt8
    let requests := d.requests ++ (sent.map fun request => (request, tx nominal)).toList
    match err with
    | none => ({ sum := d.sum + nominal * count.toUInt32, requests }, none)
    | some err => ({ d with requests }, some err)

def dispense (hw : CoinAcceptor) (tx : Nominal → Option TxError) (ng : NominalGroup)
    (order : List Nominal) : Dispensing × Option DispenseError :=
  ng.iter (dispenseVisit hw tx) order {}

def accepts (hw : CoinAcceptor) (tx : Nominal → Option TxError) (ng : NominalGroup)
    (n : Nominal) : Bool :=
  ng.values n = 0 ∨ (hw.commandDispense (tx n) n (ng.values n).toUInt8).2 = none

end CoinState

/-- What the changer has paid out on the accepted requests of a log. -/
def CoinAcceptor.paidOut (hw : CoinAcceptor) (requests : List (UInt8 × Option TxError)) : Nat :=
  ((requests.filter fun r => r.2.isNone).map fun r => hw.requestValue r.1).sum

def CoinAcceptor.asked (hw : CoinAcceptor) (requests : List (UInt8 × Option TxError)) (n : Nominal) : Nat :=
  ((requests.filter fun r => hw.coinTypeNominal (r.1 &&& 0xf) = n).map fun r =>
    (r.1 >>> 4 : UInt8).toNat).sum

inductive AbortError
  | dispense (err : DispenseError)
  | yetToReturn (total : Amount)
  deriving DecidableEq, Repr

namespace MoneySystem

/-- Everything `Abort` does not choose itself: the order of its two ranges over
the credit and the outcome of each DISPENSE transaction. -/
structure AbortEnv where
  totalRange : List Nominal
  iterRange : List Nominal
  tx : Nominal → Option TxError

structure AbortResult where
  credit : NominalGroup
  requests : List (UInt8 × Option TxError)
  err : Option AbortError

/-- `MoneySystem.Abort`, with what is yet to return if the coins do not add up to the credit. -/
def abort (hw : CoinAcceptor) (env : AbortEnv) (credit : NominalGroup) : AbortResult :=
  let total := credit.total env.totalRange
  match CoinState.dispense hw env.tx credit env.iterRange with
  | (d, some err) => { credit, requests := d.requests, err := some (.dispense err) }
  | (d, none) =>
    let left := total - d.sum
    { credit := credit.clear, requests := d.requests,
      err := if 0 < left then some (.yetToReturn left) else none }

end MoneySystem

namespace CoinAcceptor

@[simp] theorem paidOut_nil (hw : CoinAcceptor) : hw.paidOut [] = 0 := rfl

@[simp] theorem paidOut_append (hw : CoinAcceptor) (xs ys : List (UInt8 × Option TxError)) :
    hw.paidOut (xs ++ ys) = hw.paidOut xs + hw.paidOut ys := by
  simp [paidOut]

theorem paidOut_single (hw : CoinAcceptor) (request : UInt8) (tx : Option TxError) :
    hw.paidOut [(request, tx)] = if tx = none then hw.requestValue request else 0 := by
  cases tx <;> simp [paidOut]

@[simp] theorem asked_nil (hw : CoinAcceptor) (n : Nominal) : hw.asked [] n = 0 := rfl

@[simp] theorem asked_append (hw : CoinAcceptor) (xs ys : List (UInt8 × Option TxError)) (n : Nominal) :
    hw.asked (xs ++ ys) n = hw.asked xs n + hw.asked ys n := by
  simp [asked]

theorem asked_single (hw : CoinAcceptor) (request : UInt8) (tx : Option TxError) (n : Nominal) :
    hw.asked [(request, tx)] n =
      if hw.coinTypeNominal (request &&& 0xf) = n then (request >>> 4).toNat else 0 := by
  by_cases h : hw.coinTypeNominal (request &&& 0xf) = n <;> simp [asked, h]

theorem commandDispense_accepted {hw : CoinAcceptor} {tx : Option TxError} {n : Nominal}
    {count : UInt8} (h : (hw.commandDispense tx n count).2 = none) :
    ∃ request, hw.commandDispense tx n count = (some request, none) ∧ tx = none ∧ count < 16 ∧
      request >>> 4 = count ∧ hw.coinTypeNominal (request &&& 0xf) = n := by
  unfold commandDispense at h ⊢
  cases hr : hw.dispenseRequest n count with
  | error err => simp [hr] at h
  | ok request =>
    have htx : tx = none := by simpa [hr] using h
    exact ⟨request, by simp [htx], htx, dispenseRequest_ok hr⟩

end CoinAcceptor

namespace CoinState

theorem dispenseVisit_zero (hw : CoinAcceptor) (tx : Nominal → Option TxError) (n : Nominal)
    (d : Dispensing) : dispenseVisit hw tx n 0 d = (d, none) := rfl

/-- An accepted entry adds its full count to the sum, while the request asks for,
and the changer pays, only the count that fits a byte. -/
theorem dispenseVisit_accepted {hw : CoinAcceptor} {tx : Nominal → Option TxError} {ng : NominalGroup}
    {n : Nominal} (h : accepts hw tx ng n = true) (d : Dispensing) :
    ∃ sent, dispenseVisit hw tx n (ng.values n) d =
        ({ sum := d.sum + n * (ng.values n).toUInt32, requests := d.requests ++ sent }, none) ∧
      hw.paidOut sent = n.toNat * ((ng.values n).toNat % 256) ∧
      (∀ m, hw.asked sent m = if n = m then (ng.values n).toNat % 256 else 0) ∧
      (ng.values n).toNat % 256 < 16 := by
  by_cases zero : ng.values n = 0
  · rw [zero, dispenseVisit_zero]
    exact ⟨[], by simp, by simp, by simp, by simp⟩
  · have acc : (hw.commandDispense (tx n) n (ng.values n).toUInt8).2 = none := by
      simpa [accepts, zero] using h
    obtain ⟨request, hc, htx, small, hcount, hnominal⟩ := CoinAcceptor.commandDispense_accepted acc
    have coins : (ng.values n).toUInt8.toNat = (ng.values n).toNat % 256 := UInt64.toNat_toUInt8 _
    refine ⟨[(request, tx n)], by simp [dispenseVisit, zero, hc], ?_, fun m => ?_, ?_⟩
    · rw [CoinAcceptor.paidOut_single, if_pos htx, CoinAcceptor.requestValue, hcount, hnominal, coins]
    · rw [CoinAcceptor.asked_single, hcount, hnominal, coins]
    · rw [← coins]
      exact UInt8.lt_iff_toNat_lt.mp small

theorem dispenseVisit_refused {hw : CoinAcceptor} {tx : Nominal → Option TxError} {ng : NominalGroup}
    {n : Nominal} (h : accepts hw tx ng n = false) (d : Dispensing) :
    ∃ d' err, dispenseVisit hw tx n (ng.values n) d = (d', some err) ∧
      hw.paidOut d'.requests = hw.paidOut d.requests := by
  have acc : ng.values n ≠ 0 ∧ (hw.commandDispense (tx n) n (ng.values n).toUInt8).2 ≠ none := by
    simpa [accepts] using h
  obtain ⟨zero, refused⟩ := acc
  cases hc : hw.commandDispense (tx n) n (ng.values n).toUInt8 with
  | mk sent err =>
    cases err with
    | none => simp [hc] at refused
    | some err =>
      refine ⟨{ d with requests := d.requests ++ (sent.map fun request => (request, tx n)).toList }, err,
        by simp [dispenseVisit, zero, hc], ?_⟩
      -- a request whose transaction failed pays nothing
      unfold CoinAcceptor.commandDispense at hc
      split at hc
      next =>
        cases hc
        simp
      next request _ =>
        simp only [Prod.mk.injEq, Option.map_eq_some_iff] at hc
        obtain ⟨rfl, e, he, -⟩ := hc
        simp [CoinAcceptor.paidOut_single, he]

theorem iter_dispenseVisit (hw : CoinAcceptor) (tx : Nominal → Option TxError) (ng : NominalGroup)
    (order : List Nominal) (d : Dispensing) :
    ∃ d' err, ng.iter (dispenseVisit hw tx) order d = (d', err) ∧
      hw.paidOut d'.requests = hw.paidOut d.requests +
        ((order.takeWhile (accepts hw tx ng)).map fun n => n.toNat * ((ng.values n).toNat % 256)).sum ∧
      (err = none ↔ ∀ n ∈ order, accepts hw tx ng n = true) ∧
      (err = none → d'.sum = d.sum + ng.total order) := by
  induction order generalizing d with
  | nil => exact ⟨d, none, rfl, by simp, by simp, by simp [NominalGroup.total]⟩
  | cons n order ih =>
    cases ha : accepts hw tx ng n with
    | true =>
      obtain ⟨sent, hv, hpaid, _, _⟩ := dispenseVisit_accepted ha d
      obtain ⟨d', err, hi, hpaid', herr, hsum⟩ := ih
        { sum := d.sum + n * (ng.values n).toUInt32, requests := d.requests ++ sent }
      refine ⟨d', err, by simp [NominalGroup.iter, hv, hi], ?_, by simp [herr, ha], fun he => ?_⟩
      · rw [List.takeWhile_cons_of_pos ha, List.map_cons, List.sum_cons, hpaid', CoinAcceptor.paidOut_append,
          hpaid, Nat.add_assoc]
      · rw [hsum he, NominalGroup.total_eq_sum_map, NominalGroup.total_eq_sum_map, List.map_cons,
          List.sum_cons, add_assoc]
    | false =>
      obtain ⟨d', err, hv, hpaid⟩ := dispenseVisit_refused ha d
      exact ⟨d', some err, by simp [NominalGroup.iter, hv], by simp [ha, hpaid], by simp [ha], by simp⟩

end CoinState

end Vender
