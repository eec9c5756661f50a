import Vender.AbortSteps
import Vender.CoinState

namespace Vender

/-- An `Abort` on the main thread while the coin poll loop credits coins;
`credited` is the exact value credited so far. -/
structure Arrivals where
  abort : Aborting
  credited : Nat

inductive ArrivalStep
  | abort (e : AbortStep)
  | item (pi : PollItem)

namespace Arrivals

def start (hw : CoinAcceptor) : Arrivals where
  abort := ⟨.entered, CoinState.init hw, []⟩
  credited := 0

/-- Either thread's next step, as long as no DISPENSE is refused. -/
def step (hw : CoinAcceptor) (s : Arrivals) : ArrivalStep → Option Arrivals
  | .abort e =>
    match s.abort.step hw e with
    | none => none
    | some abort => if abort.pc.refused then none else some { s with abort }
  | .item pi =>
    if pi.status = .credit then
      match CoinState.handlePollItem s.abort.credit pi with
      | none => none
      | some (credit, _) =>
        let coins := if pi.dataNominal ∈ s.abort.credit.nominals then pi.dataNominal.toNat * pi.dataCount.toNat else 0
        some { abort := { s.abort with credit }, credited := s.credited + coins }
    else none

/-- After the return nothing is lost and `total -= coinsReturned` did not wrap. -/
def Kept (hw : CoinAcceptor) (s : Arrivals) : Prop :=
  ∀ total coinsReturned err, s.abort.pc = .returned total coinsReturned err →
    (∀ order, s.abort.credit.IsRange order →
      s.abort.credit.total order + UInt32.ofNat (hw.paidOut s.abort.requests) = UInt32.ofNat s.credited) ∧
    coinsReturned ≤ total

/-- No valid coin is credited between reading the total and clearing the
credit, and no count is truncated on its way into a request. -/
def Undisturbed (s : Arrivals) : ArrivalStep → Arrivals → Prop
  | .item pi, _ => s.abort.pc.midway → pi.dataNominal ∈ s.abort.credit.nominals → pi.dataCount = 0
  | .abort .visit, _ => ∀ n ∈ s.abort.pc.next, (s.abort.credit.values n).toNat < 256
  | _, _ => True

instance (s : Arrivals) : (e : ArrivalStep) → (t : Arrivals) → Decidable (Undisturbed s e t)
  | .item _, _ => inferInstanceAs (Decidable (_ → _ → _))
  | .abort .visit, _ =>
    decidable_of_iff (s.abort.pc.next.all fun n => (s.abort.credit.values n).toNat < 256)
      (by simp [Undisturbed, Option.all_eq_true])
  | .abort (.readTotal _ _), _ => isTrue trivial
  | .abort .ready, _ => isTrue trivial
  | .abort (.tx _), _ => isTrue trivial
  | .abort .clear, _ => isTrue trivial
  | .abort .subtract, _ => isTrue trivial

structure Owes (credit : NominalGroup) (total sum : Amount) (due : List Nominal) (paid credited : Amount) : Prop where
  balance : credit.total due + paid = credited
  counted : sum + credit.total due = total

def Intact (hw : CoinAcceptor) (s : Arrivals) : Prop :=
  let credit := s.abort.credit
  let paid := UInt32.ofNat (hw.paidOut s.abort.requests)
  let credited := UInt32.ofNat s.credited
  match s.abort.pc with
  | .entered => credit.value + paid = credited
  | .walking w => Owes credit w.total w.sum w.rest paid credited
  | .awaitDispense w n count request | .sending w n count request =>
    Owes credit w.total w.sum (n :: w.rest) paid credited ∧ count = credit.values n ∧
      hw.requestValue request = n.toNat * count.toNat
  | .awaitReady w err => err = none ∧ Owes credit w.total w.sum w.rest paid credited
  | .clearing total coinsReturned => paid = credited ∧ coinsReturned = total
  | .subtracting total coinsReturned => credit.value + paid = credited ∧ coinsReturned = total
  | .returned total coinsReturned _ => credit.value + paid = credited ∧ coinsReturned = total

theorem kept_of_intact {hw : CoinAcceptor} {s : Arrivals} (h : Intact hw s) : Kept hw s := by
  intro total coinsReturned err hpc
  simp only [Intact, hpc] at h
  obtain ⟨balance, whole⟩ := h
  refine ⟨fun order ho => ?_, whole ▸ UInt32.le_refl _⟩
  rw [NominalGroup.total_eq_value ho]
  exact balance

theorem step_abort {hw : CoinAcceptor} {s t : Arrivals} {e : AbortStep} (h : step hw s (.abort e) = some t) :
    ∃ abort, Aborting.Took hw s.abort e abort ∧ abort.pc.refused = false ∧ t = { s with abort } := by
  simp only [step] at h
  split at h
  next => cases h
  next abort taken =>
    split at h
    next => cases h
    next accepted =>
      exact ⟨abort, Aborting.took_of_step taken, Bool.eq_false_iff.mpr accepted, (Option.some.inj h).symm⟩

theorem step_item {hw : CoinAcceptor} {s t : Arrivals} {pi : PollItem} (h : step hw s (.item pi) = some t) :
    ∃ credit coins, t = ⟨{ s.abort with credit }, s.credited + coins⟩ ∧
      credit.value = s.abort.credit.value + UInt32.ofNat coins ∧
      ((pi.dataNominal ∈ s.abort.credit.nominals → pi.dataCount = 0) → credit = s.abort.credit ∧ coins = 0) := by
  simp only [step] at h
  split at h
  next status =>
    obtain ⟨credit, handled, added | ⟨absent, rfl⟩⟩ := CoinState.handlePollItem_of_credit s.abort.credit status
    · obtain ⟨valid, put⟩ := NominalGroup.add_ok added
      simp only [handled, if_pos valid] at h
      refine ⟨credit, _, (Option.some.inj h).symm, ?_, fun quiet => ⟨?_, by simp [quiet valid]⟩⟩
      · rw [NominalGroup.value_add added]
        simp
      · ext m
        · rw [put, NominalGroup.put_nominals]
        · rw [put, NominalGroup.put_values, quiet valid]
          simp
    · simp only [handled, if_neg absent] at h
      exact ⟨s.abort.credit, _, (Option.some.inj h).symm, by simp, fun _ => ⟨rfl, rfl⟩⟩
  next => cases h

theorem requestValue_of_small {hw : CoinAcceptor} {n : Nominal} {count : UInt64} {request : UInt8}
    (ok : hw.dispenseRequest n count.toUInt8 = .ok request) (small : count.toNat < 256) :
    hw.requestValue request = n.toNat * count.toNat := by
  obtain ⟨_, hcount, hnominal⟩ := CoinAcceptor.dispenseRequest_ok ok
  rw [CoinAcceptor.requestValue, hcount, hnominal, UInt64.toNat_toUInt8, Nat.mod_eq_of_lt small]

theorem intact_abort {hw : CoinAcceptor} {s t : Arrivals} {e : AbortStep} (hs : step hw s (.abort e) = some t)
    (hi : Intact hw s) (hu : Undisturbed s (.abort e) t) : Intact hw t := by
  obtain ⟨abort, taken, accepted, rfl⟩ := step_abort hs
  obtain ⟨a, credited⟩ := s
  dsimp only at taken
  cases taken with
  | readTotal ht hr =>
    dsimp only [Intact] at hi ⊢
    rw [NominalGroup.total_eq_value ht]
    exact ⟨by rw [NominalGroup.total_eq_value hr]; exact hi, by rw [NominalGroup.total_eq_value hr, zero_add]⟩
  | finish =>
    obtain ⟨balance, counted⟩ := hi
    exact ⟨by simpa using balance, by simpa using counted⟩
  | skip zero =>
    obtain ⟨balance, counted⟩ := hi
    exact ⟨by simpa [zero] using balance, by simpa [zero] using counted⟩
  | refuse => cases accepted
  | request nonzero ok =>
    exact ⟨hi, rfl, requestValue_of_small ok (hu _ rfl)⟩
  | send => exact hi
  | @accept credit log total sum n rest count request =>
    obtain ⟨⟨balance, counted⟩, read, worth⟩ := hi
    dsimp only at read
    subst read
    simp only [NominalGroup.total_cons] at balance counted
    refine ⟨rfl, ?_, by dsimp only; rw [add_assoc]; exact counted⟩
    rw [CoinAcceptor.paidOut_append, CoinAcceptor.paidOut_single, if_pos rfl, worth, ← balance]
    simp
    ac_rfl
  | fail => cases accepted
  | resume => exact hi.2
  | giveUp => cases hi.1
  | clear => exact ⟨by simpa using hi.1, hi.2⟩
  | subtract => exact hi

theorem intact_item {hw : CoinAcceptor} {s t : Arrivals} {pi : PollItem} (hs : step hw s (.item pi) = some t)
    (hi : Intact hw s) (hu : Undisturbed s (.item pi) t) : Intact hw t := by
  obtain ⟨credit, coins, rfl, value, quiet_same⟩ := step_item hs
  obtain ⟨⟨pc, old, log⟩, credited⟩ := s
  dsimp only at value quiet_same
  have credits : old.value + UInt32.ofNat (hw.paidOut log) = UInt32.ofNat credited →
      credit.value + UInt32.ofNat (hw.paidOut log) = UInt32.ofNat (credited + coins) := by
    intro balance
    rw [value, UInt32.ofNat_add, ← balance]
    ac_rfl
  cases pc with
  | entered => exact credits hi
  | subtracting total coinsReturned => exact ⟨credits hi.1, hi.2⟩
  | returned total coinsReturned err => exact ⟨credits hi.1, hi.2⟩
  | _ =>
    obtain ⟨rfl, rfl⟩ := quiet_same (hu rfl)
    exact hi

/-- As long as no coin is credited between the total and the clear, an abort
loses nothing and does not wrap, however its steps interleave with the poll loop. -/
theorem abort_keeps_credit {hw : CoinAcceptor} {es : List ArrivalStep}
    (undisturbed : Runs.Along (step hw) Undisturbed (start hw) es) :
    Runs.Along (step hw) (fun _ _ t => Kept hw t) (start hw) es := by
  refine Runs.along_of_invariant (I := Intact hw) ?_ ?_ undisturbed
  · intro s e t hs hi hu
    have intact : Intact hw t := by
      cases e with
      | abort e => exact intact_abort hs hi hu
      | item pi => exact intact_item hs hi hu
    exact ⟨kept_of_intact intact, intact⟩
  · simp [Intact, start, CoinState.init, NominalGroup.value]

def coin (n : Nominal) : ArrivalStep :=
  .item { status := .credit, dataNominal := n, dataCount := 1 }

def coinsAround : List ArrivalStep :=
  [coin 2, .abort (.readTotal [1, 2] [2, 1]), .abort .visit, .abort .ready, .abort (.tx none), .abort .ready,
    .abort .visit, .abort .visit, .abort .clear, coin 1, .abort .subtract]

theorem abort_keeps_credit_coinsAround :
    Runs.Along (step twoCoinChanger) (fun _ _ t => Kept twoCoinChanger t) (start twoCoinChanger) coinsAround :=
  abort_keeps_credit (by decide)

def lateCoin : List ArrivalStep :=
  [coin 2, .abort (.readTotal [1, 2] [2, 1]), .abort .visit, .abort .ready, .abort (.tx none), coin 2,
    .abort .ready, .abort .visit, .abort .visit, .abort .clear, .abort .subtract]

def earlyCoin : List ArrivalStep :=
  [coin 2, .abort (.readTotal [1, 2] [2, 1]), coin 2, .abort .visit, .abort .ready, .abort (.tx none),
    .abort .ready, .abort .visit, .abort .visit, .abort .clear, .abort .subtract]

theorem kept_start (hw : CoinAcceptor) : Kept hw (start hw) :=
  fun _ _ _ h => nomatch h

/-- The late coin is cleared without having been paid, the early one makes the subtraction wrap. -/
theorem abort_loses_credit :
    ¬Runs.Along (step twoCoinChanger) (fun _ _ t => Kept twoCoinChanger t) (start twoCoinChanger) lateCoin ∧
      ¬Runs.Along (step twoCoinChanger) (fun _ _ t => Kept twoCoinChanger t) (start twoCoinChanger) earlyCoin := by
  refine ⟨fun h => ?_, fun h => ?_⟩
  · have kept := Runs.last_of_along h (kept_start _) (Option.some_get (by decide)).symm
    exact absurd ((kept _ _ _ rfl).1 [1, 2] (by decide)) (by decide)
  · have kept := Runs.last_of_along h (kept_start _) (Option.some_get (by decide)).symm
    exact absurd (kept _ _ _ rfl).2 (by decide)

end Arrivals

end Vender
