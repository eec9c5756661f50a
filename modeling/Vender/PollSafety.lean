import Vender.BillValidator
import Vender.PollCredit

namespace Vender

namespace Hardware

variable {σ : Type} (customItem : σ → PollItem → Option (σ × Option Event))

/-- One turn of the loop in `handlePollResult`, for any device; `none` is its panic. -/
def handlePollItem (s : σ) (pi : PollItem) : Option (σ × Option Event) :=
  match customItem s pi with
  | some handled => some handled
  | none =>
    match pi.status with
    | .info => some (s, none)
    | .error => some (s, none)
    | .fatal => some (s, none)
    | .busy => some (s, none)
    | _ => none

def handlePollItems : σ → List PollItem → Option (σ × List Event)
  | s, [] => some (s, [])
  | s, pi :: items => do
    let (s', sent) ← handlePollItem customItem s pi
    let (s'', events) ← handlePollItems s' items
    pure (s'', sent.toList ++ events)

def handlePollResult (s : σ) (pr : PollResult) : Option (σ × List Event) :=
  if pr.singleStatus = .busy then some (s, []) else handlePollItems customItem s pr.items

variable {customItem}

theorem handlePollItems_isSome {Takes : PollItem → Prop}
    (takes : ∀ s pi, (handlePollItem customItem s pi).isSome ↔ Takes pi) (s : σ)
    (items : List PollItem) :
    (handlePollItems customItem s items).isSome ↔ ∀ pi ∈ items, Takes pi := by
  induction items generalizing s with
  | nil => simp [handlePollItems]
  | cons pi items ih =>
    have one := takes s pi
    simp only [handlePollItems, Option.bind_eq_bind, List.forall_mem_cons]
    cases h : handlePollItem customItem s pi with
    | none =>
      rw [h] at one
      simp only [Option.bind_none, Option.isSome_none, Bool.false_eq_true, false_iff]
      exact fun all => absurd (one.mpr all.1) (by simp)
    | some handled =>
      rw [h] at one
      have rest := ih handled.1
      simp only [Option.isSome_some, true_iff] at one
      simp only [Option.bind_some, one, true_and, ← rest]
      cases handlePollItems customItem handled.1 items <;> simp

theorem handlePollResult_isSome {Takes : PollItem → Prop}
    (takes : ∀ s pi, (handlePollItem customItem s pi).isSome ↔ Takes pi)
    (busy : ∀ pi : PollItem, pi.status = .busy → Takes pi) (s : σ) (pr : PollResult) :
    (handlePollResult customItem s pr).isSome ↔ ∀ pi ∈ pr.items, Takes pi := by
  unfold handlePollResult
  split
  next single =>
    simp only [Option.isSome_some, true_iff]
    unfold PollResult.singleStatus at single
    split at single
    next pi items =>
      intro p hp
      rw [items, List.mem_singleton] at hp
      exact hp ▸ busy pi single
    next => cases single
  next => exact handlePollItems_isSome takes s pr.items

end Hardware

namespace CoinAcceptor

/-- The switch on the routing with its `default` branch: `none` is the "code error" panic. -/
def routeItem (b : UInt8) (pi : PollItem) : Option PollItem :=
  let routing := (b >>> 4) &&& 3
  if routing = 0 then some { pi with status := .credit, dataCashbox := true }
  else if routing = 1 then some { pi with status := .credit }
  else if routing = 2 then
    some { pi with status := .error, error := some (.routingNotUsed b pi.dataNominal) }
  else if routing = 3 then some { pi with status := .rejected }
  else none

def parsePollItemChecked (hw : CoinAcceptor) (b _b2 : UInt8) : Option (PollItem × Bool) :=
  match pollItemCase b with
  | some pi => some (pi, false)
  | none =>
    if b >>> 5 = 1 then
      some ({ status := .info, error := some .slugs, dataCount := b &&& 0x1f }, false)
    else if b >>> 6 = 1 then
      let pi : PollItem := { dataNominal := hw.coinTypeNominal (b &&& 0xf), dataCount := 1 }
      (routeItem b pi).map fun pi => (pi, true)
    else if b &&& 0x80 ≠ 0 then
      some ({ status := .dispensed, dataNominal := hw.coinTypeNominal (b &&& 0xf),
              dataCount := (b >>> 4) &&& 7 }, true)
    else some ({ status := .fatal, error := some (.unknown b) }, false)

def pollItemsChecked (hw : CoinAcceptor) : Bool → List UInt8 → Option (List PollItem)
  | _, [] => some []
  | true, _ :: bs => hw.pollItemsChecked false bs
  | false, b :: bs => do
    let (pi, skip) ← hw.parsePollItemChecked b (bs.headD 0)
    let items ← hw.pollItemsChecked skip bs
    pure (pi :: items)

def commandPollChecked (hw : CoinAcceptor) : Except TxError (List UInt8) → Option PollResult
  | .error err => some { delay := delayErr, error := some err }
  | .ok [] => some { delay := delayNext }
  | .ok bs => do
    let items ← hw.pollItemsChecked false bs
    pure { delay := delayNext, items := items }

theorem routing_lt (b : UInt8) : ((b >>> 4) &&& 3).toNat < 4 := by
  rw [UInt8.toNat_and]
  change _ &&& 2 ^ 2 - 1 < 4
  rw [Nat.and_two_pow_sub_one_eq_mod]
  omega

/-- Two bits leave no fifth routing. -/
theorem routeItem_eq (hw : CoinAcceptor) (b : UInt8) :
    routeItem b { dataNominal := hw.coinTypeNominal (b &&& 0xf), dataCount := 1 } =
      some (hw.depositedItem b) := by
  have two := routing_lt b
  unfold routeItem depositedItem CoinRouting.ofBits
  by_cases h0 : (b >>> 4) &&& 3 = 0
  · simp [h0]
  · by_cases h1 : (b >>> 4) &&& 3 = 1
    · simp [h1]
    · by_cases h2 : (b >>> 4) &&& 3 = 2
      · simp [h2]
      · have h3 : (b >>> 4) &&& 3 = 3 := by
          have n0 := mt UInt8.toNat_inj.mp h0
          have n1 := mt UInt8.toNat_inj.mp h1
          have n2 := mt UInt8.toNat_inj.mp h2
          change _ ≠ 0 at n0
          change _ ≠ 1 at n1
          change _ ≠ 2 at n2
          rw [← UInt8.toNat_inj]
          change _ = 3
          omega
        simp [h3]

theorem parsePollItemChecked_eq (hw : CoinAcceptor) (b b2 : UInt8) :
    hw.parsePollItemChecked b b2 = some (hw.parsePollItem b b2) := by
  unfold parsePollItemChecked parsePollItem
  cases pollItemCase b with
  | some pi => rfl
  | none =>
    simp only [routeItem_eq, Option.map_some]
    split
    · rfl
    · split
      · rfl
      · split <;> rfl

theorem pollItemsChecked_eq (hw : CoinAcceptor) (skip : Bool) (bs : List UInt8) :
    hw.pollItemsChecked skip bs = some (hw.pollItems skip bs) := by
  induction bs generalizing skip with
  | nil => cases skip <;> rfl
  | cons b bs ih =>
    cases skip with
    | true => exact ih false
    | false => simp [pollItemsChecked, pollItems, parsePollItemChecked_eq, ih]

theorem commandPollChecked_eq (hw : CoinAcceptor) (response : Except TxError (List UInt8)) :
    hw.commandPollChecked response = some (hw.commandPoll response).1 := by
  unfold commandPollChecked commandPoll
  split
  · rfl
  · rfl
  · simp [pollItemsChecked_eq]

theorem pollItems_handled (hw : CoinAcceptor) (bs : List UInt8) :
    ∀ pi ∈ hw.pollItems false bs, CoinState.Handled pi.status := by
  intro pi hpi
  rw [pollItems_tokens] at hpi
  obtain ⟨b, _, rfl⟩ := List.mem_map.mp hpi
  exact (hw.tokenItem_spec b).1

theorem commandPoll_items (hw : CoinAcceptor) (bs : List UInt8) :
    (hw.commandPoll (.ok bs)).1.items = hw.pollItems false bs := by
  cases bs <;> rfl

end CoinAcceptor

theorem CoinState.handlePollItem_isSome (credit : NominalGroup) (pi : PollItem) :
    (Hardware.handlePollItem CoinState.handleItem credit pi).isSome ↔ CoinState.Handled pi.status := by
  unfold Hardware.handlePollItem CoinState.handleItem CoinState.Handled
  cases pi.status with
  | credit => cases credit.add pi.dataNominal pi.dataCount.toUInt64 <;> simp
  | _ => simp

/-- The statuses that the bill handler or the shared switch takes. -/
def BillState.Handled (s : PollItemStatus) : Prop :=
  s ≠ .statusZero ∧ s ≠ .credit ∧ s ≠ .returnRequest ∧ s ≠ .dispensed

theorem BillState.handlePollItem_isSome (initSequence : BillValidator → BillValidator)
    (hw : BillValidator) (pi : PollItem) :
    (Hardware.handlePollItem (BillState.handleItem initSequence) hw pi).isSome ↔
      BillState.Handled pi.status := by
  unfold Hardware.handlePollItem BillState.handleItem BillState.Handled
  cases pi.status <;> simp

/-- The coin loop is the shared one with the coin handler. -/
theorem CoinState.handlePollResult_eq (credit : NominalGroup) (pr : PollResult) :
    CoinState.handlePollResult credit pr = Hardware.handlePollResult CoinState.handleItem credit pr := by
  have items : ∀ items : List PollItem, ∀ credit, CoinState.handlePollItems credit items =
      Hardware.handlePollItems CoinState.handleItem credit items := by
    intro items
    induction items with
    | nil => exact fun _ => rfl
    | cons pi items ih =>
      intro credit
      have one : CoinState.handlePollItem credit pi =
          Hardware.handlePollItem CoinState.handleItem credit pi := by
        unfold CoinState.handlePollItem Hardware.handlePollItem
        cases CoinState.handleItem credit pi <;> rfl
      simp only [CoinState.handlePollItems, Hardware.handlePollItems, ih, one]
  unfold CoinState.handlePollResult Hardware.handlePollResult
  rw [items]

namespace BillValidator

/-- The bytes that `parsePollItem` takes for a stacked bill. -/
def Stacked (b : UInt8) : Prop := pollItemCase b = none ∧ b &&& 0x8f = b

instance (b : UInt8) : Decidable (Stacked b) := inferInstanceAs (Decidable (_ ∧ _))

theorem pollItemCase_handled {b : UInt8} {pi : PollItem} (h : pollItemCase b = some pi) :
    BillState.Handled pi.status := by
  unfold pollItemCase at h
  split at h
  all_goals first
    | cases h; done
    | cases Option.some.inj h; simp [BillState.Handled]

/-- A stacked bill is reported as a credit, which nobody on the bill side takes. -/
theorem parsePollItem_handled (hw : BillValidator) (b : UInt8) :
    BillState.Handled (hw.parsePollItem b).status ↔ ¬ Stacked b := by
  unfold parsePollItem Stacked
  cases h : pollItemCase b with
  | some pi => simp [pollItemCase_handled h]
  | none =>
    by_cases stacked : b &&& 0x8f = b
    · simp [stacked, BillState.Handled]
    · by_cases escrow : b &&& 0x9f = b
      · simp [stacked, escrow, BillState.Handled]
      · by_cases attempts : b &&& 0x5f = b <;> simp [stacked, escrow, attempts, BillState.Handled]

end BillValidator

inductive Device
  | coin (hw : CoinAcceptor) (credit : NominalGroup)
  | bill (hw : BillValidator)

namespace Device

/-- One answer to POLL taken through the device's `CommandPoll` and `handlePollResult`;
`none` is a panic of either. -/
def handlePoll (initSequence : BillValidator → BillValidator) (bs : List UInt8) :
    Device → Option (Device × List Event)
  | coin hw credit => do
    let pr ← hw.commandPollChecked (.ok bs)
    let (credit', events) ← Hardware.handlePollResult CoinState.handleItem credit pr
    pure (coin hw credit', events)
  | bill hw => do
    let pr := (hw.commandPoll (.ok bs)).1
    let (hw', events) ← Hardware.handlePollResult (BillState.handleItem initSequence) hw pr
    pure (bill hw', events)

def BillStacked (bs : List UInt8) : Device → Prop
  | coin _ _ => False
  | bill _ => ∃ b ∈ bs, BillValidator.Stacked b

theorem handlePoll_coin (initSequence : BillValidator → BillValidator) (bs : List UInt8)
    (hw : CoinAcceptor) (credit : NominalGroup) :
    ((coin hw credit).handlePoll initSequence bs).isSome := by
  have handled : (Hardware.handlePollResult CoinState.handleItem credit
      (hw.commandPoll (.ok bs)).1).isSome := by
    rw [Hardware.handlePollResult_isSome CoinState.handlePollItem_isSome, hw.commandPoll_items]
    · exact hw.pollItems_handled bs
    · intro pi busy
      simp [CoinState.Handled, busy]
  obtain ⟨⟨credit', events⟩, taken⟩ := Option.isSome_iff_exists.mp handled
  simp [handlePoll, CoinAcceptor.commandPollChecked_eq, taken]

theorem handlePoll_bill (initSequence : BillValidator → BillValidator) (bs : List UInt8)
    (hw : BillValidator) :
    ((bill hw).handlePoll initSequence bs).isSome ↔ ∀ b ∈ bs, ¬ BillValidator.Stacked b := by
  have handled : (Hardware.handlePollResult (BillState.handleItem initSequence) hw
      (hw.commandPoll (.ok bs)).1).isSome ↔ ∀ b ∈ bs, ¬ BillValidator.Stacked b := by
    rw [Hardware.handlePollResult_isSome (BillState.handlePollItem_isSome initSequence),
      hw.commandPoll_items]
    · simp [hw.parsePollItem_handled]
    · intro pi busy
      simp [BillState.Handled, busy]
  rw [← handled]
  simp only [handlePoll, Option.bind_eq_bind]
  cases Hardware.handlePollResult (BillState.handleItem initSequence) hw (hw.commandPoll (.ok bs)).1 <;>
    simp

/-- An answer to POLL panics exactly when a bill validator reports a stacked bill. -/
theorem handlePoll_isSome_iff (initSequence : BillValidator → BillValidator) (bs : List UInt8)
    (d : Device) : (d.handlePoll initSequence bs).isSome ↔ ¬ d.BillStacked bs := by
  cases d with
  | coin hw credit => simp [handlePoll_coin, BillStacked]
  | bill hw => simp [handlePoll_bill, BillStacked]

/-- A bill of type 1 stacked by a validator that is otherwise fine. -/
theorem stackedBill_panics :
    ¬ ((bill ⟨Vector.replicate 16 10⟩).handlePoll id [0x81]).isSome := by
  decide

end Device

end Vender
