import Vender.CoinState
import Mathlib.Data.Nat.Bitwise

namespace Vender

/-- The bytes of a poll response that start an event: those from `0x40` up
carry a second byte. -/
def pollTokens : List UInt8 → List UInt8
  | [] => []
  | [b] => [b]
  | b :: b2 :: bs => if 0x40 ≤ b then b :: pollTokens bs else b :: pollTokens (b2 :: bs)

def CoinAcceptor.tokenCredit (hw : CoinAcceptor) (b : UInt8) : Amount :=
  if b >>> 6 = 1 ∧ ((b >>> 4) &&& 3 = 0 ∨ (b >>> 4) &&& 3 = 1) then hw.coinTypeNominal (b &&& 0xf) else 0

/-- What a token is the event of: a return request, or a coin of its type let into the cash
box or the tubes. -/
def CoinAcceptor.tokenEvent (hw : CoinAcceptor) (b : UInt8) : Option Event :=
  if b = 0x01 then some { name := .abort }
  else if b >>> 6 = 1 ∧ ((b >>> 4) &&& 3 = 0 ∨ (b >>> 4) &&& 3 = 1) then
    some { name := .credit, amount := hw.coinTypeNominal (b &&& 0xf) }
  else none

def creditAmount (e : Event) : Amount :=
  if e.name = .credit then e.amount else 0

namespace CoinAcceptor

theorem pollItemCase_some {b : UInt8} {pi : PollItem} (h : pollItemCase b = some pi) :
    b < 0x0e ∧ CoinState.Handled pi.status ∧ pi.status ≠ .credit ∧ (pi.status = .returnRequest ↔ b = 0x01) := by
  unfold pollItemCase at h
  split at h
  all_goals first
    | cases h; done
    | cases Option.some.inj h; exact ⟨by decide, by simp [CoinState.Handled], by simp, by simp⟩

theorem shiftRight_eq_one {b : UInt8} {k : Nat} (hk : k < 8) :
    b >>> UInt8.ofNat k = 1 ↔ b.toNat / 2 ^ k = 1 := by
  rw [← UInt8.toNat_inj, UInt8.toNat_shiftRight, Nat.shiftRight_eq_div_pow]
  simp [Nat.mod_eq_of_lt hk, Nat.mod_eq_of_lt (show k < 256 by omega)]

theorem and_top_bit {b : UInt8} : b &&& 0x80 = 0 ↔ b.toNat < 128 := by
  have size := b.toNat_lt
  have mask : b.toNat &&& 128 = (b.toNat.testBit 7).toNat * 128 := Nat.and_two_pow b.toNat 7
  have bit : b.toNat.testBit 7 = decide (b.toNat / 128 % 2 = 1) := Nat.testBit_eq_decide_div_mod_eq
  rw [← UInt8.toNat_inj, UInt8.toNat_and]
  change b.toNat &&& 128 = 0 ↔ _
  rw [mask, bit]
  by_cases h : b.toNat / 128 % 2 = 1
  · simp only [h, decide_true, Bool.toNat_true]
    omega
  · simp only [h, decide_false, Bool.toNat_false, Nat.zero_mul, true_iff]
    omega

theorem depositedItem_status {hw : CoinAcceptor} {b : UInt8} :
    CoinState.Handled (hw.depositedItem b).status ∧ (hw.depositedItem b).status ≠ .returnRequest ∧
      ((hw.depositedItem b).status = .credit ↔ (b >>> 4) &&& 3 = 0 ∨ (b >>> 4) &&& 3 = 1) := by
  unfold depositedItem CoinRouting.ofBits
  by_cases h0 : (b >>> 4) &&& 3 = 0
  · simp [h0, CoinState.Handled]
  · by_cases h1 : (b >>> 4) &&& 3 = 1
    · simp [h1, CoinState.Handled]
    · by_cases h2 : (b >>> 4) &&& 3 = 2
      · simp [h2, CoinState.Handled]
      · simp [h0, h1, h2, CoinState.Handled]

@[simp] theorem depositedItem_dataNominal (hw : CoinAcceptor) (b : UInt8) :
    (hw.depositedItem b).dataNominal = hw.coinTypeNominal (b &&& 0xf) := by
  unfold depositedItem
  split <;> rfl

@[simp] theorem depositedItem_dataCount (hw : CoinAcceptor) (b : UInt8) :
    (hw.depositedItem b).dataCount = 1 := by
  unfold depositedItem
  split <;> rfl

/-- The item of a token; the byte behind it has no part in it. -/
def tokenItem (hw : CoinAcceptor) (b : UInt8) : PollItem := (hw.parsePollItem b 0).1

/-- An item that credits carries one coin of the token's value, any other item is of a
token that is worth nothing and credits nothing. -/
def ItemOf (hw : CoinAcceptor) (b : UInt8) (pi : PollItem) : Prop :=
  CoinState.Handled pi.status ∧
    (pi.status = .credit ∧ pi.dataNominal = hw.coinTypeNominal (b &&& 0xf) ∧ pi.dataCount = 1 ∧
        hw.tokenEvent b = some { name := .credit, amount := pi.dataNominal } ∨
      pi.status ≠ .credit ∧
        hw.tokenEvent b = if pi.status = .returnRequest then some { name := .abort } else none)

theorem tokenEvent_amount (hw : CoinAcceptor) (b : UInt8) :
    ((hw.tokenEvent b).toList.map creditAmount).sum = hw.tokenCredit b := by
  unfold tokenEvent tokenCredit
  by_cases request : b = 0x01
  · subst request
    rw [if_pos rfl, if_neg (by decide)]
    rfl
  · rw [if_neg request]
    split
    · simp [creditAmount]
    · rfl

theorem tokenEvents_amount (hw : CoinAcceptor) (tokens : List UInt8) :
    ((tokens.filterMap hw.tokenEvent).map creditAmount).sum = (tokens.map hw.tokenCredit).sum := by
  induction tokens with
  | nil => rfl
  | cons b tokens ih =>
    have one := hw.tokenEvent_amount b
    rw [List.map_cons, List.sum_cons, ← ih, ← one]
    cases sent : hw.tokenEvent b with
    | none => simp [sent]
    | some e => simp [sent]

/-- Only a byte that starts with `01` can be a deposit. -/
theorem tokenEvent_other {hw : CoinAcceptor} {b : UInt8} (other : ¬b >>> 6 = 1) :
    hw.tokenEvent b = if b = 0x01 then some { name := .abort } else none := by
  rw [tokenEvent, if_neg fun deposit : b >>> 6 = 1 ∧ _ => other deposit.1]

theorem parsePollItem_spec (hw : CoinAcceptor) (b b2 : UInt8) :
    ((hw.parsePollItem b b2).2 = true ↔ 0x40 ≤ b) ∧ hw.ItemOf b (hw.parsePollItem b b2).1 := by
  have h5 := shiftRight_eq_one (b := b) (k := 5) (by omega)
  have h6 := shiftRight_eq_one (b := b) (k := 6) (by omega)
  unfold parsePollItem
  cases hc : pollItemCase b with
  | some pi =>
    obtain ⟨small, handled, other, request⟩ := pollItemCase_some hc
    have bound : b.toNat < 14 := UInt8.lt_iff_toNat_lt.mp small
    have worthless : ¬b >>> 6 = 1 := fun h => by
      have := h6.mp h
      omega
    refine ⟨?_, handled, Or.inr ⟨other, ?_⟩⟩
    · simp only [Bool.false_eq_true, UInt8.le_iff_toNat_le, false_iff]
      change ¬64 ≤ b.toNat
      omega
    · simp only [tokenEvent_other worthless, request]
  | none =>
    have low := and_top_bit (b := b)
    have noRequest : ¬b = 0x01 := by
      rintro rfl
      cases hc
    have silent : ¬b >>> 6 = 1 → hw.tokenEvent b = none := fun h => by
      rw [tokenEvent_other h, if_neg noRequest]
    simp only [UInt8.le_iff_toNat_le]
    change _ ∧ _
    by_cases slug : b >>> 5 = 1
    · have := h5.mp slug
      simp only [slug, ↓reduceIte]
      refine ⟨by simp; omega, by simp [CoinState.Handled], Or.inr ⟨by simp, silent fun h => ?_⟩⟩
      have := h6.mp h
      omega
    · by_cases deposited : b >>> 6 = 1
      · have := h6.mp deposited
        obtain ⟨handled, quiet, credits⟩ := @depositedItem_status hw b
        simp only [slug, deposited, ↓reduceIte]
        refine ⟨by simp; omega, handled, ?_⟩
        by_cases routed : (b >>> 4) &&& 3 = 0 ∨ (b >>> 4) &&& 3 = 1
        · exact Or.inl ⟨credits.mpr routed, by simp, by simp,
            by simp [tokenEvent, noRequest, deposited, routed]⟩
        · refine Or.inr ⟨fun h => routed (credits.mp h), ?_⟩
          rw [if_neg quiet, tokenEvent, if_neg noRequest, if_neg fun deposit => routed deposit.2]
      · have n5 : ¬b.toNat / 2 ^ 5 = 1 := fun h => slug (h5.mpr h)
        have n6 : ¬b.toNat / 2 ^ 6 = 1 := fun h => deposited (h6.mpr h)
        simp only [slug, deposited, ↓reduceIte]
        by_cases top : b &&& 0x80 = 0
        · have := low.mp top
          simp only [top, ne_eq, not_true_eq_false, ↓reduceIte]
          exact ⟨by simp; omega, by simp [CoinState.Handled], Or.inr ⟨by simp, by simp [silent deposited]⟩⟩
        · have := mt low.mpr top
          simp only [top, ne_eq, not_false_eq_true, ↓reduceIte]
          exact ⟨by simp; omega, by simp [CoinState.Handled], Or.inr ⟨by simp, by simp [silent deposited]⟩⟩

theorem tokenItem_spec (hw : CoinAcceptor) (b : UInt8) : hw.ItemOf b (hw.tokenItem b) :=
  (hw.parsePollItem_spec b 0).2

/-- One item for each token and none for a second byte. -/
theorem pollItems_tokens (hw : CoinAcceptor) (bs : List UInt8) :
    hw.pollItems false bs = (pollTokens bs).map hw.tokenItem := by
  induction bs using pollTokens.induct with
  | case1 => rfl
  | case2 b =>
    rw [pollItems, pollTokens, List.map_singleton]
    cases (hw.parsePollItem b (([] : List UInt8).headD 0)).2 <;> rfl
  | case3 b b2 bs wide ih =>
    have spec := hw.parsePollItem_spec b b2
    rw [pollItems, List.headD_cons, spec.1.mpr wide, pollTokens, if_pos wide, List.map_cons, ← ih]
    rfl
  | case4 b b2 bs narrow ih =>
    have spec := hw.parsePollItem_spec b b2
    have keep : (hw.parsePollItem b b2).2 = false := Bool.eq_false_iff.mpr (mt spec.1.mp narrow)
    rw [pollItems, List.headD_cons, keep, pollTokens, if_neg narrow, List.map_cons, ← ih]
    rfl

theorem commandPoll_tokens (hw : CoinAcceptor) (bs : List UInt8) :
    (hw.commandPoll (.ok bs)).1.items = (pollTokens bs).map hw.tokenItem := by
  rw [← pollItems_tokens]
  cases bs <;> rfl

end CoinAcceptor

namespace CoinState

theorem mem_init_of_pos {hw : CoinAcceptor} {b : UInt8} (pos : hw.coinTypeNominal b ≠ 0) :
    hw.coinTypeNominal b ∈ (init hw).nominals := by
  unfold CoinAcceptor.coinTypeNominal at pos ⊢
  split at pos
  next small =>
    simp only [small, ↓reduceDIte, init, NominalGroup.setValid_nominals, List.mem_toFinset,
      CoinAcceptor.supportedNominals, List.mem_filter, decide_eq_true_eq]
    exact ⟨by simp, UInt32.pos_iff_ne_zero.mpr pos⟩
  next => exact absurd rfl pos

theorem handlePollItem_itemOf {hw : CoinAcceptor} {credit : NominalGroup} {b : UInt8} {pi : PollItem}
    (valid : credit.nominals = (init hw).nominals) (h : hw.ItemOf b pi) :
    ∃ credit', handlePollItem credit pi = some (credit', hw.tokenEvent b) ∧
      credit'.nominals = credit.nominals ∧ credit'.value = credit.value + hw.tokenCredit b := by
  have amount := hw.tokenEvent_amount b
  obtain ⟨handled, ⟨status, nominal, count, event⟩ | ⟨other, event⟩⟩ := h
  · have worth : hw.tokenCredit b = pi.dataNominal := by
      rw [← amount, event]
      simp [creditAmount]
    have sent : pi.amount = pi.dataNominal := by simp [PollItem.amount, count]
    rw [event]
    obtain ⟨credit', hh, added | ⟨absent, rfl⟩⟩ := handlePollItem_of_credit credit status
    · rw [sent] at hh
      refine ⟨credit', hh, NominalGroup.add_nominals added, ?_⟩
      rw [NominalGroup.value_add added, worth, count]
      simp
    · have zero : pi.dataNominal = 0 := by
        by_contra pos
        rw [nominal] at absent pos
        exact absent (valid ▸ mem_init_of_pos pos)
      rw [sent] at hh
      exact ⟨credit', hh, rfl, by simp [worth, zero]⟩
  · have worth : hw.tokenCredit b = 0 := by
      rw [← amount, event]
      split <;> simp [creditAmount]
    rw [event]
    exact ⟨credit, handlePollItem_of_not_credit credit handled other, rfl, by simp [worth]⟩

theorem handlePollItems_tokens {hw : CoinAcceptor} (tokens : List UInt8) {credit : NominalGroup}
    (valid : credit.nominals = (init hw).nominals) :
    ∃ credit', handlePollItems credit (tokens.map hw.tokenItem) = some (credit', tokens.filterMap hw.tokenEvent) ∧
      credit'.nominals = credit.nominals ∧
      credit'.value = credit.value + (tokens.map hw.tokenCredit).sum := by
  induction tokens generalizing credit with
  | nil => exact ⟨credit, rfl, rfl, by simp⟩
  | cons b tokens ih =>
    obtain ⟨credit', hh, hn, hv⟩ := handlePollItem_itemOf valid (hw.tokenItem_spec b)
    obtain ⟨credit'', hh', hn', hv'⟩ := ih (hn.trans valid)
    refine ⟨credit'', ?_, hn'.trans hn, ?_⟩
    · cases sent : hw.tokenEvent b <;> simp [handlePollItems, hh, hh', sent]
    · rw [hv', hv, List.map_cons, List.sum_cons, add_assoc]

theorem handlePollResult_tokens {hw : CoinAcceptor} {credit : NominalGroup} (bs : List UInt8)
    (valid : credit.nominals = (init hw).nominals) :
    ∃ credit', handlePollResult credit (hw.commandPoll (.ok bs)).1 =
        some (credit', (pollTokens bs).filterMap hw.tokenEvent) ∧
      credit'.nominals = credit.nominals ∧
      credit'.value = credit.value + ((pollTokens bs).map hw.tokenCredit).sum := by
  have handled := handlePollItems_tokens (pollTokens bs) valid
  rw [← hw.commandPoll_tokens] at handled
  unfold handlePollResult
  split
  next busy =>
    -- a lone busy item is dropped before the item handler sees it, which sends nothing for it either
    unfold PollResult.singleStatus at busy
    split at busy
    next pi single =>
      rw [single] at handled
      rw [handlePollItems, handlePollItem_of_not_credit credit (by simp [Handled, busy]) (by simp [busy])] at handled
      simpa [handlePollItems, busy] using handled
    next => cases busy
  next => exact handled

theorem pollResultLoop_tokens {hw : CoinAcceptor} (responses : List (List UInt8)) {credit : NominalGroup}
    (valid : credit.nominals = (init hw).nominals) :
    ∃ credit', pollResultLoop credit (responses.map fun bs => (hw.commandPoll (.ok bs)).1) =
        some (credit', (responses.flatMap pollTokens).filterMap hw.tokenEvent) ∧
      credit'.nominals = credit.nominals ∧
      credit'.value = credit.value + ((responses.flatMap pollTokens).map hw.tokenCredit).sum := by
  induction responses generalizing credit with
  | nil => exact ⟨credit, rfl, rfl, by simp⟩
  | cons bs responses ih =>
    obtain ⟨credit', hh, hn, hv⟩ := handlePollResult_tokens bs valid
    obtain ⟨credit'', hh', hn', hv'⟩ := ih (hn.trans valid)
    refine ⟨credit'', ?_, hn'.trans hn, ?_⟩
    · simp [pollResultLoop, hh, hh']
    · rw [hv', hv, List.flatMap_cons, List.map_append, List.sum_append, add_assoc]

/-- Credit and credit events follow the raw poll bytes, at any time after `Init`: each token
gives one item and its own event, a second byte gives neither. -/
theorem poll_credit_agrees (hw : CoinAcceptor) (credit : NominalGroup)
    (valid : credit.nominals = (init hw).nominals) (responses : List (List UInt8)) :
    (∀ bs ∈ responses, (hw.commandPoll (.ok bs)).1.items = (pollTokens bs).map hw.tokenItem) ∧
      ∃ credit' events,
        pollResultLoop credit (responses.map fun bs => (hw.commandPoll (.ok bs)).1) = some (credit', events) ∧
        (∀ order order', credit.IsRange order → credit'.IsRange order' →
          credit'.total order' - credit.total order =
            ((responses.flatMap pollTokens).map hw.tokenCredit).sum) ∧
        events = (responses.flatMap pollTokens).filterMap hw.tokenEvent ∧
        (events.map creditAmount).sum = ((responses.flatMap pollTokens).map hw.tokenCredit).sum := by
  obtain ⟨credit', hh, _, hv⟩ := pollResultLoop_tokens responses valid
  refine ⟨fun bs _ => hw.commandPoll_tokens bs, credit', _, hh, fun order order' ho ho' => ?_, rfl,
    hw.tokenEvents_amount _⟩
  rw [NominalGroup.total_eq_value ho, NominalGroup.total_eq_value ho', hv]
  exact add_sub_cancel_left _ _

/-- A deposit into a tube with its second byte, then a busy byte and a cash box deposit. -/
theorem poll_credit_agrees_two_coins :
    (∀ bs ∈ [[0x50, 0x41], [0x02, 0x41, 0x00]],
        (twoCoinChanger.commandPoll (.ok bs)).1.items = (pollTokens bs).map twoCoinChanger.tokenItem) ∧
      ∃ credit' events,
        pollResultLoop (init twoCoinChanger)
            ([[0x50, 0x41], [0x02, 0x41, 0x00]].map fun bs => (twoCoinChanger.commandPoll (.ok bs)).1) =
          some (credit', events) ∧
        (∀ order order', (init twoCoinChanger).IsRange order → credit'.IsRange order' →
          credit'.total order' - (init twoCoinChanger).total order = 3) ∧
        events = [{ name := .credit, amount := 1 }, { name := .credit, amount := 2 }] ∧
        (events.map creditAmount).sum = 3 := by
  have agrees := poll_credit_agrees twoCoinChanger (init twoCoinChanger) rfl
    [[0x50, 0x41], [0x02, 0x41, 0x00]]
  have worth : (([[0x50, 0x41], [0x02, 0x41, 0x00]].flatMap pollTokens).map
      twoCoinChanger.tokenCredit).sum = 3 := by decide
  have sent : ([[0x50, 0x41], [0x02, 0x41, 0x00]].flatMap pollTokens).filterMap twoCoinChanger.tokenEvent =
      [{ name := .credit, amount := 1 }, { name := .credit, amount := 2 }] := by decide
  rwa [worth, sent] at agrees

end CoinState

end Vender
