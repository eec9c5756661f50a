import Vender.BillValidator
import Mathlib.Algebra.BigOperators.Group.List.Basic
import Mathlib.Algebra.Order.BigOperators.Group.List

namespace Vender.BillValidator

/-- The bytes that no case of the switch takes and that pass the mask of a stacked bill
although they are none. -/
def PassesForStacked (b : UInt8) : Prop := b = 0x00 ∨ 0x0d ≤ b ∧ b ≤ 0x0f

/-- The bytes that pass the mask of a bill in escrow. -/
def PassesForEscrow (b : UInt8) : Prop := 0x10 ≤ b ∧ b ≤ 0x1f

instance : DecidablePred PassesForStacked := fun _ => inferInstanceAs (Decidable (_ ∨ _))

instance : DecidablePred PassesForEscrow := fun _ => inferInstanceAs (Decidable (_ ∧ _))

/-- What the items of a status amount to. -/
def sumOf (status : PollItemStatus) (items : List PollItem) : Nat :=
  ((items.filter fun pi => pi.status = status).map fun pi => pi.amount.toNat).sum

/-- What the bills are worth whose bytes have this high nibble. -/
def billsWorth (hw : BillValidator) (nibble : UInt8) (bs : List UInt8) : Nat :=
  ((bs.filter fun b => b >>> (4 : UInt8) = nibble).map fun b => (hw.billTypeNominal (b &&& 0xf)).toNat).sum

theorem pollItemCase_status {b : UInt8} {pi : PollItem} (h : pollItemCase b = some pi) :
    pi.status ≠ .credit ∧ pi.status ≠ .escrow := by
  unfold pollItemCase at h
  split at h
  all_goals first
    | cases h; done
    | cases Option.some.inj h; exact ⟨by decide, by decide⟩

/-- The tests of `parsePollItem` on a byte as ranges. -/
theorem byteTable : ∀ i : Fin 256,
    (pollItemCase (UInt8.ofNat i.val) = none ↔ i.val = 0 ∨ 13 ≤ i.val) ∧
      (UInt8.ofNat i.val &&& 0x8f = UInt8.ofNat i.val ↔ i.val < 16 ∨ 128 ≤ i.val ∧ i.val < 144) ∧
      (UInt8.ofNat i.val &&& 0x9f = UInt8.ofNat i.val ↔ i.val < 32 ∨ 128 ≤ i.val ∧ i.val < 160) ∧
      (UInt8.ofNat i.val >>> 4 = 8 ↔ 128 ≤ i.val ∧ i.val < 144) ∧
      (UInt8.ofNat i.val >>> 4 = 9 ↔ 144 ≤ i.val ∧ i.val < 160) := by
  decide +kernel

theorem amount_single (nominal : Nominal) (status : PollItemStatus) :
    ({ status, dataNominal := nominal } : PollItem).amount = nominal := by
  simp [PollItem.amount]

theorem passesForStacked_iff (b : UInt8) : PassesForStacked b ↔ b.toNat = 0 ∨ 13 ≤ b.toNat ∧ b.toNat ≤ 15 := by
  unfold PassesForStacked
  rw [UInt8.le_iff_toNat_le, UInt8.le_iff_toNat_le, ← UInt8.toNat_inj]
  rfl

theorem passesForEscrow_iff (b : UInt8) : PassesForEscrow b ↔ 16 ≤ b.toNat ∧ b.toNat ≤ 31 := by
  unfold PassesForEscrow
  rw [UInt8.le_iff_toNat_le, UInt8.le_iff_toNat_le]
  rfl

/-- The status of a byte's item: a stacked bill or what passes for it, a bill in escrow or
what passes for it, or neither. -/
theorem parsePollItem_cases (hw : BillValidator) (b : UInt8) :
    ((b >>> 4 = 8 ∨ PassesForStacked b) ∧ ¬(b >>> 4 = 9 ∨ PassesForEscrow b) ∧
      hw.parsePollItem b = { status := .credit, dataNominal := hw.billTypeNominal (b &&& 0xf) }) ∨
    (¬(b >>> 4 = 8 ∨ PassesForStacked b) ∧ (b >>> 4 = 9 ∨ PassesForEscrow b) ∧
      hw.parsePollItem b = { status := .escrow, dataNominal := hw.billTypeNominal (b &&& 0xf) }) ∨
    (¬(b >>> 4 = 8 ∨ PassesForStacked b) ∧ ¬(b >>> 4 = 9 ∨ PassesForEscrow b) ∧
      (hw.parsePollItem b).status ≠ .credit ∧ (hw.parsePollItem b).status ≠ .escrow) := by
  have table := byteTable ⟨b.toNat, b.toNat_lt⟩
  simp only [UInt8.ofNat_toNat] at table
  obtain ⟨switch, mask8, mask9, high8, high9⟩ := table
  rw [passesForStacked_iff, passesForEscrow_iff, high8, high9]
  cases case : pollItemCase b with
  | some pi =>
    have taken : ¬(b.toNat = 0 ∨ 13 ≤ b.toNat) := by
      rw [← switch, case]
      simp
    have item : hw.parsePollItem b = pi := by
      rw [parsePollItem, case]
    rw [item]
    exact Or.inr (Or.inr ⟨by omega, by omega, pollItemCase_status case⟩)
  | none =>
    have free := switch.mp case
    rw [parsePollItem, case]
    dsimp only
    by_cases m8 : b &&& 0x8f = b
    · have range := mask8.mp m8
      rw [if_pos m8]
      exact Or.inl ⟨by omega, by omega, rfl⟩
    · have below := mt mask8.mpr m8
      rw [if_neg m8]
      by_cases m9 : b &&& 0x9f = b
      · have range := mask9.mp m9
        rw [if_pos m9]
        exact Or.inr (Or.inl ⟨by omega, by omega, rfl⟩)
      · have outside := mt mask9.mpr m9
        rw [if_neg m9]
        refine Or.inr (Or.inr ⟨by omega, by omega, ?_⟩)
        split
        next => exact ⟨by simp, by simp⟩
        next => exact ⟨by simp, by simp⟩

/-- The items of a status are worth the bills with that nibble and the bytes that pass for them. -/
theorem sumOf_map (hw : BillValidator) (status : PollItemStatus) (nibble : UInt8) (passes : UInt8 → Prop)
    [DecidablePred passes]
    (apart : ∀ b, b >>> (4 : UInt8) = nibble → ¬passes b)
    (item : ∀ b, (b >>> (4 : UInt8) = nibble ∨ passes b) →
      (hw.parsePollItem b).status = status ∧ (hw.parsePollItem b).amount = hw.billTypeNominal (b &&& 0xf))
    (other : ∀ b, ¬(b >>> (4 : UInt8) = nibble ∨ passes b) → (hw.parsePollItem b).status ≠ status) (bs : List UInt8) :
    sumOf status (bs.map hw.parsePollItem) = hw.billsWorth nibble bs +
      ((bs.filter fun b => passes b).map fun b => (hw.billTypeNominal (b &&& 0xf)).toNat).sum := by
  induction bs with
  | nil => rfl
  | cons b bs ih =>
    unfold sumOf billsWorth at ih ⊢
    rw [List.map_cons]
    by_cases bill : b >>> (4 : UInt8) = nibble
    · obtain ⟨same, amount⟩ := item b (Or.inl bill)
      have no_pass := apart b bill
      simp [same, bill, no_pass, amount, ih, Nat.add_assoc]
    · by_cases pass : passes b
      · obtain ⟨same, amount⟩ := item b (Or.inr pass)
        simp [same, bill, pass, amount, ih, Nat.add_left_comm]
      · have different := other b (by simp [bill, pass])
        simp [different, bill, pass, ih]

theorem sumOf_credit (hw : BillValidator) (bs : List UInt8) :
    sumOf .credit (bs.map hw.parsePollItem) = hw.billsWorth 8 bs +
      ((bs.filter fun b => PassesForStacked b).map fun b => (hw.billTypeNominal (b &&& 0xf)).toNat).sum := by
  apply sumOf_map
  · intro b bill pass
    have table := (byteTable ⟨b.toNat, b.toNat_lt⟩).2.2.2.1
    simp only [UInt8.ofNat_toNat] at table
    have range := table.mp bill
    have low := (passesForStacked_iff b).mp pass
    omega
  · intro b credits
    rcases hw.parsePollItem_cases b with ⟨_, _, item⟩ | ⟨neither, _⟩ | ⟨neither, _⟩
    · rw [item]
      exact ⟨rfl, amount_single _ _⟩
    · exact absurd credits neither
    · exact absurd credits neither
  · intro b neither
    rcases hw.parsePollItem_cases b with ⟨credits, _⟩ | ⟨_, _, item⟩ | ⟨_, _, status, _⟩
    · exact absurd credits neither
    · rw [item]
      simp
    · exact status

theorem sumOf_escrow (hw : BillValidator) (bs : List UInt8) :
    sumOf .escrow (bs.map hw.parsePollItem) = hw.billsWorth 9 bs +
      ((bs.filter fun b => PassesForEscrow b).map fun b => (hw.billTypeNominal (b &&& 0xf)).toNat).sum := by
  apply sumOf_map
  · intro b bill pass
    have table := (byteTable ⟨b.toNat, b.toNat_lt⟩).2.2.2.2
    simp only [UInt8.ofNat_toNat] at table
    have range := table.mp bill
    have low := (passesForEscrow_iff b).mp pass
    omega
  · intro b escrows
    rcases hw.parsePollItem_cases b with ⟨_, neither, _⟩ | ⟨_, _, item⟩ | ⟨_, neither, _⟩
    · exact absurd escrows neither
    · rw [item]
      exact ⟨rfl, amount_single _ _⟩
    · exact absurd escrows neither
  · intro b neither
    rcases hw.parsePollItem_cases b with ⟨_, _, item⟩ | ⟨_, escrows, _⟩ | ⟨_, _, _, status⟩
    · rw [item]
      simp
    · exact absurd escrows neither
    · exact status

/-- What a poll credits is what was stacked, and what it holds in escrow is what is there. -/
def CreditsStackedOnly (hw : BillValidator) (bs : List UInt8) : Prop :=
  sumOf .credit (hw.commandPoll (.ok bs)).1.items = hw.billsWorth 8 bs ∧
    sumOf .escrow (hw.commandPoll (.ok bs)).1.items = hw.billsWorth 9 bs

theorem worthless_iff {hw : BillValidator} {bs : List UInt8} {passes : UInt8 → Prop} [DecidablePred passes] :
    ((bs.filter fun b => passes b).map fun b => (hw.billTypeNominal (b &&& 0xf)).toNat).sum = 0 ↔
      ∀ b ∈ bs, passes b → hw.billTypeNominal (b &&& 0xf) = 0 := by
  rw [List.sum_eq_zero_iff]
  constructor
  · intro zero b mem pass
    have listed : b ∈ bs.filter fun b => passes b := List.mem_filter.mpr ⟨mem, by simpa using pass⟩
    exact UInt32.toNat_inj.mp (zero _ (List.mem_map.mpr ⟨b, listed, rfl⟩))
  · intro worthless x listed
    obtain ⟨b, mem, rfl⟩ := List.mem_map.mp listed
    obtain ⟨mem, pass⟩ := List.mem_filter.mp mem
    rw [worthless b mem (by simpa using pass)]
    rfl

/-- Only stacked bills are credited exactly if the bytes that pass for stacked bills or for
bills in escrow have bill types without a value. -/
theorem creditsStackedOnly_iff (hw : BillValidator) (bs : List UInt8) :
    CreditsStackedOnly hw bs ↔
      ∀ b ∈ bs, PassesForStacked b ∨ PassesForEscrow b → hw.billTypeNominal (b &&& 0xf) = 0 := by
  unfold CreditsStackedOnly
  rw [commandPoll_items, sumOf_credit, sumOf_escrow, Nat.add_eq_left, Nat.add_eq_left, worthless_iff, worthless_iff]
  constructor
  · rintro ⟨stacked, escrow⟩ b mem (pass | pass)
    · exact stacked b mem pass
    · exact escrow b mem pass
  · intro worthless
    exact ⟨fun b mem pass => worthless b mem (Or.inl pass), fun b mem pass => worthless b mem (Or.inr pass)⟩

/-- The table of the tests. -/
def testBills : BillValidator where
  billTypeCredit := #v[5, 10, 20, 0, 0, 0, 0, 0, 0, 0, 0, 0, 0, 0, 0, 0]

theorem testBills_credit_zero_byte : ¬CreditsStackedOnly testBills [0x00] := by
  rintro ⟨credits, _⟩
  exact absurd credits (by decide)

end Vender.BillValidator
