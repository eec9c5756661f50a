import Vender.ExactChange

namespace Vender.NominalGroup

variable {ρ : Type} [LT ρ] [DecidableLT ρ]

/-- What `expendLoop` leaves of a group is what one pass along the order leaves: of each
nominal in turn as many coins are gone as are there and fit what the earlier ones left due. -/
structure OnePass (order : List Nominal) (ng : NominalGroup) (a : Amount) (ng' : NominalGroup)
    (err : Option NominalError) : Prop where
  nominals : ng'.nominals = ng.nominals
  fewer : ∀ n, ng'.held n ≤ ng.held n
  takes : ∀ before n after, order = before ++ n :: after →
    ng.removed ng' n = min (ng.held n) (Greedy.remaining UInt32.toNat ng.held a.toNat before / n.toNat)
  ends : err = none ↔ Greedy.remaining UInt32.toNat ng.held a.toNat order = 0

theorem IsRange.congr {ng ng' : NominalGroup} {order : List Nominal} (h : ng.IsRange order)
    (same : ng'.nominals = ng.nominals) : ng'.IsRange order :=
  ⟨h.1, h.2.trans same.symm⟩

omit [LT ρ] [DecidableLT ρ] in
theorem IsRange.ready {ng : NominalGroup} {order : List Nominal} (h : ng.IsRange order)
    (f : Nominal → UInt64 → Nominal) :
    (ExpendStrategy.genericOrder order f : ExpendStrategy ρ).Ready ng := by
  have length := List.toFinset_card_of_nodup h.1
  rw [h.2] at length
  exact length.le

theorem toNat_pos_of_nonzero {ng : NominalGroup} (nonzero : 0 ∉ ng.nominals) : ∀ n ∈ ng.nominals, 0 < n.toNat := by
  intro n hn
  apply Amount.toNat_pos
  rintro rfl
  exact nonzero hn

theorem onePass_paid {ng : NominalGroup} {order : List Nominal} (positive : ∀ n ∈ order, 0 < n.toNat) :
    Greedy.onePass UInt32.toNat ng.held 0 order = (ng.held, 0) := by
  apply Greedy.onePass_stuck
  intro n hn fits
  have coin := positive n hn
  omega

/-- The loop leaves what one pass leaves, whether it pays the amount or fails. -/
theorem expendAfterReset_onePass {fuel : Nat} {order : List Nominal} {f : Nominal → UInt64 → Nominal}
    {s' : ExpendStrategy ρ} {left ng' : NominalGroup} {amount : Amount} {err : Option NominalError}
    (nonzero : 0 ∉ left.nominals) (range : left.IsRange order)
    (loop : expendAfterReset fuel (.genericOrder order f) left amount = some (s', ng', err)) :
    s' = .genericOrder order f ∧ ng'.nominals = left.nominals ∧ ∃ rest,
      Greedy.onePass UInt32.toNat left.held amount.toNat order = (ng'.held, rest) ∧ (err = none ↔ rest = 0) := by
  have positive : ∀ n ∈ order, 0 < n.toNat := fun n hn => toNat_pos_of_nonzero nonzero n (range.mem.mp hn)
  induction fuel generalizing left amount with
  | zero =>
    unfold expendAfterReset at loop
    split at loop
    next paid =>
      subst paid
      cases Option.some.inj loop
      exact ⟨rfl, rfl, 0, onePass_paid positive, iff_of_true rfl rfl⟩
    next => cases loop
  | succ fuel ih =>
    unfold expendAfterReset at loop
    split at loop
    next paid =>
      subst paid
      cases Option.some.inj loop
      exact ⟨rfl, rfl, 0, onePass_paid positive, iff_of_true rfl rfl⟩
    next due =>
      dsimp only at loop
      have ready : (ExpendStrategy.genericOrder order f : ExpendStrategy ρ).Ready left := range.ready f
      rcases expendOne_cases ready due with ⟨n, left', one, hn, fits, same, picked, taken⟩ | ⟨one, picked⟩
      · rw [one] at loop
        dsimp only at loop
        split at loop
        next => cases loop
        next =>
          obtain ⟨kept, nominals, rest, pass, ends⟩ := ih (same ▸ nonzero) (range.congr same) loop
          rw [taken, UInt32.toNat_sub_of_le _ _ fits] at pass
          have turn := Greedy.onePass_of_pick (positive n (range.mem.mpr hn)) picked
          exact ⟨kept, nominals.trans same, rest, turn.symm.trans pass, ends⟩
      · rw [one] at loop
        cases Option.some.inj loop
        have unpaid := (Amount.toNat_pos due).ne'
        exact ⟨rfl, rfl, amount.toNat, Greedy.onePass_stuck (Greedy.pick_none picked), iff_of_false (by simp) unpaid⟩

theorem onePass_of_loop {fuel : Nat} {order : List Nominal} {f : Nominal → UInt64 → Nominal}
    {s' : ExpendStrategy ρ} {ng ng' : NominalGroup} {a : Amount} {err : Option NominalError}
    (nonzero : 0 ∉ ng.nominals) (range : ng.IsRange order)
    (loop : expendAfterReset fuel (.genericOrder order f) ng a = some (s', ng', err)) :
    s' = .genericOrder order f ∧ OnePass order ng a ng' err := by
  obtain ⟨kept, nominals, rest, pass, ends⟩ := expendAfterReset_onePass nonzero range loop
  have left_held : (Greedy.onePass UInt32.toNat ng.held a.toNat order).1 = ng'.held := congrArg Prod.fst pass
  have left_due : (Greedy.onePass UInt32.toNat ng.held a.toNat order).2 = rest := congrArg Prod.snd pass
  have fewer : ∀ n, ng'.held n ≤ ng.held n := by
    intro n
    rw [← left_held]
    exact Greedy.onePass_le n
  refine ⟨kept, nominals, fewer, fun before n after split => ?_, ?_⟩
  · subst split
    have here := Greedy.onePass_held UInt32.toNat ng.held a.toNat range.1
    rw [left_held] at here
    change ng.held n - ng'.held n = _
    rw [here]
    exact Nat.sub_sub_self (Nat.min_le_left _ _)
  · rw [ends, ← left_due, Greedy.onePass_rest range.1]

omit [LT ρ] [DecidableLT ρ] in
theorem leastCount_unique {rand : Amount → Nat → ρ} {ng : NominalGroup} {p q : ExpendStrategy ρ}
    (hp : ExpendStrategy.newExpendLeastCount.Resets rand ng p)
    (hq : ExpendStrategy.newExpendLeastCount.Resets rand ng q) : p = q := by
  cases hp with
  | genericOrder sorted =>
    cases hq with
    | genericOrder sorted' =>
      have whole := IsOrder.filter_unique (P := fun _ => True) (fun _ _ _ _ same => same) sorted sorted'
      simp only [decide_true, List.filter_true] at whole
      rw [whole]

/-- `expendLoop` along an order of the nominals is one pass along it, and along the order
that `LeastCount` sorts there is one result, however the map is ranged over. -/
theorem expendLoop_onePass (rand : Amount → Nat → ρ) (ng : NominalGroup) (a : Amount) (nonzero : 0 ∉ ng.nominals) :
    (∀ order f, ng.IsRange order → ∃ ng' err,
      expendAfterReset a.toNat (.genericOrder order f : ExpendStrategy ρ) ng a =
        some (.genericOrder order f, ng', err) ∧ OnePass order ng a ng' err) ∧
      (∀ old f s' ng' err, ExpendLoop rand ng a (.genericOrder old f) s' ng' err →
        ∃ order, ng.IsOrder f order ∧ s' = .genericOrder order f ∧ OnePass order ng a ng' err) ∧
      ∃ result, ∀ s' ng' err, ExpendLoop rand ng a .newExpendLeastCount s' ng' err ↔ (s', ng', err) = result := by
  refine ⟨fun order f range => ?_, ?_, ?_⟩
  · have ready : (ExpendStrategy.genericOrder order f : ExpendStrategy ρ).Ready ng := range.ready f
    obtain ⟨_, ng', err, loop, _⟩ := expendAfterReset_spec nonzero ready (le_refl a.toNat)
    obtain ⟨kept, pass⟩ := onePass_of_loop nonzero range loop
    rw [kept] at loop
    exact ⟨ng', err, loop, pass⟩
  · rintro old f s' ng' err ⟨p, reset, loop⟩
    cases reset with
    | genericOrder sorted =>
      obtain ⟨kept, pass⟩ := onePass_of_loop nonzero sorted.1 loop
      exact ⟨_, sorted, kept, pass⟩
  · obtain ⟨p, reset⟩ := exists_resets rand ng (.newExpendLeastCount : ExpendStrategy ρ)
    obtain ⟨k, ng', err, loop, _⟩ := expendAfterReset_spec nonzero (reset.ready trivial) (le_refl a.toNat)
    refine ⟨(ExpendStrategy.advance^[k] p, ng', err), fun t left err' => ⟨?_, ?_⟩⟩
    · rintro ⟨q, reset', loop'⟩
      cases leastCount_unique reset reset'
      cases loop.symm.trans loop'
      rfl
    · intro same
      cases same
      exact ⟨p, reset, loop⟩

/-- Seventeen out of the group of the test. -/
theorem expendLoop_onePass_test :
    0 ∉ testGroup.nominals ∧ testGroup.IsRange [2, 10, 1, 5] ∧ ∃ ng' err,
      expendAfterReset 17 (.genericOrder [2, 10, 1, 5] ngOrderSortElemCount : ExpendStrategy Nat) testGroup 17 =
          some (.genericOrder [2, 10, 1, 5] ngOrderSortElemCount, ng', err) ∧
        OnePass [2, 10, 1, 5] testGroup 17 ng' err := by
  have nonzero : 0 ∉ testGroup.nominals := by decide
  have range : testGroup.IsRange [2, 10, 1, 5] := by decide
  exact ⟨nonzero, range, (expendLoop_onePass (fun _ k => k) testGroup 17 nonzero).1 _ _ range⟩

end Vender.NominalGroup
