import Vender.DryRun

namespace Vender.NominalGroup

variable {ρ : Type} [LT ρ] [DecidableLT ρ] {rand : Amount → Nat → ρ}

/-- The states in which `expendLoop`, after a `Reset` that left `p`, begins its turns. -/
inductive Reached (p : ExpendStrategy ρ) (ng : NominalGroup) (a : Amount) :
    ExpendStrategy ρ → NominalGroup → Amount → Prop
  | start : Reached p ng a p ng a
  | turn {s s' : ExpendStrategy ρ} {left left' : NominalGroup} {amount : Amount} {nominal : Nominal}
      (before : Reached p ng a s left amount) (due : amount ≠ 0)
      (one : s.expendOne left amount = some (s', left', .ok nominal)) :
      Reached p ng a s' left' (amount - nominal)

/-- A turn from here does not panic, and what it subtracts is there. -/
def TurnsSafely (s : ExpendStrategy ρ) (left : NominalGroup) (amount : Amount) : Prop :=
  ∃ s' left' result, s.expendOne left amount = some (s', left', result) ∧
    ∀ nominal, result = .ok nominal →
      nominal ≠ 0 ∧ nominal ≤ amount ∧ 0 < left.values nominal ∧
        left'.values = Function.update left.values nominal (left.values nominal - 1)

/-- How many coins of a nominal were removed. -/
def removed (ng ng' : NominalGroup) (n : Nominal) : Nat := (ng.values n).toNat - (ng'.values n).toNat

/-- What is left of a group after `paid` was taken out of it. -/
structure Spent (ng ng' : NominalGroup) (paid : Nat) : Prop where
  nominals : ng'.nominals = ng.nominals
  fewer : ∀ n, ng'.values n ≤ ng.values n
  exact : ∑ n ∈ ng.nominals, n.toNat * ng.removed ng' n = paid

theorem worth_eq_sum_held (ng : NominalGroup) : ng.worth = ∑ n ∈ ng.nominals, n.toNat * ng.held n := rfl

theorem spent_of_worth {ng ng' : NominalGroup} {paid : Nat} (nominals : ng'.nominals = ng.nominals)
    (fewer : ∀ n, ng'.held n ≤ ng.held n) (worth : ng'.worth + paid = ng.worth) : Spent ng ng' paid where
  nominals := nominals
  fewer := fun n => UInt64.le_iff_toNat_le.mpr (fewer n)
  exact := by
    have parts : ∑ n ∈ ng.nominals, n.toNat * ng.removed ng' n =
        ∑ n ∈ ng.nominals, (n.toNat * ng.held n - n.toNat * ng'.held n) :=
      Finset.sum_congr rfl fun n _ => Nat.mul_sub _ _ _
    rw [parts, Finset.sum_tsub_distrib _ fun n _ => Nat.mul_le_mul_left _ (fewer n)]
    rw [worth_eq_sum_held, worth_eq_sum_held, nominals] at worth
    omega

/-- What the turns keep: what is left and what is paid make up the group. -/
structure Paying (ng : NominalGroup) (a : Amount) (s : ExpendStrategy ρ) (left : NominalGroup) (amount : Amount) :
    Prop where
  ready : s.Ready left
  nominals : left.nominals = ng.nominals
  fewer : ∀ n, left.held n ≤ ng.held n
  due : amount ≤ a
  balance : left.worth + a.toNat = ng.worth + amount.toNat

omit [LT ρ] [DecidableLT ρ] in
theorem Paying.spent {ng left : NominalGroup} {a amount : Amount} {s : ExpendStrategy ρ}
    (h : Paying ng a s left amount) : Spent ng left (a.toNat - amount.toNat) := by
  have due := UInt32.le_iff_toNat_le.mp h.due
  have balance := h.balance
  exact spent_of_worth h.nominals h.fewer (by omega)

theorem worth_of_take {ng ng' : NominalGroup} {n : Nominal} (hn : n ∈ ng.nominals) (pos : 0 < ng.held n)
    (nominals : ng'.nominals = ng.nominals) (left : ng'.held = Greedy.take ng.held n) :
    ng'.worth + n.toNat = ng.worth := by
  rw [worth_eq_sum_held, worth_eq_sum_held, nominals, left]
  exact Greedy.sum_take UInt32.toNat hn pos

theorem Paying.turn {ng left left' : NominalGroup} {a amount : Amount} {s s' : ExpendStrategy ρ} {nominal : Nominal}
    (h : Paying ng a s left amount) (due : amount ≠ 0)
    (one : s.expendOne left amount = some (s', left', .ok nominal)) :
    Paying ng a s' left' (amount - nominal) := by
  rcases expendOne_cases h.ready due with ⟨n, left₁, one₁, hn, fits, same, picked, taken⟩ | ⟨one₁, _⟩
  · cases one.symm.trans one₁
    have pos := (Greedy.pick_some picked).2.2
    have rest := UInt32.toNat_sub_of_le _ _ fits
    have worth := worth_of_take hn pos same taken
    have balance := h.balance
    have bound := UInt32.le_iff_toNat_le.mp h.due
    have paid := UInt32.le_iff_toNat_le.mp fits
    refine ⟨h.ready.advance.congr same, same.trans h.nominals, fun m => ?_, ?_, by omega⟩
    · rw [taken]
      exact (Greedy.take_le _ _ _).trans (h.fewer m)
    · rw [UInt32.le_iff_toNat_le]
      omega
  · cases one.symm.trans one₁

theorem Reached.paying {p s : ExpendStrategy ρ} {ng left : NominalGroup} {a amount : Amount} (ready : p.Ready ng)
    (h : Reached p ng a s left amount) : Paying ng a s left amount := by
  induction h with
  | start => exact ⟨ready, rfl, fun _ => le_rfl, UInt32.le_refl a, rfl⟩
  | turn _ due one ih => exact ih.turn due one

theorem Paying.turnsSafely {ng left : NominalGroup} {a amount : Amount} {s : ExpendStrategy ρ}
    (h : Paying ng a s left amount) (nonzero : 0 ∉ ng.nominals) (due : amount ≠ 0) :
    TurnsSafely s left amount := by
  rcases expendOne_cases h.ready due with ⟨n, left', one, hn, fits, _, picked, taken⟩ | ⟨one, _⟩
  · refine ⟨_, left', _, one, fun nominal ok => ?_⟩
    cases ok
    have coin : n ≠ 0 := by
      rintro rfl
      exact nonzero (h.nominals ▸ hn)
    have pos : 0 < left.values n := UInt64.lt_iff_toNat_lt.mpr (Greedy.pick_some picked).2.2
    have put := left.held_put pos
    refine ⟨coin, fits, pos, funext fun m => UInt64.toNat_inj.mp ?_⟩
    exact (congrFun taken m).trans (congrFun put m).symm
  · exact ⟨_, left, _, one, fun nominal ok => by cases ok⟩

/-- The loop ends in a state of its turns, with nothing due unless it fails. -/
theorem expendAfterReset_reached {p s s' : ExpendStrategy ρ} {ng left ng' : NominalGroup} {a amount : Amount}
    {err : Option NominalError} {fuel : Nat} (ready : p.Ready ng) (before : Reached p ng a s left amount)
    (loop : expendAfterReset fuel s left amount = some (s', ng', err)) :
    ∃ t due, Reached p ng a t ng' due ∧ (err = none → due = 0) := by
  induction fuel generalizing s left amount with
  | zero =>
    unfold expendAfterReset at loop
    split at loop
    next paid =>
      cases Option.some.inj loop
      exact ⟨_, amount, before, fun _ => paid⟩
    next => cases loop
  | succ fuel ih =>
    unfold expendAfterReset at loop
    split at loop
    next paid =>
      cases Option.some.inj loop
      exact ⟨_, amount, before, fun _ => paid⟩
    next due =>
      dsimp only at loop
      rcases expendOne_cases (before.paying ready).ready due with ⟨n, left', one, _⟩ | ⟨one, _⟩
      · rw [one] at loop
        dsimp only at loop
        split at loop
        next => cases loop
        next => exact ih (before.turn due one) loop
      · rw [one] at loop
        cases Option.some.inj loop
        exact ⟨_, amount, before, fun h => by cases h⟩

theorem exists_order (ng : NominalGroup) (f : Nominal → UInt64 → Nominal) : ∃ order, ng.IsOrder f order := by
  let before := fun n m : Nominal => decide (f m (ng.values m) ≤ f n (ng.values n))
  have perm := List.mergeSort_perm ng.nominals.toList before
  refine ⟨ng.nominals.toList.mergeSort before, ⟨perm.nodup_iff.mpr ng.nominals.nodup_toList, ?_⟩, ?_⟩
  · rw [List.toFinset_eq_of_perm _ _ perm, Finset.toList_toFinset]
  · have sorted : (ng.nominals.toList.mergeSort before).Pairwise fun n m => before n m = true := by
      apply List.pairwise_mergeSort
      · intro n m k h1 h2
        simp only [before, decide_eq_true_eq] at h1 h2 ⊢
        exact UInt32.le_trans h2 h1
      · intro n m
        simp only [before, Bool.or_eq_true, decide_eq_true_eq]
        exact UInt32.le_total _ _
    exact sorted.imp fun h => of_decide_eq_true h

omit [LT ρ] [DecidableLT ρ] in
theorem exists_resets (rand : Amount → Nat → ρ) (ng : NominalGroup) (s : ExpendStrategy ρ) :
    ∃ p, s.Resets rand ng p := by
  induction s with
  | genericOrder old f =>
    obtain ⟨order, sorted⟩ := ng.exists_order f
    exact ⟨_, .genericOrder sorted⟩
  | statistical old stat =>
    obtain ⟨order, sorted⟩ := stat.exists_order ngOrderSortElemCount
    exact ⟨_, .statistical sorted⟩
  | combine rnd s1 s2 ratio ih1 ih2 =>
    obtain ⟨visit, range⟩ := ng.exists_range
    obtain ⟨p1, first⟩ := ih1
    obtain ⟨p2, second⟩ := ih2
    exact ⟨_, .combine range first second⟩

theorem withdraw_spent {ng ng' : NominalGroup} {a : Amount} {s s' : ExpendStrategy ρ} (nonzero : 0 ∉ ng.nominals)
    (lists : s.Lists ng) (h : Withdraw rand ng a s true s' ng' none) : Spent ng ng' a.toNat := by
  cases h with
  | possible _ dry => cases dry
  | spend check _ loop =>
    obtain ⟨_, _, same, _⟩ := expendLoop_cases nonzero lists check
    obtain ⟨p, reset, loop⟩ := loop.of_resets same
    obtain ⟨t, due, reached, paid⟩ := expendAfterReset_reached (reset.ready lists) .start loop
    have spent := (reached.paying (reset.ready lists)).spent
    rwa [paid rfl] at spent

/-- However `Reset` orders the nominals, `expendLoop` returns, no turn panics or
subtracts what is not there, and without an error exactly the amount is gone. -/
theorem expendLoop_exact (rand : Amount → Nat → ρ) (ng : NominalGroup) (a : Amount) (s : ExpendStrategy ρ)
    (nonzero : 0 ∉ ng.nominals) (lists : s.Lists ng) :
    (∃ p, s.Resets rand ng p) ∧
      (∀ p, s.Resets rand ng p →
        (∀ t left amount, Reached p ng a t left amount → amount ≠ 0 → TurnsSafely t left amount) ∧
          ∃ s' ng' err, expendAfterReset a.toNat p ng a = some (s', ng', err) ∧
            ∃ paid, Spent ng ng' paid ∧ (err = none → paid = a.toNat)) ∧
      ∀ s' ng', Withdraw rand ng a s true s' ng' none → Spent ng ng' a.toNat := by
  refine ⟨exists_resets rand ng s, fun p reset => ?_, fun s' ng' => withdraw_spent nonzero lists⟩
  have ready := reset.ready lists
  refine ⟨fun t left amount reached due => (reached.paying ready).turnsSafely nonzero due, ?_⟩
  obtain ⟨k, ng', err, loop, _⟩ := expendAfterReset_spec nonzero ready (le_refl a.toNat)
  obtain ⟨t, due, reached, paid⟩ := expendAfterReset_reached ready .start loop
  refine ⟨_, ng', err, loop, _, (reached.paying ready).spent, fun ok => ?_⟩
  rw [paid ok]
  rfl

/-- `testStrategy` after a `Reset` on the group of the test. -/
def testReset : ExpendStrategy Nat :=
  .combine (fun k => k % 2) (.genericOrder [10, 5, 2, 1] ngOrderSortElemNominal)
    (.genericOrder [5, 1, 10, 2] ngOrderSortElemCount) 1

theorem expendLoop_exact_combine :
    ∃ s' ng' err, expendAfterReset 17 testReset testGroup 17 = some (s', ng', err) ∧
      ∃ paid, Spent testGroup ng' paid ∧ (err = none → paid = 17) := by
  have nonzero : 0 ∉ testGroup.nominals := by decide
  have lists : testStrategy.Lists testGroup := ⟨trivial, trivial⟩
  have range : testGroup.IsRange [10, 5, 2, 1] := by decide
  have reset : testStrategy.Resets (fun _ k => k % 2) testGroup testReset :=
    .combine range (.genericOrder (by decide)) (.genericOrder (by decide))
  exact ((expendLoop_exact _ testGroup 17 testStrategy nonzero lists).2.1 testReset reset).2

end Vender.NominalGroup
