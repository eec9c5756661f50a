import Vender.OnePass
import Vender.Lib.Change

namespace Vender.NominalGroup

variable {ρ : Type} [LT ρ] [DecidableLT ρ] {rand : Amount → Nat → ρ}

/-- The results `Contains` may have. -/
def Contains (rand : Amount → Nat → ρ) (ng : NominalGroup) (a : Amount) (b : Bool) : Prop :=
  ∃ s' ng' err, Withdraw rand ng a .newExpendLeastCount false s' ng' err ∧ b = err.isNone

/-- A choice of at most the available count of each nominal that sums to `a`. -/
def Payment (ng : NominalGroup) (a : Amount) (c : Nominal → Nat) : Prop :=
  Change.Payment UInt32.toNat ng.nominals ng.held a.toNat c

def coins (ng : NominalGroup) (c : Nominal → Nat) : Nat := Change.count ng.nominals c

/-- `Contains` says whether the amount can be paid, and `LeastCount` pays it with the fewest coins. -/
structure MeansWhatItSays (rand : Amount → Nat → ρ) (ng : NominalGroup) (a : Amount) : Prop where
  contains : ∀ b, Contains rand ng a b → (b = true ↔ ∃ c, Payment ng a c)
  least : ∀ s' ng', Withdraw rand ng a .newExpendLeastCount true s' ng' none →
    ∀ c, Payment ng a c → ng.coins (ng.removed ng') ≤ ng.coins c

/-- Every payment of `a` that keeps a coin back although its smaller coins are
worth as much can be exchanged, at the largest such nominal. -/
def Exchanges (ng : NominalGroup) (a : Amount) : Prop :=
  Change.Exchanges UInt32.toNat ng.nominals ng.held a.toNat

theorem toNat_injOn (s : Finset Nominal) : Set.InjOn UInt32.toNat s :=
  fun _ _ _ _ h => UInt32.toNat_inj.mp h

theorem removed_of_take {ng left ng' : NominalGroup} {n : Nominal} (pos : 0 < ng.held n)
    (taken : left.held = Greedy.take ng.held n) (fewer : ∀ m, ng'.held m ≤ left.held m) :
    ng.removed ng' = Function.update (left.removed ng') n (left.removed ng' n + 1) := by
  funext m
  have bound := fewer m
  have step := congrFun taken m
  change ng.held m - ng'.held m = _
  by_cases same : m = n
  · subst same
    rw [Greedy.take, Function.update_self] at step
    rw [Function.update_self]
    change _ = left.held m - ng'.held m + 1
    omega
  · rw [Greedy.take, Function.update_of_ne same] at step
    rw [Function.update_of_ne same]
    change _ = left.held m - ng'.held m
    omega

theorem removed_self (ng : NominalGroup) : ng.removed ng = fun _ => 0 := funext fun _ => Nat.sub_self _

theorem unspent {ng : NominalGroup} (positive : ∀ n ∈ ng.nominals, 0 < n.toNat) :
    (∀ n, ng.held n ≤ ng.held n) ∧
      ∃ rest, Change.Filled UInt32.toNat ng.nominals ng.held (0 : Amount).toNat (ng.removed ng) rest ∧
        ((none : Option NominalError) = none ↔ rest = 0) := by
  rw [removed_self]
  exact ⟨fun _ => le_rfl, 0, Change.filled_done positive, iff_of_true rfl rfl⟩

/-- A turn takes the greatest coin that fits, so what is filled after it is filled before it. -/
theorem filled_of_turn {order : List Nominal} {left left' ng' : NominalGroup} {amount : Amount}
    {n : Nominal} {rest : Nat}
    (range : left.IsRange order) (sorted : order.Pairwise fun n m => m.toNat ≤ n.toNat)
    (picked : Greedy.pick UInt32.toNat left.held amount.toNat order = some n) (fits : n ≤ amount)
    (same : left'.nominals = left.nominals) (taken : left'.held = Greedy.take left.held n)
    (fewer : ∀ m, ng'.held m ≤ left'.held m)
    (filled : Change.Filled UInt32.toNat left'.nominals left'.held (amount - n).toNat (left'.removed ng') rest) :
    Change.Filled UInt32.toNat left.nominals left.held amount.toNat (left.removed ng') rest := by
  obtain ⟨listed, fit⟩ := Greedy.pick_some picked
  have greatest : ∀ m ∈ left.nominals, n.toNat < m.toNat → ¬ (m.toNat ≤ amount.toNat ∧ 0 < left.held m) :=
    fun m hm => Greedy.pick_greatest sorted picked m (range.mem.mpr hm)
  have due := UInt32.toNat_sub_of_le _ _ fits
  rw [same, taken, due] at filled
  rw [removed_of_take fit.2 taken fewer]
  exact filled.take (range.mem.mp listed) fit greatest

theorem filled_of_noTurn {order : List Nominal} {left : NominalGroup} {amount : Amount} (range : left.IsRange order)
    (picked : Greedy.pick UInt32.toNat left.held amount.toNat order = none) :
    Change.Filled UInt32.toNat left.nominals left.held amount.toNat (left.removed left) amount.toNat := by
  rw [removed_self]
  exact Change.filled_stuck fun m hm => Greedy.pick_none picked m (range.mem.mpr hm)

/-- The loop along descending nominals ends with the filled choice taken. -/
theorem expendAfterReset_filled {fuel : Nat} {order : List Nominal} {f : Nominal → UInt64 → Nominal}
    {s' : ExpendStrategy ρ} {left ng' : NominalGroup} {amount : Amount} {err : Option NominalError}
    (nonzero : 0 ∉ left.nominals) (range : left.IsRange order)
    (sorted : order.Pairwise fun n m => m.toNat ≤ n.toNat)
    (loop : expendAfterReset fuel (.genericOrder order f) left amount = some (s', ng', err)) :
    (∀ n, ng'.held n ≤ left.held n) ∧
      ∃ rest, Change.Filled UInt32.toNat left.nominals left.held amount.toNat (left.removed ng') rest ∧
        (err = none ↔ rest = 0) := by
  have positive := toNat_pos_of_nonzero nonzero
  induction fuel generalizing left amount with
  | zero =>
    unfold expendAfterReset at loop
    split at loop
    next paid =>
      subst paid
      cases Option.some.inj loop
      exact unspent positive
    next => cases loop
  | succ fuel ih =>
    unfold expendAfterReset at loop
    split at loop
    next paid =>
      subst paid
      cases Option.some.inj loop
      exact unspent positive
    next due =>
      dsimp only at loop
      have ready : (ExpendStrategy.genericOrder order f : ExpendStrategy ρ).Ready left := range.ready f
      rcases expendOne_cases ready due with ⟨n, left', one, hn, fits, same, picked, taken⟩ | ⟨one, picked⟩
      · rw [one] at loop
        dsimp only at loop
        split at loop
        next => cases loop
        next =>
          obtain ⟨fewer, rest, filled, ends⟩ := ih (same ▸ nonzero) (range.congr same) loop (same ▸ positive)
          have less : ∀ m, left'.held m ≤ left.held m := by
            rw [taken]
            exact Greedy.take_le _ _
          have whole := filled_of_turn range sorted picked fits same taken fewer filled
          exact ⟨fun m => (fewer m).trans (less m), rest, whole, ends⟩
      · rw [one] at loop
        cases Option.some.inj loop
        have unpaid := (Amount.toNat_pos due).ne'
        exact ⟨fun _ => le_rfl, amount.toNat, filled_of_noTurn range picked, iff_of_false (by simp) unpaid⟩

theorem filled_of_expendLoop {ng ng' : NominalGroup} {a : Amount} {s' : ExpendStrategy ρ} {err : Option NominalError}
    (nonzero : 0 ∉ ng.nominals) (h : ExpendLoop rand ng a .newExpendLeastCount s' ng' err) :
    ∃ rest, Change.Filled UInt32.toNat ng.nominals ng.held a.toNat (ng.removed ng') rest ∧
      (err = none ↔ rest = 0) := by
  obtain ⟨p, reset, loop⟩ := h
  cases reset with
  | genericOrder sorted =>
    have descending := sorted.2.imp fun le => UInt32.le_iff_toNat_le.mp le
    exact (expendAfterReset_filled nonzero sorted.1 descending loop).2

omit [LT ρ] [DecidableLT ρ] in
theorem lists_newExpendLeastCount (ng : NominalGroup) : (.newExpendLeastCount : ExpendStrategy ρ).Lists ng := trivial

theorem meansWhatItSays_of_exchanges {ng : NominalGroup} {a : Amount} (nonzero : 0 ∉ ng.nominals)
    (exchanges : ng.Exchanges a) : MeansWhatItSays rand ng a where
  contains := by
    rintro b ⟨s', ng', err, withdraw, rfl⟩
    cases withdraw with
    | impossible check =>
      obtain ⟨rest, filled, ends⟩ := filled_of_expendLoop nonzero check
      refine iff_of_false (by simp) ?_
      rintro ⟨c, payment⟩
      cases ends.mpr ((filled.cheapest_iff (toNat_injOn _)).mpr exchanges c payment).1
    | possible check _ =>
      obtain ⟨rest, filled, ends⟩ := filled_of_expendLoop nonzero check
      cases ends.mp rfl
      exact iff_of_true rfl ⟨_, filled.payment⟩
    | spend _ wet _ => cases wet
  least := by
    intro s' ng' withdraw c payment
    cases withdraw with
    | possible _ dry => cases dry
    | spend check _ loop =>
      obtain ⟨_, _, same, _⟩ := expendLoop_cases nonzero (lists_newExpendLeastCount ng) check
      obtain ⟨rest, filled, _⟩ := filled_of_expendLoop nonzero (loop.of_resets same)
      exact ((filled.cheapest_iff (toNat_injOn _)).mpr exchanges c payment).2

theorem exchanges_of_meansWhatItSays {ng : NominalGroup} {a : Amount} (nonzero : 0 ∉ ng.nominals)
    (means : MeansWhatItSays rand ng a) : ng.Exchanges a := by
  obtain ⟨p, reset⟩ := exists_resets rand ng (.newExpendLeastCount : ExpendStrategy ρ)
  obtain ⟨s', ng', err, check, same, _⟩ := expendLoop_returns a nonzero (lists_newExpendLeastCount ng) reset
  obtain ⟨rest, filled, ends⟩ := filled_of_expendLoop nonzero check
  apply (filled.cheapest_iff (toNat_injOn _)).mp
  intro c payment
  cases err with
  | some err =>
    have refused : Contains rand ng a false := ⟨s', ng, some err, .impossible check, rfl⟩
    cases (means.contains false refused).mpr ⟨c, payment⟩
  | none =>
    obtain ⟨p', reset', loop⟩ := check
    have again : ExpendLoop rand ng a s' s' ng' none := ⟨p', (same p').mpr reset', loop⟩
    have spent : Withdraw rand ng a .newExpendLeastCount true s' ng' none := .spend ⟨p', reset', loop⟩ rfl again
    exact ⟨ends.mp rfl, means.least s' ng' spent c payment⟩

/-- `Contains` and `LeastCount` mean what they say for an amount exactly if its
payments can be exchanged for the larger coins. -/
theorem meansWhatItSays_iff (rand : Amount → Nat → ρ) (ng : NominalGroup) (a : Amount) (nonzero : 0 ∉ ng.nominals) :
    MeansWhatItSays rand ng a ↔ ng.Exchanges a :=
  ⟨exchanges_of_meansWhatItSays nonzero, meansWhatItSays_of_exchanges nonzero⟩

def threesAndFive : NominalGroup where
  nominals := {5, 3}
  values := fun n => if n = 5 then 1 else if n = 3 then 2 else 0
  absent := by
    intro n hn
    simp only [Finset.mem_insert, Finset.mem_singleton, not_or] at hn
    simp [hn]

theorem threesAndFive_pays_five : MeansWhatItSays (fun _ _ => (0 : Nat)) threesAndFive 5 := by
  refine (meansWhatItSays_iff _ threesAndFive 5 (by decide)).mpr fun c payment n hn left _ => ?_
  have pays := payment.pays
  have sum : ∑ i ∈ threesAndFive.nominals, i.toNat * c i = 5 * c 5 + 3 * c 3 :=
    Finset.sum_pair (by decide)
  rw [sum] at pays
  change 5 * c 5 + 3 * c 3 = 5 at pays
  have members : n = 5 ∨ n = 3 := by simpa [threesAndFive] using hn
  rcases members with rfl | rfl
  · have kept : c 5 < 1 := left.1
    omega
  · have nothing : Change.below UInt32.toNat threesAndFive.nominals c 3 = 0 := Finset.sum_empty
    have fits : 3 ≤ Change.below UInt32.toNat threesAndFive.nominals c 3 := left.2
    omega

/-- One coin of 5 and two of 3: for 6 the loop takes the 5 and is stuck. -/
theorem contains_misses_threes :
    0 ∉ threesAndFive.nominals ∧ ¬ MeansWhatItSays (fun _ _ => (0 : Nat)) threesAndFive 6 := by
  refine ⟨by decide, fun means => ?_⟩
  have check : ExpendLoop (fun _ _ => (0 : Nat)) threesAndFive 6 .newExpendLeastCount
      (.genericOrder [5, 3] ngOrderSortElemNominal) (threesAndFive.put 5 0 (by decide)) (some .count) :=
    ⟨.genericOrder [5, 3] ngOrderSortElemNominal, .genericOrder (by decide), rfl⟩
  have available : ∀ n ∈ threesAndFive.nominals, (if n = 3 then 2 else 0) ≤ threesAndFive.held n := by
    intro n hn
    rcases Finset.mem_insert.mp hn with rfl | hn
    · decide
    · cases Finset.mem_singleton.mp hn
      decide
  have twoThrees : Payment threesAndFive 6 fun n => if n = 3 then 2 else 0 := ⟨available, by decide⟩
  have refused := means.contains false ⟨_, _, _, .impossible check, rfl⟩
  exact absurd (refused.mpr ⟨_, twoThrees⟩) (by decide)

end Vender.NominalGroup
