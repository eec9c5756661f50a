import Vender.Abort
import Vender.Lib.Runs
import Mathlib.Algebra.Order.BigOperators.Group.List
import Mathlib.Data.List.TakeWhile

namespace Vender

structure Till where
  credit : NominalGroup
  credited : Nat
  requests : List (UInt8 × Option TxError)

inductive TillOp
  | add (n : Nominal) (count : UInt64)
  | abort (env : MoneySystem.AbortEnv)

namespace Till

def start (hw : CoinAcceptor) : Till where
  credit := CoinState.init hw
  credited := 0
  requests := []

/-- One operation on the credit, while the total credited fits an `Amount`. -/
def step (hw : CoinAcceptor) (till : Till) : TillOp → Option Till
  | .add n count =>
    match till.credit.add n count with
    | .error _ => some till
    | .ok credit =>
      let credited := till.credited + n.toNat * count.toNat
      if credited < 2 ^ 32 then some { till with credit, credited } else none
  | .abort env =>
    if till.credit.IsRange env.totalRange ∧ till.credit.IsRange env.iterRange then
      let result := MoneySystem.abort hw env till.credit
      some { till with credit := result.credit, requests := till.requests ++ result.requests }
    else none

def Conserved (hw : CoinAcceptor) (till : Till) : Prop :=
  ∀ order, till.credit.IsRange order →
    (till.credit.total order).toNat + hw.paidOut till.requests = till.credited

/-- An abort pays every entry of the credit in full, or is refused before the
changer paid a coin. -/
def AllOrNothing (hw : CoinAcceptor) (credit : NominalGroup) (env : MoneySystem.AbortEnv) : Prop :=
  if env.iterRange.all (CoinState.accepts hw env.tx credit) then
    ∀ n ∈ env.iterRange, (credit.values n).toNat < 256
  else
    ∀ n ∈ env.iterRange.takeWhile (CoinState.accepts hw env.tx credit), (credit.values n).toNat % 256 = 0

/-- The exact balance behind `Conserved`, with what keeps it exact. -/
structure Balanced (hw : CoinAcceptor) (till : Till) : Prop where
  balance : till.credit.worth + hw.paidOut till.requests = till.credited
  bounded : till.credited < 2 ^ 32
  positive : ∀ n ∈ till.credit.nominals, n ≠ 0

theorem balanced_start (hw : CoinAcceptor) : Balanced hw (start hw) where
  balance := by simp [start, CoinState.init]
  bounded := by simp [start]
  positive := fun _ h => CoinState.init_positive h

theorem conserved_iff {hw : CoinAcceptor} {till : Till} (h : till.credit.worth < 2 ^ 32) :
    Conserved hw till ↔ till.credit.worth + hw.paidOut till.requests = till.credited := by
  have exact_total : ∀ order, till.credit.IsRange order →
      (till.credit.total order).toNat = till.credit.worth := by
    intro order ho
    rw [NominalGroup.total_eq_value ho, NominalGroup.value_toNat, Nat.mod_eq_of_lt h]
  constructor
  · intro hc
    obtain ⟨order, ho⟩ := till.credit.exists_range
    rw [← exact_total order ho]
    exact hc order ho
  · intro hb order ho
    rw [exact_total order ho]
    exact hb

end Till

namespace MoneySystem

theorem abort_nominals (hw : CoinAcceptor) (env : AbortEnv) (credit : NominalGroup) :
    (abort hw env credit).credit.nominals = credit.nominals := by
  unfold abort
  split <;> rfl

/-- What one abort does to the exact value of the credit, and what it pays. -/
theorem abort_spec (hw : CoinAcceptor) (env : AbortEnv) (credit : NominalGroup) :
    hw.paidOut (abort hw env credit).requests =
        ((env.iterRange.takeWhile (CoinState.accepts hw env.tx credit)).map
          fun n => n.toNat * ((credit.values n).toNat % 256)).sum ∧
      ((∀ n ∈ env.iterRange, CoinState.accepts hw env.tx credit n = true) →
        (abort hw env credit).credit = credit.clear) ∧
      (¬(∀ n ∈ env.iterRange, CoinState.accepts hw env.tx credit n = true) →
        (abort hw env credit).credit = credit) := by
  obtain ⟨d, err, hi, hpaid, herr, _⟩ := CoinState.iter_dispenseVisit hw env.tx credit env.iterRange {}
  cases err with
  | none =>
    refine ⟨?_, fun _ => ?_, fun hn => absurd (herr.mp rfl) hn⟩
    · simpa [abort, CoinState.dispense, hi] using hpaid
    · simp [abort, CoinState.dispense, hi]
  | some err =>
    refine ⟨?_, fun ha => ?_, fun _ => ?_⟩
    · simpa [abort, CoinState.dispense, hi] using hpaid
    · exact absurd (herr.mpr ha) (by simp)
    · simp [abort, CoinState.dispense, hi]

end MoneySystem

namespace Till

theorem sum_map_eq_zero_iff {credit : NominalGroup} {xs : List Nominal}
    (positive : ∀ n ∈ xs, n ≠ 0) :
    (xs.map fun n => n.toNat * ((credit.values n).toNat % 256)).sum = 0 ↔
      ∀ n ∈ xs, (credit.values n).toNat % 256 = 0 := by
  simp only [List.sum_eq_zero_iff, List.mem_map, forall_exists_index, and_imp, forall_apply_eq_imp_iff₂,
    Nat.mul_eq_zero]
  refine forall₂_congr fun n hn => ?_
  have hp : n.toNat ≠ 0 := (Amount.toNat_pos (positive n hn)).ne'
  simp [hp]

theorem sum_map_eq_worth_iff {credit : NominalGroup} {order : List Nominal} (hr : credit.IsRange order)
    (positive : ∀ n ∈ credit.nominals, n ≠ 0) :
    (order.map fun n => n.toNat * ((credit.values n).toNat % 256)).sum = credit.worth ↔
      ∀ n ∈ order, (credit.values n).toNat < 256 := by
  rw [← List.sum_toFinset _ hr.1, hr.2, NominalGroup.worth, Finset.sum_eq_sum_iff_of_le]
  · simp only [hr.mem]
    refine forall₂_congr fun n hn => ?_
    have hp : 0 < n.toNat := Amount.toNat_pos (positive n hn)
    rw [Nat.mul_right_inj hp.ne']
    omega
  · exact fun n _ => Nat.mul_le_mul_left _ (Nat.mod_le _ _)

theorem abort_conserved_iff {hw : CoinAcceptor} {till : Till} {env : MoneySystem.AbortEnv}
    (hb : Balanced hw till) (hr : till.credit.IsRange env.iterRange) :
    (MoneySystem.abort hw env till.credit).credit.worth +
        hw.paidOut (till.requests ++ (MoneySystem.abort hw env till.credit).requests) = till.credited ↔
      AllOrNothing hw till.credit env := by
  obtain ⟨hpaid, hall, hsome⟩ := MoneySystem.abort_spec hw env till.credit
  have balance := hb.balance
  rw [CoinAcceptor.paidOut_append, hpaid]
  unfold AllOrNothing
  split
  next all =>
    have accepted := List.all_eq_true.mp all
    rw [hall accepted, List.takeWhile_eq_self_iff.mpr accepted, NominalGroup.worth_clear,
      ← sum_map_eq_worth_iff hr hb.positive]
    omega
  next some =>
    have refused := mt List.all_eq_true.mpr some
    have positive : ∀ n ∈ env.iterRange.takeWhile (CoinState.accepts hw env.tx till.credit), n ≠ 0 :=
      fun n hn => hb.positive n (hr.mem.mp (List.takeWhile_subset _ hn))
    rw [hsome refused, ← sum_map_eq_zero_iff positive]
    omega

theorem step_abort {hw : CoinAcceptor} {till till' : Till} {env : MoneySystem.AbortEnv}
    (h : step hw till (.abort env) = some till') :
    till.credit.IsRange env.totalRange ∧ till.credit.IsRange env.iterRange ∧
      till' = { till with
        credit := (MoneySystem.abort hw env till.credit).credit,
        requests := till.requests ++ (MoneySystem.abort hw env till.credit).requests } := by
  simp only [step] at h
  split at h
  next ranges => exact ⟨ranges.1, ranges.2, (Option.some.inj h).symm⟩
  next => cases h

theorem step_add {hw : CoinAcceptor} {till till' : Till} {n : Nominal} {count : UInt64}
    (h : step hw till (.add n count) = some till') :
    till' = till ∨ ∃ credit, till.credit.add n count = .ok credit ∧
      till.credited + n.toNat * count.toNat < 2 ^ 32 ∧
      till' = { till with credit, credited := till.credited + n.toNat * count.toNat } := by
  simp only [step] at h
  split at h
  next => exact Or.inl (Option.some.inj h).symm
  next credit added =>
    split at h
    next fits => exact Or.inr ⟨credit, added, fits, (Option.some.inj h).symm⟩
    next => cases h

theorem balanced_add {hw : CoinAcceptor} {till till' : Till} {n : Nominal} {count : UInt64}
    (hb : Balanced hw till) (h : step hw till (.add n count) = some till') : Balanced hw till' := by
  rcases step_add h with rfl | ⟨credit, added, fits, rfl⟩
  · exact hb
  · have balance := hb.balance
    have grown := NominalGroup.worth_add added (by omega)
    refine ⟨?_, fits, ?_⟩
    · simp only [grown]
      omega
    · simpa only [NominalGroup.add_nominals added] using hb.positive

theorem abort_worth_le (hw : CoinAcceptor) (env : MoneySystem.AbortEnv) (credit : NominalGroup) :
    (MoneySystem.abort hw env credit).credit.worth ≤ credit.worth := by
  obtain ⟨_, hall, hsome⟩ := MoneySystem.abort_spec hw env credit
  by_cases accepted : ∀ n ∈ env.iterRange, CoinState.accepts hw env.tx credit n = true
  · rw [hall accepted, NominalGroup.worth_clear]
    exact Nat.zero_le _
  · rw [hsome accepted]

def ConservedAfter (hw : CoinAcceptor) (_ : Till) (op : TillOp) (till' : Till) : Prop :=
  ∀ env, op = .abort env → Conserved hw till'

def AbortsWhole (hw : CoinAcceptor) (till : Till) (op : TillOp) (_ : Till) : Prop :=
  ∀ env, op = .abort env → AllOrNothing hw till.credit env

theorem conservedAfter_iff {hw : CoinAcceptor} {till till' : Till} {op : TillOp}
    (hs : step hw till op = some till') (hb : Balanced hw till) :
    ConservedAfter hw till op till' ↔ AbortsWhole hw till op till' := by
  cases op with
  | add n count => simp [ConservedAfter, AbortsWhole]
  | abort env =>
    obtain ⟨_, hi, rfl⟩ := step_abort hs
    have bound := hb.bounded
    have balance := hb.balance
    have le := abort_worth_le hw env till.credit
    simp only [ConservedAfter, AbortsWhole, TillOp.abort.injEq, forall_eq']
    rw [conserved_iff (by dsimp only; omega)]
    exact abort_conserved_iff hb hi

theorem balanced_step {hw : CoinAcceptor} {till till' : Till} {op : TillOp}
    (hs : step hw till op = some till') (hb : Balanced hw till)
    (hc : AbortsWhole hw till op till') : Balanced hw till' := by
  cases op with
  | add n count => exact balanced_add hb hs
  | abort env =>
    obtain ⟨_, hi, rfl⟩ := step_abort hs
    have balance := (abort_conserved_iff hb hi).mpr (hc env rfl)
    refine ⟨balance, hb.bounded, ?_⟩
    simpa only [MoneySystem.abort_nominals] using hb.positive

/-- Over every run of credits and aborts, money is conserved after each abort
exactly when each abort was all or nothing. -/
theorem conserved_along_iff (hw : CoinAcceptor) (ops : List TillOp) :
    Runs.Along (step hw) (ConservedAfter hw) (start hw) ops ↔
      Runs.Along (step hw) (AbortsWhole hw) (start hw) ops :=
  Runs.along_iff_along (I := Balanced hw) (C := AbortsWhole hw) (Q := ConservedAfter hw)
    (fun _ _ _ => conservedAfter_iff) (fun _ _ _ => balanced_step) (balanced_start hw)

def timeoutOnSecondCoin : List TillOp :=
  [.add 1 1, .add 2 1,
    .abort { totalRange := [1, 2], iterRange := [1, 2], tx := fun n => if n = 2 then some .timeout else none }]

/-- After the first coin was paid and the second refused, the whole credit is still there. -/
theorem conserved_fails_after_partial_refund :
    ¬Runs.Along (step twoCoinChanger) (ConservedAfter twoCoinChanger) (start twoCoinChanger)
      timeoutOnSecondCoin := by
  intro h
  have after := (((h _ rfl).2 _ rfl).2 _ rfl).1 _ rfl [1, 2] (by decide)
  exact absurd after (by decide)

end Till

end Vender
