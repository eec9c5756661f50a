import Vender.Abort

namespace Vender

namespace CoinState

theorem asked_of_all_accepted {hw : CoinAcceptor} {tx : Nominal → Option TxError} {ng : NominalGroup}
    {order : List Nominal} (nodup : order.Nodup) (h : ∀ n ∈ order, accepts hw tx ng n = true)
    (d : Dispensing) (m : Nominal) :
    hw.asked (ng.iter (dispenseVisit hw tx) order d).1.requests m =
      hw.asked d.requests m + if m ∈ order then (ng.values m).toNat % 256 else 0 := by
  induction order generalizing d with
  | nil => simp [NominalGroup.iter]
  | cons n order ih =>
    obtain ⟨fresh, nodup⟩ := List.nodup_cons.mp nodup
    obtain ⟨sent, hv, _, hasked, _⟩ := dispenseVisit_accepted (h n (by simp)) d
    simp only [NominalGroup.iter, hv]
    rw [ih nodup (fun k hk => h k (by simp [hk])), CoinAcceptor.asked_append, hasked, Nat.add_assoc]
    by_cases heq : n = m
    · subst heq
      simp [fresh]
    · simp [heq, Ne.symm heq]

theorem accepts_of_small {hw : CoinAcceptor} {tx : Nominal → Option TxError} {ng : NominalGroup}
    {n : Nominal} (supported : (hw.nominalCoinType n).isSome) (accepted : tx n = none)
    (small : (ng.values n).toNat < 16) : accepts hw tx ng n = true := by
  obtain ⟨ct, hct⟩ := Option.isSome_iff_exists.mp supported
  have fits : ¬16 ≤ (ng.values n).toUInt8 := by
    rw [UInt8.le_iff_toNat_le, UInt64.toNat_toUInt8]
    change ¬16 ≤ _
    omega
  simp [accepts, CoinAcceptor.commandDispense, CoinAcceptor.dispenseRequest, fits, hct, accepted]

end CoinState

namespace MoneySystem

theorem abort_all_accepted {hw : CoinAcceptor} {env : AbortEnv} {credit : NominalGroup}
    (ht : credit.IsRange env.totalRange) (hi : credit.IsRange env.iterRange)
    (h : ∀ n ∈ env.iterRange, CoinState.accepts hw env.tx credit n = true) :
    (abort hw env credit).err = none ∧ (abort hw env credit).credit = credit.clear ∧
      ∀ n ∈ credit.nominals, hw.asked (abort hw env credit).requests n = (credit.values n).toNat % 256 := by
  have asks := CoinState.asked_of_all_accepted hi.1 h {}
  obtain ⟨d, err, hd, _, herr, hsum⟩ := CoinState.iter_dispenseVisit hw env.tx credit env.iterRange {}
  obtain rfl := herr.mpr h
  have left : credit.total env.totalRange - d.sum = 0 := by
    rw [hsum rfl, NominalGroup.total_eq_value ht, NominalGroup.total_eq_value hi]
    simp
  refine ⟨by simp [abort, CoinState.dispense, hd, left], by simp [abort, CoinState.dispense, hd], ?_⟩
  intro n hn
  have := asks n
  simpa [abort, CoinState.dispense, hd, hi.mem.mpr hn] using this

theorem accepted_of_abort_ok {hw : CoinAcceptor} {env : AbortEnv} {credit : NominalGroup}
    (h : (abort hw env credit).err = none) :
    ∀ n ∈ env.iterRange, CoinState.accepts hw env.tx credit n = true := by
  obtain ⟨d, err, hd, _, herr, _⟩ := CoinState.iter_dispenseVisit hw env.tx credit env.iterRange {}
  cases err with
  | none => exact herr.mp rfl
  | some err => simp [abort, CoinState.dispense, hd] at h

/-- What an abort owes a credit: no error, requests for exactly the credited
coins, and nothing left. -/
def RefundsAll (hw : CoinAcceptor) (env : AbortEnv) (credit : NominalGroup) : Prop :=
  (abort hw env credit).err = none ∧
    (∀ n ∈ credit.nominals, hw.asked (abort hw env credit).requests n = (credit.values n).toNat) ∧
    ∀ order, (abort hw env credit).credit.IsRange order → (abort hw env credit).credit.total order = 0

/-- With a supported credit and a changer that accepts every request, an abort
refunds the whole credit exactly when every count fits a DISPENSE request. -/
theorem abort_refunds_all_iff {hw : CoinAcceptor} {env : AbortEnv} {credit : NominalGroup}
    (supported : ∀ n ∈ credit.nominals, (hw.nominalCoinType n).isSome)
    (ht : credit.IsRange env.totalRange) (hi : credit.IsRange env.iterRange)
    (accepted : ∀ n, env.tx n = none) :
    RefundsAll hw env credit ↔ ∀ n ∈ credit.nominals, (credit.values n).toNat < 16 := by
  constructor
  · rintro ⟨ok, asks, _⟩ n hn
    have acc := accepted_of_abort_ok ok
    have asked := (abort_all_accepted ht hi acc).2.2 n hn
    obtain ⟨_, _, _, _, small⟩ := CoinState.dispenseVisit_accepted (acc n (hi.mem.mpr hn)) {}
    have := asks n hn
    omega
  · intro small
    have acc : ∀ n ∈ env.iterRange, CoinState.accepts hw env.tx credit n = true := fun n hn =>
      have hm := hi.mem.mp hn
      CoinState.accepts_of_small (supported n hm) (accepted n) (small n hm)
    obtain ⟨ok, cleared, asks⟩ := abort_all_accepted ht hi acc
    refine ⟨ok, fun n hn => ?_, fun order ho => ?_⟩
    · have := small n hn
      rw [asks n hn, Nat.mod_eq_of_lt (by omega)]
    · rw [NominalGroup.total_eq_value ho, cleared, NominalGroup.value_clear]

def firstCoins (count : UInt64) : NominalGroup :=
  (CoinState.init twoCoinChanger).put 1 count (by decide)

def acceptingEnv : AbortEnv where
  totalRange := [1, 2]
  iterRange := [2, 1]
  tx := fun _ => none

theorem mem_firstCoins {count : UInt64} {n : Nominal} (h : n ∈ (firstCoins count).nominals) :
    n = 1 ∨ n = 2 := by
  have keys : (CoinState.init twoCoinChanger).nominals = {1, 2} := by decide
  rw [firstCoins, NominalGroup.put_nominals, keys] at h
  simpa using h

theorem firstCoins_supported (count : UInt64) :
    ∀ n ∈ (firstCoins count).nominals, (twoCoinChanger.nominalCoinType n).isSome := by
  intro n hn
  rcases mem_firstCoins hn with rfl | rfl
  · rfl
  · rfl

theorem abort_refunds_fifteen_coins : RefundsAll twoCoinChanger acceptingEnv (firstCoins 15) := by
  have small : ∀ n ∈ (firstCoins 15).nominals, ((firstCoins 15).values n).toNat < 16 := by
    intro n hn
    rcases mem_firstCoins hn with rfl | rfl
    · decide
    · decide
  apply (abort_refunds_all_iff (firstCoins_supported 15) ?_ ?_ fun _ => rfl).mpr small
  · decide
  · decide

/-- All requests are accepted, yet 256 coins are refunded by asking for none. -/
theorem abort_keeps_256_coins :
    (∀ n ∈ (firstCoins 256).nominals, (twoCoinChanger.nominalCoinType n).isSome) ∧
      (firstCoins 256).IsRange acceptingEnv.totalRange ∧ (firstCoins 256).IsRange acceptingEnv.iterRange ∧
      (∀ n, acceptingEnv.tx n = none) ∧
      (abort twoCoinChanger acceptingEnv (firstCoins 256)).err = none ∧
      ¬RefundsAll twoCoinChanger acceptingEnv (firstCoins 256) := by
  refine ⟨firstCoins_supported 256, by decide, by decide, fun _ => rfl, by decide, ?_⟩
  rintro ⟨_, asks, _⟩
  exact absurd (asks 1 (by decide)) (by decide)

end MoneySystem

end Vender
