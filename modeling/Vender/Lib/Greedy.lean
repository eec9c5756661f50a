import Mathlib.Data.Finset.Dedup
import Mathlib.Logic.Function.Basic
import Vender.Lib.Entries

namespace Greedy

variable {ι : Type*} (worth : ι → Nat)

/-- The first item of the order that is still held and not worth more than the rest. -/
def pick (held : ι → Nat) (rest : Nat) : List ι → Option ι
  | [] => none
  | i :: order => if worth i ≤ rest ∧ 0 < held i then some i else pick held rest order

theorem pick_some {worth held : ι → Nat} {rest : Nat} {order : List ι} {i : ι}
    (h : pick worth held rest order = some i) : i ∈ order ∧ worth i ≤ rest ∧ 0 < held i := by
  induction order with
  | nil => cases h
  | cons j order ih =>
    unfold pick at h
    split at h
    next fits =>
      cases Option.some.inj h
      exact ⟨List.mem_cons_self, fits⟩
    next =>
      obtain ⟨mem, fits⟩ := ih h
      exact ⟨List.mem_cons_of_mem j mem, fits⟩

theorem pick_none {worth held : ι → Nat} {rest : Nat} {order : List ι} (h : pick worth held rest order = none) :
    ∀ i ∈ order, ¬ (worth i ≤ rest ∧ 0 < held i) := by
  induction order with
  | nil => simp
  | cons j order ih =>
    unfold pick at h
    split at h
    next => cases h
    next misfit =>
      intro i mem
      rcases List.mem_cons.mp mem with rfl | mem
      · exact misfit
      · exact ih h i mem

/-- Along descending worth the pick is the greatest that fits. -/
theorem pick_greatest {worth held : ι → Nat} {rest : Nat} {order : List ι} {i : ι}
    (sorted : order.Pairwise fun i j => worth j ≤ worth i) (h : pick worth held rest order = some i) :
    ∀ j ∈ order, worth i < worth j → ¬ (worth j ≤ rest ∧ 0 < held j) := by
  induction order with
  | nil => cases h
  | cons k order ih =>
    obtain ⟨first, sorted⟩ := List.pairwise_cons.mp sorted
    unfold pick at h
    split at h
    next =>
      cases Option.some.inj h
      intro j mem greater
      rcases List.mem_cons.mp mem with rfl | mem
      · omega
      · have := first j mem
        omega
    next misfit =>
      intro j mem greater
      rcases List.mem_cons.mp mem with rfl | mem
      · exact misfit
      · exact ih sorted h j mem greater

/-- A pick looks past all that is not held or worth too much. -/
theorem pick_filter {worth held : ι → Nat} {rest : Nat} {P : ι → Bool}
    (payable : ∀ i, worth i ≤ rest ∧ 0 < held i → P i = true) (order : List ι) :
    pick worth held rest (order.filter P) = pick worth held rest order := by
  induction order with
  | nil => rfl
  | cons i order ih =>
    by_cases fits : worth i ≤ rest ∧ 0 < held i
    · rw [List.filter_cons_of_pos (payable i fits), pick, pick, if_pos fits, if_pos fits]
    · rw [pick, if_neg fits, ← ih]
      cases listed : P i with
      | true => rw [List.filter_cons_of_pos listed, pick, if_neg fits]
      | false => rw [List.filter_cons_of_neg (by simp [listed])]

variable [DecidableEq ι]

def take (held : ι → Nat) (i : ι) : ι → Nat := Function.update held i (held i - 1)

theorem take_le (held : ι → Nat) (i j : ι) : take held i j ≤ held j := by
  unfold take
  by_cases same : j = i
  · subst same
    simp
  · simp [same]

theorem sum_take (worth : ι → Nat) {held : ι → Nat} {i : ι} {s : Finset ι} (hi : i ∈ s) (pos : 0 < held i) :
    ∑ j ∈ s, worth j * take held i j + worth i = ∑ j ∈ s, worth j * held j := by
  have exchange := Entries.sum_update_entry hi (fun j c => worth j * c) held (held i - 1)
  obtain ⟨k, hk⟩ : ∃ k, held i = k + 1 := ⟨held i - 1, by omega⟩
  simp only [hk, Nat.add_sub_cancel, Nat.mul_add, Nat.mul_one] at exchange
  simp only [take, hk, Nat.add_sub_cancel]
  omega

/-- One pass over the order: of each item in turn as many as are held and fit the rest. -/
def onePass (worth held : ι → Nat) (rest : Nat) : List ι → (ι → Nat) × Nat
  | [] => (held, rest)
  | i :: order =>
    let taken := min (held i) (rest / worth i)
    onePass worth (Function.update held i (held i - taken)) (rest - worth i * taken) order

/-- What is left to pay when each item of the order has taken what fits. -/
def remaining {ι : Type*} (worth held : ι → Nat) (rest : Nat) (order : List ι) : Nat :=
  order.foldl (fun rest i => rest - worth i * min (held i) (rest / worth i)) rest

theorem onePass_skip {worth held : ι → Nat} {rest : Nat} {i : ι} (skip : ¬ (worth i ≤ rest ∧ 0 < held i))
    (order : List ι) : onePass worth held rest (i :: order) = onePass worth held rest order := by
  have nothing : min (held i) (rest / worth i) = 0 := by
    by_cases fits : worth i ≤ rest
    · have none_held : held i = 0 := by
        by_contra some_held
        exact skip ⟨fits, Nat.pos_of_ne_zero some_held⟩
      rw [none_held]
      exact Nat.zero_min _
    · rw [Nat.div_eq_of_lt (by omega)]
      exact Nat.min_zero _
  simp only [onePass, nothing, Nat.sub_zero, Nat.mul_zero, Function.update_eq_self]

theorem onePass_stuck {worth held : ι → Nat} {rest : Nat} {order : List ι}
    (misfits : ∀ i ∈ order, ¬ (worth i ≤ rest ∧ 0 < held i)) : onePass worth held rest order = (held, rest) := by
  induction order with
  | nil => rfl
  | cons i order ih =>
    rw [onePass_skip (misfits i List.mem_cons_self)]
    exact ih fun j mem => misfits j (List.mem_cons_of_mem i mem)

/-- An item skipped once is skipped for good, so a turn changes nothing in the pass. -/
theorem onePass_of_pick {worth held : ι → Nat} {rest : Nat} {order : List ι} {i : ι} (positive : 0 < worth i)
    (picked : pick worth held rest order = some i) :
    onePass worth (take held i) (rest - worth i) order = onePass worth held rest order := by
  induction order with
  | nil => cases picked
  | cons j order ih =>
    unfold pick at picked
    split at picked
    next fits =>
      cases Option.some.inj picked
      obtain ⟨k, hk⟩ : ∃ k, rest = k + worth i := ⟨rest - worth i, by omega⟩
      have again : min (take held i i) ((rest - worth i) / worth i) + 1 = min (held i) (rest / worth i) := by
        rw [take, Function.update_self, hk, Nat.add_sub_cancel, Nat.add_div_right _ positive]
        omega
      have paid : rest - worth i - worth i * min (take held i i) ((rest - worth i) / worth i) =
          rest - worth i * min (held i) (rest / worth i) := by
        rw [← again, Nat.mul_add]
        omega
      have kept : Function.update (take held i) i (take held i i - min (take held i i) ((rest - worth i) / worth i)) =
          Function.update held i (held i - min (held i) (rest / worth i)) := by
        rw [← again, take, Function.update_self, Function.update_idem]
        congr 1
        omega
      simp only [onePass, paid, kept]
    next misfit =>
      have still : ¬ (worth j ≤ rest - worth i ∧ 0 < take held i j) := by
        have fewer := take_le held i j
        omega
      rw [onePass_skip misfit, onePass_skip still]
      exact ih picked

theorem onePass_le {worth held : ι → Nat} {rest : Nat} {order : List ι} (i : ι) :
    (onePass worth held rest order).1 i ≤ held i := by
  induction order generalizing held rest with
  | nil => exact le_rfl
  | cons j order ih =>
    refine ih.trans ?_
    by_cases same : i = j
    · subst same
      rw [Function.update_self]
      exact Nat.sub_le _ _
    · rw [Function.update_of_ne same]

/-- An item that the order does not list again is not touched by the rest of the pass. -/
theorem onePass_other {worth held : ι → Nat} {rest : Nat} {order : List ι} {i : ι} (unlisted : i ∉ order) :
    (onePass worth held rest order).1 i = held i := by
  induction order generalizing held rest with
  | nil => rfl
  | cons j order ih =>
    obtain ⟨other, unlisted⟩ := List.ne_and_not_mem_of_not_mem_cons unlisted
    exact (ih unlisted).trans (Function.update_of_ne other _ _)

theorem remaining_congr {ι : Type*} {worth held held' : ι → Nat} {order : List ι}
    (same : ∀ i ∈ order, held' i = held i)
    (rest : Nat) : remaining worth held' rest order = remaining worth held rest order := by
  induction order generalizing rest with
  | nil => rfl
  | cons i order ih =>
    have later := ih fun j mem => same j (List.mem_cons_of_mem i mem)
    simp only [remaining, List.foldl_cons, same i List.mem_cons_self] at later ⊢
    exact later _

theorem onePass_rest {worth held : ι → Nat} {rest : Nat} {order : List ι} (nodup : order.Nodup) :
    (onePass worth held rest order).2 = remaining worth held rest order := by
  induction order generalizing held rest with
  | nil => rfl
  | cons i order ih =>
    obtain ⟨once, nodup⟩ := List.nodup_cons.mp nodup
    have same : ∀ j ∈ order, Function.update held i (held i - min (held i) (rest / worth i)) j = held j := by
      intro j mem
      apply Function.update_of_ne
      rintro rfl
      exact once mem
    exact (ih nodup).trans (remaining_congr same _)

theorem onePass_held (worth held : ι → Nat) (rest : Nat) {before after : List ι} {i : ι}
    (nodup : (before ++ i :: after).Nodup) :
    (onePass worth held rest (before ++ i :: after)).1 i =
      held i - min (held i) (remaining worth held rest before / worth i) := by
  induction before generalizing held rest with
  | nil =>
    have once := (List.nodup_cons.mp nodup).1
    exact (onePass_other once).trans (Function.update_self _ _ _)
  | cons j before ih =>
    obtain ⟨once, nodup⟩ := List.nodup_cons.mp nodup
    have same : ∀ k ∈ before ++ i :: after,
        Function.update held j (held j - min (held j) (rest / worth j)) k = held k := by
      intro k mem
      apply Function.update_of_ne
      rintro rfl
      exact once mem
    have step := ih (Function.update held j (held j - min (held j) (rest / worth j)))
      (rest - worth j * min (held j) (rest / worth j)) nodup
    rw [same i (by simp), remaining_congr fun k mem => same k (List.mem_append_left _ mem)] at step
    exact step

/-- Paying `rest` one item at a time, the `k`-th item picked along `schedule k`, ends
with nothing left to pay. -/
inductive Pays : (schedule : Nat → List ι) → (held : ι → Nat) → (rest : Nat) → Prop
  | done (schedule : Nat → List ι) (held : ι → Nat) : Pays schedule held 0
  | spend {schedule : Nat → List ι} {held : ι → Nat} {rest : Nat} {i : ι} (due : 0 < rest)
      (picked : pick worth held rest (schedule 0) = some i)
      (then_ : Pays (fun k => schedule (k + 1)) (take held i) (rest - worth i)) :
      Pays schedule held rest

variable {worth} {schedule : Nat → List ι} {held : ι → Nat} {rest : Nat} {i : ι}

theorem pays_iff_of_pick (due : 0 < rest)
    (picked : pick worth held rest (schedule 0) = some i) :
    Pays worth schedule held rest ↔
      Pays worth (fun k => schedule (k + 1)) (take held i) (rest - worth i) := by
  constructor
  · intro h
    cases h with
    | done => omega
    | spend _ picked' then_ =>
      cases picked.symm.trans picked'
      exact then_
  · exact Pays.spend due picked

theorem not_pays_of_pick (due : 0 < rest)
    (picked : pick worth held rest (schedule 0) = none) : ¬ Pays worth schedule held rest := by
  intro h
  cases h with
  | done => omega
  | spend _ picked' _ => cases picked.symm.trans picked'

/-- Schedules that agree in where they put what is held and not worth more than the
amount pay it alike. -/
theorem Pays.congr {P : ι → Bool} {schedule' : Nat → List ι} (h : Pays worth schedule held rest)
    (payable : ∀ i, worth i ≤ rest ∧ 0 < held i → P i = true)
    (same : ∀ k, (schedule k).filter P = (schedule' k).filter P) : Pays worth schedule' held rest := by
  induction h generalizing schedule' with
  | done => exact .done _ _
  | @spend schedule held rest i due picked _ ih =>
    have picked' : pick worth held rest (schedule' 0) = some i := by
      rw [← pick_filter payable, ← same 0, pick_filter payable, picked]
    refine .spend due picked' (ih ?_ fun k => same (k + 1))
    intro j fits
    -- the next turn can take no more than this one
    have fewer := take_le held i j
    exact payable j ⟨by omega, by omega⟩

end Greedy
