import Vender.Lib.Greedy
import Mathlib.Algebra.Order.BigOperators.Group.Finset

namespace Change

variable {ι : Type*} (worth : ι → Nat) (s : Finset ι)

/-- A choice from a limited stock that is worth `a`. -/
structure Payment (held : ι → Nat) (a : Nat) (c : ι → Nat) : Prop where
  within : ∀ i ∈ s, c i ≤ held i
  pays : ∑ i ∈ s, worth i * c i = a

def count (c : ι → Nat) : Nat := ∑ i ∈ s, c i

def below (c : ι → Nat) (n : ι) : Nat := ∑ i ∈ s with worth i < worth n, worth i * c i

def above (c : ι → Nat) (n : ι) : Nat := ∑ i ∈ s with worth n < worth i, worth i * c i

/-- The choice keeps back an `n` although what it takes below is worth as much. -/
def LeavesOut (held c : ι → Nat) (n : ι) : Prop := c n < held n ∧ worth n ≤ below worth s c n

/-- Every payment that leaves items out can be exchanged, at the greatest of
them, for one that takes more of it, the same above it and no more items in all. -/
def Exchanges (held : ι → Nat) (a : Nat) : Prop :=
  ∀ c, Payment worth s held a c → ∀ n ∈ s, LeavesOut worth s held c n →
    (∀ m ∈ s, worth n < worth m → ¬ LeavesOut worth s held c m) →
      ∃ c', Payment worth s held a c' ∧ (∀ m ∈ s, worth n < worth m → c' m = c m) ∧ c n < c' n ∧
        count s c' ≤ count s c

/-- What taking the greatest item that fits, again and again, ends with: `c` is
taken, `rest` is left to pay, and of nothing that is left in stock one more
would have fitted when its turn came. -/
structure Filled (held : ι → Nat) (a : Nat) (c : ι → Nat) (rest : Nat) : Prop where
  within : ∀ i ∈ s, c i ≤ held i
  pays : ∑ i ∈ s, worth i * c i + rest = a
  full : ∀ n ∈ s, c n < held n → below worth s c n + rest < worth n

variable {worth s} {held c g : ι → Nat} {a rest : Nat} {n : ι}

theorem split (inj : Set.InjOn worth s) (hn : n ∈ s) (c : ι → Nat) :
    ∑ i ∈ s, worth i * c i = above worth s c n + worth n * c n + below worth s c n := by
  classical
  have parts := Finset.sum_filter_add_sum_filter_not s (fun i => worth n < worth i) fun i => worth i * c i
  have rest := Finset.sum_filter_add_sum_filter_not (s.filter fun i => ¬ worth n < worth i)
    (fun i => worth i < worth n) fun i => worth i * c i
  have smaller : (s.filter fun i => ¬ worth n < worth i).filter (fun i => worth i < worth n) =
      s.filter fun i => worth i < worth n := by
    ext i
    simp only [Finset.mem_filter]
    constructor
    · rintro ⟨⟨mem, _⟩, lt⟩
      exact ⟨mem, lt⟩
    · rintro ⟨mem, lt⟩
      exact ⟨⟨mem, by omega⟩, lt⟩
  have same : (s.filter fun i => ¬ worth n < worth i).filter (fun i => ¬ worth i < worth n) = {n} := by
    ext i
    simp only [Finset.mem_filter, Finset.mem_singleton]
    constructor
    · rintro ⟨⟨mem, _⟩, _⟩
      exact inj mem hn (by omega)
    · rintro rfl
      exact ⟨⟨hn, by omega⟩, by omega⟩
  rw [smaller, same, Finset.sum_singleton] at rest
  unfold above below
  omega

theorem above_congr {c c' : ι → Nat} (agree : ∀ m ∈ s, worth n < worth m → c' m = c m) :
    above worth s c' n = above worth s c n := by
  apply Finset.sum_congr rfl
  intro m hm
  obtain ⟨mem, greater⟩ := Finset.mem_filter.mp hm
  rw [agree m mem greater]

theorem filled_done (pos : ∀ n ∈ s, 0 < worth n) : Filled worth s held 0 (fun _ => 0) 0 where
  within := fun _ _ => Nat.zero_le _
  pays := by simp
  full := by
    intro n hn _
    simpa [below] using pos n hn

theorem filled_stuck (misfit : ∀ n ∈ s, ¬ (worth n ≤ a ∧ 0 < held n)) : Filled worth s held a (fun _ => 0) a where
  within := fun _ _ => Nat.zero_le _
  pays := by simp
  full := by
    intro n hn pos
    have := misfit n hn
    have zero : below worth s (fun _ => 0) n = 0 := by simp [below]
    omega

/-- Taking the greatest item that fits and going on. -/
theorem Filled.take [DecidableEq ι] {i : ι} (hi : i ∈ s) (fits : worth i ≤ a ∧ 0 < held i)
    (greatest : ∀ j ∈ s, worth i < worth j → ¬ (worth j ≤ a ∧ 0 < held j))
    (h : Filled worth s (Greedy.take held i) (a - worth i) g rest) :
    Filled worth s held a (Function.update g i (g i + 1)) rest := by
  have sum := Entries.sum_update_entry hi (fun j c => worth j * c) g (g i + 1)
  have taken := h.pays
  rw [Nat.mul_add, Nat.mul_one] at sum
  have pays : ∑ j ∈ s, worth j * Function.update g i (g i + 1) j + rest = a := by omega
  refine ⟨fun j hj => ?_, pays, fun n hn kept => ?_⟩
  · have within := h.within j hj
    by_cases same : j = i
    · subst same
      simp only [Greedy.take, Function.update_self] at within ⊢
      omega
    · simpa [Greedy.take, same] using within
  · by_cases above : worth i < worth n
    · -- an `n` that did not fit the whole amount does not fit a part of it
      have misfit := greatest n hn above
      have bound : below worth s (Function.update g i (g i + 1)) n ≤
          ∑ j ∈ s, worth j * Function.update g i (g i + 1) j :=
        Finset.sum_le_sum_of_subset (Finset.filter_subset _ s)
      omega
    · have same : below worth s (Function.update g i (g i + 1)) n = below worth s g n := by
        apply Finset.sum_congr rfl
        intro j hj
        have lt := (Finset.mem_filter.mp hj).2
        have other : j ≠ i := by
          rintro rfl
          omega
        rw [Function.update_of_ne other]
      rw [same]
      apply h.full n hn
      by_cases eq : n = i
      · subst eq
        simp only [Greedy.take, Function.update_self] at kept ⊢
        omega
      · simpa [Greedy.take, eq] using kept

/-- Where a payment agrees with the filled choice above an item, they are worth
as much from that item on downwards. -/
theorem Filled.meets (h : Filled worth s held a g rest) (inj : Set.InjOn worth s) (payment : Payment worth s held a c)
    (hn : n ∈ s) (agree : ∀ m ∈ s, worth n < worth m → c m = g m) :
    worth n * c n + below worth s c n = worth n * g n + below worth s g n + rest := by
  have taken := h.pays
  have paid := payment.pays
  rw [split inj hn] at taken paid
  rw [above_congr agree] at paid
  omega

/-- No payment takes more than the filled choice of the greatest item they differ in. -/
theorem Filled.ge (h : Filled worth s held a g rest) (inj : Set.InjOn worth s) (payment : Payment worth s held a c)
    (hn : n ∈ s) (agree : ∀ m ∈ s, worth n < worth m → c m = g m) : c n ≤ g n := by
  by_contra more
  have within := payment.within n hn
  have full := h.full n hn (by omega)
  have meets := h.meets inj payment hn agree
  have one : worth n * (g n + 1) ≤ worth n * c n := Nat.mul_le_mul_left _ (by omega)
  rw [Nat.mul_add, Nat.mul_one] at one
  omega

theorem Filled.not_leavesOut (h : Filled worth s held a g rest) (inj : Set.InjOn worth s)
    (payment : Payment worth s held a c) (hn : n ∈ s) (agree : ∀ m ∈ s, worth n ≤ worth m → c m = g m) :
    ¬ LeavesOut worth s held c n := by
  rintro ⟨kept, fits⟩
  have meets := h.meets inj payment hn fun m mem greater => agree m mem greater.le
  rw [agree n hn le_rfl] at kept meets
  have full := h.full n hn kept
  omega

/-- A payment that falls short of the filled choice leaves an item out there. -/
theorem Filled.leavesOut (h : Filled worth s held a g rest) (inj : Set.InjOn worth s)
    (payment : Payment worth s held a c) (hn : n ∈ s) (agree : ∀ m ∈ s, worth n < worth m → c m = g m)
    (short : c n < g n) : LeavesOut worth s held c n := by
  have within := h.within n hn
  have meets := h.meets inj payment hn agree
  have one : worth n * (c n + 1) ≤ worth n * g n := Nat.mul_le_mul_left _ (by omega)
  rw [Nat.mul_add, Nat.mul_one] at one
  exact ⟨by omega, by omega⟩

/-- One item after another a payment is exchanged until it agrees with the filled choice. -/
theorem Filled.exchange (h : Filled worth s held a g rest) (inj : Set.InjOn worth s)
    (exchanges : Exchanges worth s held a) (hn : n ∈ s) (payment : Payment worth s held a c)
    (agree : ∀ m ∈ s, worth n < worth m → c m = g m) :
    ∃ c', Payment worth s held a c' ∧ (∀ m ∈ s, worth n ≤ worth m → c' m = g m) ∧ count s c' ≤ count s c := by
  obtain ⟨k, hk⟩ : ∃ k, g n - c n = k := ⟨_, rfl⟩
  induction k using Nat.strong_induction_on generalizing c with
  | _ k ih =>
    have bound := h.ge inj payment hn agree
    by_cases equal : c n = g n
    · refine ⟨c, payment, fun m mem le => ?_, le_rfl⟩
      rcases Nat.lt_or_eq_of_le le with lt | eq
      · exact agree m mem lt
      · rw [← inj hn mem eq, equal]
    · have left := h.leavesOut inj payment hn agree (by omega)
      have greatest : ∀ m ∈ s, worth n < worth m → ¬ LeavesOut worth s held c m := by
        intro m mem lt
        exact h.not_leavesOut inj payment mem fun i hi le => agree i hi (by omega)
      obtain ⟨c₁, payment₁, above₁, more, fewer⟩ := exchanges c payment n hn left greatest
      have agree₁ : ∀ m ∈ s, worth n < worth m → c₁ m = g m := fun m mem lt =>
        (above₁ m mem lt).trans (agree m mem lt)
      have bound₁ := h.ge inj payment₁ hn agree₁
      obtain ⟨c', payment', agree', fewer'⟩ := ih (g n - c₁ n) (by omega) payment₁ agree₁ rfl
      exact ⟨c', payment', agree', fewer'.trans fewer⟩

theorem Filled.exchange_all (h : Filled worth s held a g rest) (inj : Set.InjOn worth s)
    (exchanges : Exchanges worth s held a) (payment : Payment worth s held a c) :
    ∃ c', Payment worth s held a c' ∧ (∀ m ∈ s, c' m = g m) ∧ count s c' ≤ count s c := by
  -- downwards over the worths, each brings one more item into agreement
  have down : ∀ t ≤ s.sup worth + 1,
      ∃ c', Payment worth s held a c' ∧ (∀ m ∈ s, t ≤ worth m → c' m = g m) ∧ count s c' ≤ count s c := by
    intro t bound
    induction bound using Nat.decreasingInduction with
    | self =>
      refine ⟨c, payment, fun m mem le => ?_, le_rfl⟩
      have := Finset.le_sup (f := worth) mem
      omega
    | of_succ t _ ih =>
      obtain ⟨c₁, payment₁, agree₁, fewer₁⟩ := ih
      by_cases found : ∃ n ∈ s, worth n = t
      · obtain ⟨n, hn, rfl⟩ := found
        obtain ⟨c', payment', agree', fewer'⟩ :=
          h.exchange inj exchanges hn payment₁ fun m mem lt => agree₁ m mem lt
        exact ⟨c', payment', agree', fewer'.trans fewer₁⟩
      · refine ⟨c₁, payment₁, fun m mem le => agree₁ m mem ?_, fewer₁⟩
        have other : worth m ≠ t := fun eq => found ⟨m, mem, eq⟩
        omega
  obtain ⟨c', payment', agree', fewer'⟩ := down 0 (Nat.zero_le _)
  exact ⟨c', payment', fun m mem => agree' m mem (Nat.zero_le _), fewer'⟩

/-- Where payments can be exchanged, the filled choice pays, and with the fewest items. -/
theorem Filled.cheapest (h : Filled worth s held a g rest) (inj : Set.InjOn worth s)
    (exchanges : Exchanges worth s held a) (payment : Payment worth s held a c) :
    rest = 0 ∧ count s g ≤ count s c := by
  obtain ⟨c', payment', agree', fewer'⟩ := h.exchange_all inj exchanges payment
  have worthSame : ∑ i ∈ s, worth i * c' i = ∑ i ∈ s, worth i * g i :=
    Finset.sum_congr rfl fun m mem => by rw [agree' m mem]
  have countSame : count s c' = count s g := Finset.sum_congr rfl agree'
  have paid := payment'.pays
  have taken := h.pays
  omega

theorem Filled.payment (h : Filled worth s held a g 0) : Payment worth s held a g :=
  ⟨h.within, h.pays⟩

/-- A payment leaves nothing out above an item only by agreeing with the filled choice there. -/
theorem Filled.agree_above (h : Filled worth s held a g rest) (inj : Set.InjOn worth s)
    (payment : Payment worth s held a c)
    (full : ∀ m ∈ s, worth n < worth m → ¬ LeavesOut worth s held c m) :
    ∀ m ∈ s, worth n < worth m → c m = g m := by
  have down : ∀ t ≤ s.sup worth + 1, worth n < t → ∀ m ∈ s, t ≤ worth m → c m = g m := by
    intro t bound
    induction bound using Nat.decreasingInduction with
    | self =>
      intro _ m mem le
      have := Finset.le_sup (f := worth) mem
      omega
    | of_succ t _ ih =>
      intro above m mem le
      have agree := ih (by omega)
      rcases Nat.lt_or_eq_of_le le with lt | rfl
      · exact agree m mem lt
      · have bound := h.ge inj payment mem agree
        by_contra differ
        exact full m mem above (h.leavesOut inj payment mem agree (by omega))
  intro m mem lt
  have bound : worth m ≤ s.sup worth := Finset.le_sup mem
  exact down (worth n + 1) (by omega) (by omega) m mem lt

theorem Filled.exchanges_of_cheapest (h : Filled worth s held a g rest) (inj : Set.InjOn worth s)
    (cheapest : ∀ c, Payment worth s held a c → rest = 0 ∧ count s g ≤ count s c) :
    Exchanges worth s held a := by
  intro c payment n hn left full
  obtain ⟨paid, fewer⟩ := cheapest c payment
  subst paid
  have agree := h.agree_above inj payment full
  refine ⟨g, h.payment, fun m mem lt => (agree m mem lt).symm, ?_, fewer⟩
  have bound := h.ge inj payment hn agree
  by_contra same
  refine h.not_leavesOut inj payment hn (fun m mem le => ?_) left
  rcases Nat.lt_or_eq_of_le le with lt | eq
  · exact agree m mem lt
  · rw [← inj hn mem eq]
    omega

/-- The greatest-first choice pays whatever can be paid, with the fewest items,
exactly if payments can be exchanged. -/
theorem Filled.cheapest_iff (h : Filled worth s held a g rest) (inj : Set.InjOn worth s) :
    (∀ c, Payment worth s held a c → rest = 0 ∧ count s g ≤ count s c) ↔ Exchanges worth s held a :=
  ⟨h.exchanges_of_cheapest inj, fun exchanges _ => h.cheapest inj exchanges⟩

end Change
