import Vender.Lib.Greedy
import Vender.Withdraw

namespace Vender

namespace NominalGroup

def held (ng : NominalGroup) (n : Nominal) : Nat := (ng.values n).toNat

theorem held_put (ng : NominalGroup) {n : Nominal} (h : 0 < ng.values n) :
    (ng.put n (ng.values n - 1) (mem_of_held h)).held = Greedy.take ng.held n := by
  funext m
  have one : (1 : UInt64) ≤ ng.values n := by
    rw [UInt64.le_iff_toNat_le, UInt64.toNat_one]
    exact UInt64.lt_iff_toNat_lt.mp h
  by_cases hm : m = n
  · subst hm
    simp [held, Greedy.take, UInt64.toNat_sub_of_le _ _ one]
  · simp [held, Greedy.take, hm]

theorem expendFirst_cases (ng : NominalGroup) (max : Amount) (order : List Nominal) :
    (∃ (n : Nominal) (h : 0 < ng.values n), n ≤ max ∧
      Greedy.pick UInt32.toNat ng.held max.toNat order = some n ∧
      ng.expendFirst max order = (ng.put n (ng.values n - 1) (mem_of_held h), .ok n)) ∨
    (Greedy.pick UInt32.toNat ng.held max.toNat order = none ∧
      ng.expendFirst max order = (ng, .error .count)) := by
  induction order with
  | nil => exact Or.inr ⟨rfl, rfl⟩
  | cons n order ih =>
    have same : (n.toNat ≤ max.toNat ∧ 0 < ng.held n) ↔ (n ≤ max ∧ 0 < ng.values n) := by
      rw [UInt32.le_iff_toNat_le, UInt64.lt_iff_toNat_lt]
      rfl
    by_cases fits : n ≤ max ∧ 0 < ng.values n
    · refine Or.inl ⟨n, fits.2, fits.1, ?_, ?_⟩
      · rw [Greedy.pick, if_pos (same.mpr fits)]
      · rw [expendFirst, dif_pos fits]
    · rw [Greedy.pick, if_neg (mt same.mp fits), expendFirst, dif_neg fits]
      exact ih

/-- A coin of the nominal is there and not worth more than the amount. -/
def Payable (ng : NominalGroup) (a : Amount) (n : Nominal) : Prop := n ≤ a ∧ 0 < ng.values n

instance (ng : NominalGroup) (a : Amount) (n : Nominal) : Decidable (ng.Payable a n) :=
  inferInstanceAs (Decidable (_ ∧ _))

/-- Two orders of one group can differ only where keys are equal. -/
theorem IsOrder.filter_unique {ng : NominalGroup} {f : Nominal → UInt64 → Nominal} {P : Nominal → Prop}
    [DecidablePred P] {xs ys : List Nominal} (untied : Set.InjOn (fun n => f n (ng.values n)) {n | P n})
    (hx : ng.IsOrder f xs) (hy : ng.IsOrder f ys) :
    xs.filter (fun n => decide (P n)) = ys.filter fun n => decide (P n) := by
  have listed : xs.Perm ys := by
    apply (List.perm_ext_iff_of_nodup hx.1.1 hy.1.1).mpr
    intro n
    rw [hx.1.mem, hy.1.mem]
  apply List.Perm.eq_of_pairwise _ (hx.2.filter _) (hy.2.filter _) (listed.filter _)
  intro n m hn hm h1 h2
  have kept := of_decide_eq_true (List.mem_filter.mp hn).2
  have kept' := of_decide_eq_true (List.mem_filter.mp hm).2
  exact untied kept kept' (UInt32.le_antisymm h2 h1)

end NominalGroup

namespace ExpendStrategy

variable {ρ : Type} {rand : Amount → Nat → ρ} {ng : NominalGroup}

def Ready (ng : NominalGroup) : ExpendStrategy ρ → Prop
  | .genericOrder order _ => ng.nominals.card ≤ order.length
  | .statistical order _ => ng.nominals.card ≤ order.length
  | .combine _ s1 s2 _ => Ready ng s1 ∧ Ready ng s2

theorem Ready.congr {ng' : NominalGroup} {s : ExpendStrategy ρ} (h : s.Ready ng)
    (same : ng'.nominals = ng.nominals) : s.Ready ng' := by
  induction s with
  | genericOrder => simpa [Ready, same] using h
  | statistical => simpa [Ready, same] using h
  | combine rnd s1 s2 ratio ih1 ih2 => exact ⟨ih1 h.1, ih2 h.2⟩

theorem Resets.ready {s p : ExpendStrategy ρ} (h : s.Resets rand ng p) (lists : s.Lists ng) :
    p.Ready ng := by
  induction h with
  | genericOrder sorted =>
    have hl := List.toFinset_card_of_nodup sorted.1.1
    rw [sorted.1.2] at hl
    exact hl.le
  | statistical sorted =>
    have hl := List.toFinset_card_of_nodup sorted.1.1
    rw [sorted.1.2] at hl
    have hc := Finset.card_le_card lists
    unfold Ready
    omega
  | combine _ _ _ ih1 ih2 => exact ⟨ih1 lists.1, ih2 lists.2⟩

/-- A second `Reset` on the same group may choose anything that the first one could. -/
theorem Resets.again {s p q : ExpendStrategy ρ} (h : s.Resets rand ng p) :
    p.Resets rand ng q ↔ s.Resets rand ng q := by
  induction h generalizing q with
  | genericOrder =>
    constructor
    · intro h
      cases h with
      | genericOrder sorted => exact .genericOrder sorted
    · intro h
      cases h with
      | genericOrder sorted => exact .genericOrder sorted
  | statistical =>
    constructor
    · intro h
      cases h with
      | statistical sorted => exact .statistical sorted
    · intro h
      cases h with
      | statistical sorted => exact .statistical sorted
  | combine _ _ _ ih1 ih2 =>
    constructor
    · intro h
      cases h with
      | combine range first second => exact .combine range (ih1.mp first) (ih2.mp second)
    · intro h
      cases h with
      | combine range first second => exact .combine range (ih1.mpr first) (ih2.mpr second)

/-- No two nominals that a payment of `a` can take have equal sort keys in a part of the
strategy. -/
def Untied (ng : NominalGroup) (a : Amount) : ExpendStrategy ρ → Prop
  | .genericOrder _ f => Set.InjOn (fun n => f n (ng.values n)) {n | ng.Payable a n}
  | .statistical _ stat =>
    Set.InjOn (fun n => ngOrderSortElemCount n (stat.values n)) {n | ng.Payable a n}
  | .combine _ s1 s2 _ => Untied ng a s1 ∧ Untied ng a s2

/-- The strategies differ at most in where their orders put nominals without `P`. -/
inductive SameOrders (P : Nominal → Bool) : ExpendStrategy ρ → ExpendStrategy ρ → Prop
  | genericOrder {xs ys : List Nominal} {f : Nominal → UInt64 → Nominal} (same : xs.filter P = ys.filter P) :
      SameOrders P (.genericOrder xs f) (.genericOrder ys f)
  | statistical {xs ys : List Nominal} {stat : NominalGroup} (same : xs.filter P = ys.filter P) :
      SameOrders P (.statistical xs stat) (.statistical ys stat)
  | combine {rnd : Nat → ρ} {s1 s2 t1 t2 : ExpendStrategy ρ} {ratio : ρ} (first : SameOrders P s1 t1)
      (second : SameOrders P s2 t2) : SameOrders P (.combine rnd s1 s2 ratio) (.combine rnd t1 t2 ratio)

theorem sameOrders_of_untied {a : Amount} {s p q : ExpendStrategy ρ} (untied : s.Untied ng a)
    (hp : s.Resets rand ng p) (hq : s.Resets rand ng q) :
    SameOrders (fun n => decide (ng.Payable a n)) p q := by
  induction hp generalizing q with
  | genericOrder sorted =>
    cases hq with
    | genericOrder sorted' => exact .genericOrder (NominalGroup.IsOrder.filter_unique untied sorted sorted')
  | statistical sorted =>
    cases hq with
    | statistical sorted' => exact .statistical (NominalGroup.IsOrder.filter_unique untied sorted sorted')
  | combine range _ _ ih1 ih2 =>
    cases hq with
    | combine range' first' second' =>
      rw [NominalGroup.total_eq_value range, NominalGroup.total_eq_value range']
      exact .combine (ih1 untied.1 first') (ih2 untied.2 second')

variable [LT ρ] [DecidableLT ρ]

def order : ExpendStrategy ρ → List Nominal
  | .genericOrder order _ => order
  | .statistical order _ => order
  | .combine rnd s1 s2 ratio => if rnd 0 < ratio then s1.order else s2.order

def advance : ExpendStrategy ρ → ExpendStrategy ρ
  | .genericOrder order f => .genericOrder order f
  | .statistical order stat => .statistical order stat
  | .combine rnd s1 s2 ratio =>
    if rnd 0 < ratio then .combine (fun k => rnd (k + 1)) s1.advance s2 ratio
    else .combine (fun k => rnd (k + 1)) s1 s2.advance ratio

/-- The orders that the calls of `ExpendOne` look through, one after another. -/
def schedule (s : ExpendStrategy ρ) (k : Nat) : List Nominal := (advance^[k] s).order

theorem schedule_advance (s : ExpendStrategy ρ) :
    s.advance.schedule = fun k => s.schedule (k + 1) := rfl

theorem SameOrders.order {P : Nominal → Bool} {p q : ExpendStrategy ρ} (h : SameOrders P p q) :
    p.order.filter P = q.order.filter P := by
  induction h with
  | genericOrder same => exact same
  | statistical same => exact same
  | combine _ _ ih1 ih2 =>
    unfold ExpendStrategy.order
    split
    · exact ih1
    · exact ih2

theorem SameOrders.advance {P : Nominal → Bool} {p q : ExpendStrategy ρ} (h : SameOrders P p q) :
    SameOrders P p.advance q.advance := by
  induction h with
  | genericOrder same => exact .genericOrder same
  | statistical same => exact .statistical same
  | combine first second ih1 ih2 =>
    unfold ExpendStrategy.advance
    split
    · exact .combine ih1 second
    · exact .combine first ih2

theorem SameOrders.schedule {P : Nominal → Bool} {p q : ExpendStrategy ρ} (h : SameOrders P p q) (k : Nat) :
    (p.schedule k).filter P = (q.schedule k).filter P := by
  induction k generalizing p q with
  | zero => exact h.order
  | succ k ih => exact ih h.advance

theorem expendOne_eq (s : ExpendStrategy ρ) (ng : NominalGroup) (max : Amount) :
    s.expendOne ng max = (ng.expendOneOrdered s.order max).map fun r => (s.advance, r) := by
  induction s with
  | genericOrder => rfl
  | statistical => rfl
  | combine rnd s1 s2 ratio ih1 ih2 =>
    by_cases h : rnd 0 < ratio
    · simp [expendOne, order, advance, h, ih1, Function.comp_def]
    · simp [expendOne, order, advance, h, ih2, Function.comp_def]

theorem Ready.order_length {s : ExpendStrategy ρ} (h : s.Ready ng) :
    ng.nominals.card ≤ s.order.length := by
  induction s with
  | genericOrder => exact h
  | statistical => exact h
  | combine rnd s1 s2 ratio ih1 ih2 =>
    unfold order
    split
    · exact ih1 h.1
    · exact ih2 h.2

theorem Ready.advance {s : ExpendStrategy ρ} (h : s.Ready ng) :
    s.advance.Ready ng := by
  induction s with
  | genericOrder => exact h
  | statistical => exact h
  | combine rnd s1 s2 ratio ih1 ih2 =>
    unfold ExpendStrategy.advance
    split
    · exact ⟨ih1 h.1, h.2⟩
    · exact ⟨h.1, ih2 h.2⟩

/-- `Reset` overwrites all that `ExpendOne` changes. -/
theorem resets_advance {s p : ExpendStrategy ρ} :
    s.advance.Resets rand ng p ↔ s.Resets rand ng p := by
  induction s generalizing p with
  | genericOrder => rfl
  | statistical => rfl
  | combine rnd s1 s2 ratio ih1 ih2 =>
    unfold advance
    constructor
    · intro h
      split at h
      · cases h with
        | combine range first second => exact .combine range (ih1.mp first) second
      · cases h with
        | combine range first second => exact .combine range first (ih2.mp second)
    · intro h
      cases h with
      | combine range first second =>
        split
        · exact .combine range (ih1.mpr first) second
        · exact .combine range first (ih2.mpr second)

end ExpendStrategy

namespace NominalGroup

variable {ρ : Type} [LT ρ] [DecidableLT ρ] {rand : Amount → Nat → ρ}

theorem expendOne_cases {ng : NominalGroup} {amount : Amount} {s : ExpendStrategy ρ}
    (ready : s.Ready ng) (due : amount ≠ 0) :
    (∃ n ng', s.expendOne ng amount = some (s.advance, ng', .ok n) ∧ n ∈ ng.nominals ∧
      n ≤ amount ∧ ng'.nominals = ng.nominals ∧
      Greedy.pick UInt32.toNat ng.held amount.toNat s.order = some n ∧
      ng'.held = Greedy.take ng.held n) ∨
    (s.expendOne ng amount = some (s.advance, ng, .error .count) ∧
      Greedy.pick UInt32.toNat ng.held amount.toNat s.order = none) := by
  have long := ready.order_length
  rw [s.expendOne_eq, expendOneOrdered, if_neg (by omega), if_neg due]
  rcases ng.expendFirst_cases amount s.order with ⟨n, pos, fits, picked, first⟩ | ⟨picked, first⟩
  · refine Or.inl ⟨n, ng.put n (ng.values n - 1) (mem_of_held pos), ?_, mem_of_held pos, fits, rfl,
      picked, ng.held_put pos⟩
    rw [first]
    rfl
  · refine Or.inr ⟨?_, picked⟩
    rw [first]
    rfl

/-- `expendLoop` returns, and without an error exactly when the coins it tries one after
another pay the amount. -/
theorem expendAfterReset_spec {fuel : Nat} {ng : NominalGroup} {amount : Amount}
    {s : ExpendStrategy ρ} (nonzero : 0 ∉ ng.nominals) (ready : s.Ready ng)
    (enough : amount.toNat ≤ fuel) :
    ∃ k ng' err, expendAfterReset fuel s ng amount = some (ExpendStrategy.advance^[k] s, ng', err) ∧
      (err = none ↔ Greedy.Pays UInt32.toNat s.schedule ng.held amount.toNat) := by
  induction fuel generalizing ng amount s with
  | zero =>
    have paid : amount = 0 := UInt32.toNat_inj.mp (by simpa using enough)
    subst paid
    exact ⟨0, ng, none, rfl, iff_of_true rfl (.done _ _)⟩
  | succ fuel ih =>
    by_cases paid : amount = 0
    · subst paid
      exact ⟨0, ng, none, rfl, iff_of_true rfl (.done _ _)⟩
    · have due : 0 < amount.toNat := Amount.toNat_pos paid
      unfold expendAfterReset
      rw [if_neg paid]
      rcases expendOne_cases ready paid with
        ⟨n, ng', one, hm, fits, same, picked, left⟩ | ⟨one, picked⟩
      · have coin : n ≠ 0 := fun h => nonzero (h ▸ hm)
        have pos : 0 < n.toNat := Amount.toNat_pos coin
        have rest := UInt32.toNat_sub_of_le _ _ fits
        have less : (amount - n).toNat ≤ fuel := by omega
        obtain ⟨k, ng'', err, loop, paysIff⟩ :=
          ih (same ▸ nonzero) (ready.advance.congr same) less
        refine ⟨k + 1, ng'', err, ?_, ?_⟩
        · simp only [one, if_neg coin, loop]
          rfl
        · rw [paysIff, left, rest, s.schedule_advance]
          exact (Greedy.pays_iff_of_pick due picked).symm
      · refine ⟨1, ng, some .count, ?_, ?_⟩
        · simp only [one]
          rfl
        · exact iff_of_false nofun (Greedy.not_pays_of_pick due picked)

theorem resets_iterate {s p : ExpendStrategy ρ} {ng : NominalGroup} (k : Nat) :
    (ExpendStrategy.advance^[k] s).Resets rand ng p ↔ s.Resets rand ng p := by
  induction k with
  | zero => rfl
  | succ k ih => rw [Function.iterate_succ_apply', ExpendStrategy.resets_advance, ih]

/-- A payment of `a` ends the same way along whichever orders `Reset` chooses: it pays
along all of them or along none. -/
def TiesDoNotDecide (rand : Amount → Nat → ρ) (ng : NominalGroup) (a : Amount)
    (s : ExpendStrategy ρ) : Prop :=
  ∀ p q, s.Resets rand ng p → s.Resets rand ng q →
    Greedy.Pays UInt32.toNat p.schedule ng.held a.toNat →
    Greedy.Pays UInt32.toNat q.schedule ng.held a.toNat

theorem tiesDoNotDecide_of_untied {ng : NominalGroup} {a : Amount} {s : ExpendStrategy ρ}
    (untied : s.Untied ng a) : TiesDoNotDecide rand ng a s := by
  intro p q hp hq pays
  refine pays.congr ?_ (ExpendStrategy.sameOrders_of_untied untied hp hq).schedule
  rintro n ⟨fits, pos⟩
  exact decide_eq_true ⟨UInt32.le_iff_toNat_le.mpr fits, UInt64.lt_iff_toNat_lt.mpr pos⟩

structure AtomicWithdraw (rand : Amount → Nat → ρ) (ng : NominalGroup) (a : Amount)
    (s : ExpendStrategy ρ) : Prop where
  dry_keeps : ∀ s' ng' err, Withdraw rand ng a s false s' ng' err → ng' = ng
  dry_honest : ∀ s' ng', Withdraw rand ng a s false s' ng' none →
    ∀ s'' ng'' err, Withdraw rand ng' a s' true s'' ng'' err → err = none
  error_keeps : ∀ s' ng' err, Withdraw rand ng a s true s' ng' (some err) → ng' = ng

theorem expendLoop_cases {ng ng' : NominalGroup} {a : Amount} {s s' : ExpendStrategy ρ}
    {err : Option NominalError} (nonzero : 0 ∉ ng.nominals) (lists : s.Lists ng)
    (h : ExpendLoop rand ng a s s' ng' err) :
    ∃ p, s.Resets rand ng p ∧ (∀ q, s'.Resets rand ng q ↔ s.Resets rand ng q) ∧
      (err = none ↔ Greedy.Pays UInt32.toNat p.schedule ng.held a.toNat) := by
  obtain ⟨p, reset, loop⟩ := h
  obtain ⟨k, ng'', err', loop', paysIff⟩ :=
    expendAfterReset_spec nonzero (reset.ready lists) le_rfl
  cases loop.symm.trans loop'
  exact ⟨p, reset, fun q => (resets_iterate k).trans reset.again, paysIff⟩

theorem expendLoop_returns {ng : NominalGroup} {s p : ExpendStrategy ρ} (a : Amount)
    (nonzero : 0 ∉ ng.nominals) (lists : s.Lists ng) (reset : s.Resets rand ng p) :
    ∃ s' ng' err, ExpendLoop rand ng a s s' ng' err ∧
      (∀ q, s'.Resets rand ng q ↔ s.Resets rand ng q) ∧
      (err = none ↔ Greedy.Pays UInt32.toNat p.schedule ng.held a.toNat) := by
  obtain ⟨k, ng', err, loop, paysIff⟩ := expendAfterReset_spec nonzero (reset.ready lists) le_rfl
  exact ⟨_, ng', err, ⟨p, reset, loop⟩, fun q => (resets_iterate k).trans reset.again, paysIff⟩

theorem ExpendLoop.of_resets {ng ng' : NominalGroup} {a : Amount} {s s' s'' : ExpendStrategy ρ}
    {err : Option NominalError} (same : ∀ q, s'.Resets rand ng q ↔ s.Resets rand ng q)
    (h : ExpendLoop rand ng a s' s'' ng' err) : ExpendLoop rand ng a s s'' ng' err := by
  obtain ⟨p, reset, loop⟩ := h
  exact ⟨p, (same p).mp reset, loop⟩

theorem tiesDoNotDecide_of_atomic {ng : NominalGroup} {a : Amount} {s : ExpendStrategy ρ}
    (nonzero : 0 ∉ ng.nominals) (lists : s.Lists ng) (h : AtomicWithdraw rand ng a s) :
    TiesDoNotDecide rand ng a s := by
  intro p q hp hq pays
  obtain ⟨s', copy, err, check, same, paysP⟩ := expendLoop_returns a nonzero lists hp
  have passed : err = none := paysP.mpr pays
  subst passed
  have dry : Withdraw rand ng a s false s' ng none := .possible check rfl
  obtain ⟨s'', ng', err, loop, _, paysQ⟩ := expendLoop_returns a nonzero lists hq
  have recheck : ExpendLoop rand ng a s' s' copy none := check.of_resets fun q => (same q).symm
  have wet : Withdraw rand ng a s' true s'' ng' err :=
    .spend recheck rfl (loop.of_resets fun q => (same q).symm)
  exact paysQ.mp (h.dry_honest s' ng dry s'' ng' err wet)

theorem atomic_of_tiesDoNotDecide {ng : NominalGroup} {a : Amount} {s : ExpendStrategy ρ}
    (nonzero : 0 ∉ ng.nominals) (lists : s.Lists ng) (agree : TiesDoNotDecide rand ng a s) :
    AtomicWithdraw rand ng a s where
  dry_keeps := by
    intro s' ng' err h
    cases h with
    | impossible => rfl
    | possible => rfl
    | spend _ wet _ => cases wet
  dry_honest := by
    intro s' ng' dry s'' ng'' err h
    cases dry with
    | spend _ wet _ => cases wet
    | possible check _ =>
      obtain ⟨p, hp, same, pays⟩ := expendLoop_cases nonzero lists check
      have payable := agree p
      cases h with
      | possible _ dry => cases dry
      | impossible recheck =>
        obtain ⟨q, hq, _, fails⟩ := expendLoop_cases nonzero lists (recheck.of_resets same)
        exact fails.mpr (payable q hp hq (pays.mp rfl))
      | spend recheck _ loop =>
        obtain ⟨_, _, same', _⟩ := expendLoop_cases nonzero lists (recheck.of_resets same)
        obtain ⟨q, hq, _, ends⟩ := expendLoop_cases nonzero lists (loop.of_resets same')
        exact ends.mpr (payable q hp hq (pays.mp rfl))
  error_keeps := by
    intro s' ng' err h
    cases h with
    | impossible => rfl
    | spend check _ loop =>
      obtain ⟨p, hp, same, pays⟩ := expendLoop_cases nonzero lists check
      obtain ⟨q, hq, _, fails⟩ := expendLoop_cases nonzero lists (loop.of_resets same)
      cases fails.mpr (agree p q hp hq (pays.mp rfl))

theorem withdraw_atomic_iff (rand : Amount → Nat → ρ) (ng : NominalGroup) (a : Amount)
    (s : ExpendStrategy ρ) (nonzero : 0 ∉ ng.nominals) (lists : s.Lists ng) :
    AtomicWithdraw rand ng a s ↔ TiesDoNotDecide rand ng a s :=
  ⟨tiesDoNotDecide_of_atomic nonzero lists, atomic_of_tiesDoNotDecide nonzero lists⟩

/-- Where no two coins that the payment can take are tied, the dry run answers for the
real one. -/
theorem withdraw_atomic_of_untied (rand : Amount → Nat → ρ) (ng : NominalGroup) (a : Amount)
    (s : ExpendStrategy ρ) (nonzero : 0 ∉ ng.nominals) (lists : s.Lists ng) (untied : s.Untied ng a) :
    AtomicWithdraw rand ng a s :=
  atomic_of_tiesDoNotDecide nonzero lists (tiesDoNotDecide_of_untied untied)

def testGroup : NominalGroup where
  nominals := {10, 5, 2, 1}
  values := fun n => if n = 10 then 2 else if n = 5 then 8 else if n = 2 then 1 else if n = 1 then 3 else 0
  absent := by
    intro n hn
    simp only [Finset.mem_insert, Finset.mem_singleton, not_or] at hn
    simp [hn]

def testStrategy : ExpendStrategy Nat :=
  .combine (fun _ => 0) .newExpendLeastCount .newExpendMostAvailable 1

theorem withdraw_atomic_combine :
    0 ∉ testGroup.nominals ∧ testStrategy.Lists testGroup ∧ testStrategy.Untied testGroup 17 ∧
      AtomicWithdraw (fun seed k => (seed.toNat + k) % 2) testGroup 17 testStrategy := by
  have nonzero : 0 ∉ testGroup.nominals := by decide
  have lists : testStrategy.Lists testGroup := ⟨trivial, trivial⟩
  have untied : testStrategy.Untied testGroup 17 := by
    refine ⟨fun n _ m _ same => same, ?_⟩
    intro n hn m hm
    have cases : ∀ k, testGroup.Payable 17 k → k = 10 ∨ k = 5 ∨ k = 2 ∨ k = 1 := by
      intro k hk
      simpa [testGroup] using mem_of_held hk.2
    rcases cases n hn with rfl | rfl | rfl | rfl <;> rcases cases m hm with rfl | rfl | rfl | rfl <;>
      decide
  exact ⟨nonzero, lists, untied, withdraw_atomic_of_untied _ _ 17 _ nonzero lists untied⟩

def tiedGroup : NominalGroup where
  nominals := {5, 3}
  values := fun n => if n = 5 then 1 else if n = 3 then 1 else 0
  absent := by
    intro n hn
    simp only [Finset.mem_insert, Finset.mem_singleton, not_or] at hn
    simp [hn]

/-- The dry run tries 5 first and succeeds; the second run tries 3 first, takes it and
fails. -/
theorem withdraw_mostAvailable_loses_coin :
    0 ∉ tiedGroup.nominals ∧ (.newExpendMostAvailable : ExpendStrategy Nat).Lists tiedGroup ∧
      ¬ AtomicWithdraw (fun _ _ => 0) tiedGroup 5 (.newExpendMostAvailable : ExpendStrategy Nat) := by
  refine ⟨by decide, trivial, fun h => ?_⟩
  have check : ExpendLoop (fun _ _ => 0) tiedGroup 5 (.newExpendMostAvailable : ExpendStrategy Nat)
      (.genericOrder [5, 3] ngOrderSortElemCount) (tiedGroup.put 5 0 (by decide)) none :=
    ⟨.genericOrder [5, 3] ngOrderSortElemCount, .genericOrder (by decide), rfl⟩
  have loop : ExpendLoop (fun _ _ => 0) tiedGroup 5
      (.genericOrder [5, 3] ngOrderSortElemCount : ExpendStrategy Nat)
      (.genericOrder [3, 5] ngOrderSortElemCount) (tiedGroup.put 3 0 (by decide)) (some .count) :=
    ⟨.genericOrder [3, 5] ngOrderSortElemCount, .genericOrder (by decide), rfl⟩
  have lost := h.error_keeps _ _ _ (.spend check rfl loop)
  have three : (tiedGroup.put 3 0 (by decide)).values 3 = tiedGroup.values 3 := by rw [lost]
  exact absurd three (by decide)

end NominalGroup

end Vender
