import Vender.Currency

namespace Vender

def ngOrderSortElemNominal (n : Nominal) (_ : UInt64) : Nominal := n

def ngOrderSortElemCount (_ : Nominal) (c : UInt64) : Nominal := c.toUInt32

/-- The four strategies with their state. `rnd` holds the draws of `Float32` still to
come from the generator that the last `Reset` seeded. -/
inductive ExpendStrategy (ρ : Type)
  | genericOrder (order : List Nominal) (sortElemFunc : Nominal → UInt64 → Nominal)
  | statistical (order : List Nominal) (stat : NominalGroup)
  | combine (rnd : Nat → ρ) (s1 s2 : ExpendStrategy ρ) (ratio : ρ)

namespace NominalGroup

variable {ng : NominalGroup}

theorem mem_of_held {n : Nominal} (h : 0 < ng.values n) : n ∈ ng.nominals := by
  by_contra hn
  rw [ng.absent n hn] at h
  exact absurd h (by decide)

/-- The results `order` may have: the nominals as some map range lists them, sorted by
descending key. `sort.Slice` leaves equal keys in any order. -/
def IsOrder (ng : NominalGroup) (sortElemFunc : Nominal → UInt64 → Nominal)
    (order : List Nominal) : Prop :=
  ng.IsRange order ∧
    order.Pairwise fun n m => sortElemFunc m (ng.values m) ≤ sortElemFunc n (ng.values n)

instance (ng : NominalGroup) (f : Nominal → UInt64 → Nominal) (order : List Nominal) :
    Decidable (ng.IsOrder f order) :=
  inferInstanceAs (Decidable (_ ∧ _))

def expendFirst (ng : NominalGroup) (max : Amount) :
    List Nominal → NominalGroup × Except NominalError Nominal
  | [] => (ng, .error .count)
  | n :: order =>
    if h : n ≤ max ∧ 0 < ng.values n then
      (ng.put n (ng.values n - 1) (mem_of_held h.2), .ok n)
    else
      expendFirst ng max order

/-- `none` is the panic on an order that lists too few nominals. -/
def expendOneOrdered (ng : NominalGroup) (order : List Nominal) (max : Amount) :
    Option (NominalGroup × Except NominalError Nominal) :=
  if order.length < ng.nominals.card then
    none
  else if max = 0 then
    some (ng, .ok 0)
  else
    some (ng.expendFirst max order)

end NominalGroup

namespace ExpendStrategy

variable {ρ : Type}

def newExpendLeastCount : ExpendStrategy ρ := .genericOrder [] ngOrderSortElemNominal

def newExpendMostAvailable : ExpendStrategy ρ := .genericOrder [] ngOrderSortElemCount

/-- What `Reset(from)` may leave a strategy in. `rand seed` is the stream of `Float32`
values of a generator with that seed. -/
inductive Resets (rand : Amount → Nat → ρ) (ng : NominalGroup) :
    ExpendStrategy ρ → ExpendStrategy ρ → Prop
  | genericOrder {old order : List Nominal} {f : Nominal → UInt64 → Nominal}
      (sorted : ng.IsOrder f order) : Resets rand ng (.genericOrder old f) (.genericOrder order f)
  | statistical {old order : List Nominal} {stat : NominalGroup}
      (sorted : stat.IsOrder ngOrderSortElemCount order) :
      Resets rand ng (.statistical old stat) (.statistical order stat)
  | combine {old : Nat → ρ} {s1 s2 p1 p2 : ExpendStrategy ρ} {ratio : ρ} {visit : List Nominal}
      (range : ng.IsRange visit) (first : Resets rand ng s1 p1) (second : Resets rand ng s2 p2) :
      Resets rand ng (.combine old s1 s2 ratio) (.combine (rand (ng.total visit)) p1 p2 ratio)

/-- Every statistical part lists all nominals of the group in its `Stat`. -/
def Lists (ng : NominalGroup) : ExpendStrategy ρ → Prop
  | .genericOrder _ _ => True
  | .statistical _ stat => ng.nominals ⊆ stat.nominals
  | .combine _ s1 s2 _ => Lists ng s1 ∧ Lists ng s2

variable [LT ρ] [DecidableLT ρ]

def expendOne (ng : NominalGroup) (max : Amount) :
    ExpendStrategy ρ → Option (ExpendStrategy ρ × NominalGroup × Except NominalError Nominal)
  | .genericOrder order sortElemFunc =>
    (ng.expendOneOrdered order max).map fun r => (.genericOrder order sortElemFunc, r)
  | .statistical order stat =>
    (ng.expendOneOrdered order max).map fun r => (.statistical order stat, r)
  | .combine rnd s1 s2 ratio =>
    let rest := fun k => rnd (k + 1)
    if rnd 0 < ratio then
      (expendOne ng max s1).map fun (s1', r) => (.combine rest s1' s2 ratio, r)
    else
      (expendOne ng max s2).map fun (s2', r) => (.combine rest s1 s2' ratio, r)

end ExpendStrategy

namespace NominalGroup

variable {ρ : Type} [LT ρ] [DecidableLT ρ]

/-- The loop of `expendLoop` after `Reset`. `none` is a panic, of `expendOneOrdered` or on
nominal 0; it is also a loop that is not done when the fuel is. -/
def expendAfterReset : (fuel : Nat) → ExpendStrategy ρ → NominalGroup → Amount →
    Option (ExpendStrategy ρ × NominalGroup × Option NominalError)
  | fuel, s, ng, amount =>
    if amount = 0 then
      some (s, ng, none)
    else
      match fuel with
      | 0 => none
      | fuel + 1 =>
        match s.expendOne ng amount with
        | none => none
        | some (s', ng', .error err) => some (s', ng', some err)
        | some (s', ng', .ok nominal) =>
          if nominal = 0 then none else expendAfterReset fuel s' ng' (amount - nominal)

/-- `expendLoop` returned: with strategy, group and error as given. Each turn takes at
least 1 from the amount. -/
inductive ExpendLoop (rand : Amount → Nat → ρ) (ng : NominalGroup) (amount : Amount)
    (s s' : ExpendStrategy ρ) (ng' : NominalGroup) (err : Option NominalError) : Prop
  | intro (p : ExpendStrategy ρ) (reset : s.Resets rand ng p)
      (loop : expendAfterReset amount.toNat p ng amount = some (s', ng', err))

inductive Withdraw (rand : Amount → Nat → ρ) (ng : NominalGroup) (a : Amount)
    (s : ExpendStrategy ρ) (commit : Bool) :
    ExpendStrategy ρ → NominalGroup → Option NominalError → Prop
  | impossible {s' : ExpendStrategy ρ} {copy : NominalGroup} {err : NominalError}
      (check : ExpendLoop rand ng a s s' copy (some err)) : Withdraw rand ng a s commit s' ng err
  | possible {s' : ExpendStrategy ρ} {copy : NominalGroup}
      (check : ExpendLoop rand ng a s s' copy none) (dry : commit = false) :
      Withdraw rand ng a s commit s' ng none
  | spend {s' s'' : ExpendStrategy ρ} {copy ng' : NominalGroup} {err : Option NominalError}
      (check : ExpendLoop rand ng a s s' copy none) (wet : commit = true)
      (loop : ExpendLoop rand ng a s' s'' ng' err) : Withdraw rand ng a s commit s'' ng' err

end NominalGroup

end Vender
