import Mathlib.Data.UInt
import Mathlib.Algebra.BigOperators.Ring.Finset
import Mathlib.Algebra.Order.BigOperators.Group.Finset
import Mathlib.Data.Finset.Dedup
import Vender.Lib.Entries

namespace Vender

/-- Integer count of the lowest currency unit, e.g. $1.20 = 120. -/
abbrev Amount := UInt32

abbrev Nominal := UInt32

theorem Amount.toNat_pos {a : Amount} (due : a ≠ 0) : 0 < a.toNat :=
  Nat.pos_of_ne_zero fun zero => due (UInt32.toNat_inj.mp zero)

inductive NominalError
  | invalid
  | count
  deriving DecidableEq, Repr

/-- The map `values` of a group: its keys, and the Go reading of each nominal,
zero for a missing key. -/
structure NominalGroup where
  nominals : Finset Nominal
  values : Nominal → UInt64
  absent : ∀ n, n ∉ nominals → values n = 0

namespace NominalGroup

@[ext] theorem ext {a b : NominalGroup} (hn : a.nominals = b.nominals)
    (hv : ∀ n, a.values n = b.values n) : a = b := by
  cases a; cases b
  simp only [mk.injEq]
  exact ⟨hn, funext hv⟩

def setValid (valid : List Nominal) : NominalGroup where
  nominals := valid.toFinset
  values := fun _ => 0
  absent := fun _ _ => rfl

def put (ng : NominalGroup) (n : Nominal) (count : UInt64) (h : n ∈ ng.nominals) : NominalGroup where
  nominals := ng.nominals
  values := Function.update ng.values n count
  absent := by
    intro m hm
    have hne : m ≠ n := by rintro rfl; exact hm h
    rw [Function.update_of_ne hne]
    exact ng.absent m hm

def add (ng : NominalGroup) (n : Nominal) (count : UInt64) : Except NominalError NominalGroup :=
  if h : n ∈ ng.nominals then .ok (ng.put n (ng.values n + count) h) else .error .invalid

def clear (ng : NominalGroup) : NominalGroup where
  nominals := ng.nominals
  values := fun _ => 0
  absent := fun _ _ => rfl

/-- The orders in which a `range` over the map may visit its keys. -/
def IsRange (ng : NominalGroup) (order : List Nominal) : Prop :=
  order.Nodup ∧ order.toFinset = ng.nominals

instance (ng : NominalGroup) (order : List Nominal) : Decidable (ng.IsRange order) :=
  inferInstanceAs (Decidable (_ ∧ _))

/-- Visit the entries in the given range order, stopping at the first error;
`σ` is what the callback closes over. -/
def iter {σ ε : Type*} (ng : NominalGroup) (f : Nominal → UInt64 → σ → σ × Option ε) :
    List Nominal → σ → σ × Option ε
  | [], s => (s, none)
  | n :: order, s =>
    match f n (ng.values n) s with
    | (t, none) => ng.iter f order t
    | (t, some err) => (t, some err)

def total (ng : NominalGroup) (order : List Nominal) : Amount :=
  order.foldl (fun sum n => sum + n * (ng.values n).toUInt32) 0

/-- What `total` returns, whatever order it visits the entries in. -/
def value (ng : NominalGroup) : Amount :=
  ∑ n ∈ ng.nominals, n * (ng.values n).toUInt32

def worth (ng : NominalGroup) : Nat :=
  ∑ n ∈ ng.nominals, n.toNat * (ng.values n).toNat

def worthOf (ng : NominalGroup) (order : List Nominal) : Nat :=
  (order.map fun n => n.toNat * (ng.values n).toNat).sum

@[simp] theorem put_nominals (ng : NominalGroup) (n : Nominal) (count : UInt64)
    (h : n ∈ ng.nominals) : (ng.put n count h).nominals = ng.nominals := rfl

@[simp] theorem put_values (ng : NominalGroup) (n : Nominal) (count : UInt64)
    (h : n ∈ ng.nominals) : (ng.put n count h).values = Function.update ng.values n count := rfl

@[simp] theorem clear_nominals (ng : NominalGroup) : ng.clear.nominals = ng.nominals := rfl

@[simp] theorem clear_values (ng : NominalGroup) (n : Nominal) : ng.clear.values n = 0 := rfl

@[simp] theorem setValid_nominals (valid : List Nominal) :
    (setValid valid).nominals = valid.toFinset := rfl

@[simp] theorem setValid_values (valid : List Nominal) (n : Nominal) :
    (setValid valid).values n = 0 := rfl

theorem add_ok {ng ng' : NominalGroup} {n : Nominal} {count : UInt64}
    (h : ng.add n count = .ok ng') :
    ∃ hm : n ∈ ng.nominals, ng' = ng.put n (ng.values n + count) hm := by
  unfold add at h
  split at h
  next hm => exact ⟨hm, (Except.ok.inj h).symm⟩
  next => cases h

theorem add_error {ng : NominalGroup} {n : Nominal} {count : UInt64} {err : NominalError}
    (h : ng.add n count = .error err) : n ∉ ng.nominals ∧ err = .invalid := by
  unfold add at h
  split at h
  next => cases h
  next hm => exact ⟨hm, (Except.error.inj h).symm⟩

theorem add_nominals {ng ng' : NominalGroup} {n : Nominal} {count : UInt64}
    (h : ng.add n count = .ok ng') : ng'.nominals = ng.nominals := by
  obtain ⟨hm, rfl⟩ := add_ok h
  rfl

theorem IsRange.mem {ng : NominalGroup} {order : List Nominal} (h : ng.IsRange order)
    {n : Nominal} : n ∈ order ↔ n ∈ ng.nominals := by
  rw [← h.2, List.mem_toFinset]

theorem iter_append {σ ε : Type*} (ng : NominalGroup) (f : Nominal → UInt64 → σ → σ × Option ε)
    (xs ys : List Nominal) (s : σ) :
    ng.iter f (xs ++ ys) s =
      match ng.iter f xs s with
      | (t, none) => ng.iter f ys t
      | (t, some err) => (t, some err) := by
  induction xs generalizing s with
  | nil => rfl
  | cons n xs ih =>
    simp only [List.cons_append, iter]
    split
    next => exact ih _
    next => rfl

/-- A range depends on its function at the entries it visits only. -/
theorem iter_congr {σ ε : Type*} (ng : NominalGroup) {f g : Nominal → UInt64 → σ → σ × Option ε}
    {order : List Nominal} (same : ∀ n ∈ order, f n = g n) (s : σ) : ng.iter f order s = ng.iter g order s := by
  induction order generalizing s with
  | nil => rfl
  | cons n order ih =>
    have rest := ih fun m hm => same m (List.mem_cons_of_mem n hm)
    simp only [iter, same n List.mem_cons_self, rest]

theorem total_eq_sum_map (ng : NominalGroup) (order : List Nominal) :
    ng.total order = (order.map fun n => n * (ng.values n).toUInt32).sum := by
  have acc : ∀ (xs : List Nominal) (a : Amount),
      xs.foldl (fun sum n => sum + n * (ng.values n).toUInt32) a =
        a + (xs.map fun n => n * (ng.values n).toUInt32).sum := by
    intro xs
    induction xs with
    | nil => intro a; simp
    | cons x xs ih => intro a; simp only [List.foldl_cons, ih, List.map_cons, List.sum_cons, add_assoc]
  simpa [total] using acc order 0

@[simp] theorem total_nil (ng : NominalGroup) : ng.total [] = 0 := rfl

@[simp] theorem total_cons (ng : NominalGroup) (n : Nominal) (order : List Nominal) :
    ng.total (n :: order) = n * (ng.values n).toUInt32 + ng.total order := by
  simp [total_eq_sum_map]

theorem total_eq_value {ng : NominalGroup} {order : List Nominal} (h : ng.IsRange order) :
    ng.total order = ng.value := by
  rw [total_eq_sum_map, value, ← h.2, List.sum_toFinset _ h.1]

theorem value_add {ng ng' : NominalGroup} {n : Nominal} {count : UInt64}
    (h : ng.add n count = .ok ng') : ng'.value = ng.value + n * count.toUInt32 := by
  obtain ⟨hm, rfl⟩ := add_ok h
  have exchange := Entries.sum_update_entry hm (fun m c => m * UInt64.toUInt32 c) ng.values
    (ng.values n + count)
  simp only [UInt64.toUInt32_add, mul_add] at exchange
  rw [add_comm (n * (ng.values n).toUInt32), ← add_assoc] at exchange
  exact add_right_cancel exchange

@[simp] theorem value_clear (ng : NominalGroup) : ng.clear.value = 0 := by
  simp [value]

theorem worth_eq_worthOf {ng : NominalGroup} {order : List Nominal} (h : ng.IsRange order) :
    ng.worth = ng.worthOf order := by
  rw [worth, worthOf, ← h.2, List.sum_toFinset _ h.1]

/-- `Amount` is a number of 32 bits: the sum wraps. -/
theorem total_toNat (ng : NominalGroup) (order : List Nominal) :
    (ng.total order).toNat = ng.worthOf order % 2 ^ 32 := by
  rw [total_eq_sum_map, worthOf]
  induction order with
  | nil => rfl
  | cons n order ih =>
    simp only [List.map_cons, List.sum_cons, UInt32.toNat_add, ih, UInt32.toNat_mul,
      UInt64.toNat_toUInt32]
    simp [Nat.add_mod, Nat.mul_mod]

theorem exists_range (ng : NominalGroup) : ∃ order, ng.IsRange order :=
  ⟨ng.nominals.toList, ng.nominals.nodup_toList, ng.nominals.toList_toFinset⟩

theorem value_toNat (ng : NominalGroup) : ng.value.toNat = ng.worth % 2 ^ 32 := by
  obtain ⟨order, hr⟩ := ng.exists_range
  rw [← total_eq_value hr, total_toNat, worth_eq_worthOf hr]

/-- While totals stay below the wrap of `Amount`, counts do not wrap either. -/
theorem worth_add {ng ng' : NominalGroup} {n : Nominal} {count : UInt64}
    (h : ng.add n count = .ok ng') (bounded : ng.worth + n.toNat * count.toNat < 2 ^ 32) :
    ng'.worth = ng.worth + n.toNat * count.toNat := by
  obtain ⟨hm, rfl⟩ := add_ok h
  have exchange := Entries.sum_update_entry hm (fun m c => m.toNat * UInt64.toNat c) ng.values
    (ng.values n + count)
  have entry : n.toNat * (ng.values n).toNat ≤ ng.worth :=
    Finset.single_le_sum (f := fun m => m.toNat * (ng.values m).toNat) (fun _ _ => Nat.zero_le _) hm
  have grown : n.toNat * (ng.values n + count).toNat =
      n.toNat * (ng.values n).toNat + n.toNat * count.toNat := by
    rcases Nat.eq_zero_or_pos n.toNat with zero | pos
    · simp [zero]
    · have h1 := Nat.le_mul_of_pos_left (ng.values n).toNat pos
      have h2 := Nat.le_mul_of_pos_left count.toNat pos
      rw [UInt64.toNat_add, Nat.mod_eq_of_lt (by omega), Nat.mul_add]
  simp only [grown] at exchange
  change (ng.put n (ng.values n + count) hm).worth + _ = ng.worth + _ at exchange
  omega

@[simp] theorem worth_clear (ng : NominalGroup) : ng.clear.worth = 0 := by
  simp [worth]

@[simp] theorem worth_setValid (valid : List Nominal) : (setValid valid).worth = 0 := by
  simp [worth]

end NominalGroup

end Vender
