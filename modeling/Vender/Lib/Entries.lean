import Mathlib.Algebra.BigOperators.Group.Finset.Basic
import Mathlib.Data.Finset.Dedup

namespace Entries

variable {ι κ M : Type*} [DecidableEq ι] [AddCommMonoid M]

/-- Writing one entry of a finite map exchanges that entry's share of a sum. -/
theorem sum_update_entry {s : Finset ι} {i : ι} (hi : i ∈ s) (f : ι → κ → M) (v : ι → κ) (x : κ) :
    (∑ j ∈ s, f j (Function.update v i x j)) + f i (v i) = (∑ j ∈ s, f j (v j)) + f i x := by
  rw [← Finset.add_sum_erase s _ hi, ← Finset.add_sum_erase s (fun j => f j (v j)) hi]
  have rest : ∑ j ∈ s.erase i, f j (Function.update v i x j) = ∑ j ∈ s.erase i, f j (v j) := by
    apply Finset.sum_congr rfl
    intro j hj
    rw [Function.update_of_ne (Finset.ne_of_mem_erase hj)]
  rw [rest, Function.update_self, add_right_comm, add_comm (f i x), add_right_comm]

end Entries
