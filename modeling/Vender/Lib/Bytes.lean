import Mathlib.Data.UInt
import Mathlib.Tactic.Common

namespace Bytes

/-- A property of bytes holds of all of them if it does of the 256 values. -/
theorem forall_byte {P : UInt8 → Prop} (table : ∀ i : Fin 256, P (UInt8.ofNat i)) (b : UInt8) : P b := by
  simpa using table ⟨b.toNat, b.toNat_lt⟩

/-- The first `n` pieces of a list make its first `n * size` elements. -/
theorem flatten_pieces {α : Type*} (h : List α) (size n : Nat) :
    ((List.range n).map fun i => (h.drop (i * size)).take size).flatten = h.take (n * size) := by
  induction n with
  | zero => simp
  | succ n ih =>
    rw [List.range_succ, List.map_append, List.flatten_append, ih, List.map_singleton, List.flatten_singleton,
      Nat.succ_mul, List.take_add]

/-- Joined pieces without their separators are the pieces. -/
theorem filter_intercalate {α : Type*} [DecidableEq α] {sep : α} {pieces : List (List α)}
    (clean : ∀ piece ∈ pieces, sep ∉ piece) : ([sep].intercalate pieces).filter (· ≠ sep) = pieces.flatten := by
  induction pieces with
  | nil => rfl
  | cons piece rest ih =>
    obtain ⟨here, later⟩ := List.forall_mem_cons.mp clean
    have kept : piece.filter (· ≠ sep) = piece := by
      apply List.filter_eq_self.mpr
      intro b mem
      simpa using fun same : b = sep => here (same ▸ mem)
    cases rest with
    | nil => simpa [List.intercalate_singleton] using kept
    | cons next rest =>
      rw [List.intercalate_cons_cons, List.filter_append, List.filter_append, ih later, kept, List.flatten_cons]
      simp

end Bytes
