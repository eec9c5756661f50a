import Mathlib.Data.List.Infix
import Mathlib.Tactic.Common

namespace PrefixCode

variable {α β : Type*} {encode : α → List β}

/-- No code word is empty, and none starts another. -/
structure Instantaneous (encode : α → List β) : Prop where
  ne_nil : ∀ a, encode a ≠ []
  unique : ∀ {a b : α}, encode a <+: encode b → a = b

/-- `as` is the longest list whose encoding starts `bs`: every other such list starts it. -/
structure Longest (encode : α → List β) (bs : List β) (as : List α) : Prop where
  starts : as.flatMap encode <+: bs
  longest : ∀ {cs : List α}, cs.flatMap encode <+: bs → cs <+: as

theorem Instantaneous.unique_append (h : Instantaneous encode) {a b : α} {s t : List β}
    (same : encode a ++ s = encode b ++ t) : a = b ∧ s = t := by
  have eq : a = b := by
    rcases List.prefix_or_prefix_of_prefix (List.prefix_append (encode a) s)
      (same ▸ List.prefix_append (encode b) t) with ab | ba
    · exact h.unique ab
    · exact (h.unique ba).symm
  subst eq
  exact ⟨rfl, List.append_cancel_left same⟩

/-- Nothing more can be read where no code word starts. -/
theorem Instantaneous.longest (h : Instantaneous encode) (as : List α) {rest : List β}
    (stuck : ∀ a, ¬ encode a <+: rest) : Longest encode (as.flatMap encode ++ rest) as := by
  refine ⟨List.prefix_append _ _, fun {cs} starts => ?_⟩
  induction cs generalizing as with
  | nil => exact List.nil_prefix
  | cons c cs ih =>
    rw [List.flatMap_cons] at starts
    obtain ⟨tail, starts⟩ := starts
    rw [List.append_assoc] at starts
    cases as with
    | nil => exact absurd ⟨cs.flatMap encode ++ tail, by simpa using starts⟩ (stuck c)
    | cons a as =>
      rw [List.flatMap_cons, List.append_assoc] at starts
      obtain ⟨rfl, more⟩ := h.unique_append starts
      exact List.cons_prefix_cons.mpr ⟨rfl, ih as ⟨tail, more⟩⟩

theorem Longest.unique {bs : List β} {as cs : List α} (one : Longest encode bs as)
    (two : Longest encode bs cs) : as = cs :=
  (two.longest one.starts).eq_of_length_le (one.longest two.starts).length_le

/-- A list is read back from its encoding, whatever else could be read from it. -/
theorem Longest.eq_of_whole (h : Instantaneous encode) {as cs : List α}
    (longest : Longest encode (cs.flatMap encode) as) : as = cs := by
  obtain ⟨more, rfl⟩ := longest.longest (List.prefix_refl _)
  have starts := longest.starts.length_le
  cases more with
  | nil => exact List.append_nil cs
  | cons a more =>
    have pos := List.length_pos_iff.mpr (h.ne_nil a)
    simp only [List.flatMap_append, List.flatMap_cons, List.length_append] at starts
    omega

end PrefixCode
