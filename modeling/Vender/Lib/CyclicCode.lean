import Mathlib.Algebra.Polynomial.FieldDivision

namespace CyclicCode

open Polynomial

variable {F : Type*} [Field F] {g : F[X]}

/-- The polynomial of a row of symbols of `w` coefficients each, the first one on top. -/
noncomputable def word (w : Nat) (symbols : List F[X]) : F[X] :=
  symbols.foldl (fun p s => p * X ^ w + s) 0

/-- One coefficient through the shift register that divides by `g`. -/
noncomputable def shift (g r : F[X]) : F[X] := (X * r) %ₘ g

/-- A symbol is added to the register and shifted out of it. -/
noncomputable def feed (g : F[X]) (w : Nat) (r s : F[X]) : F[X] := (shift g)^[w] (r + s)

theorem word_concat (w : Nat) (symbols : List F[X]) (s : F[X]) :
    word w (symbols ++ [s]) = word w symbols * X ^ w + s := by
  simp [word]

theorem word_nil (w : Nat) : word w ([] : List F[X]) = 0 := rfl

theorem mul_modByMonic_modByMonic (monic : g.Monic) (y p : F[X]) :
    (y * (p %ₘ g)) %ₘ g = (y * p) %ₘ g := by
  apply modByMonic_eq_of_dvd_sub monic
  rw [← mul_sub]
  exact (dvd_modByMonic_sub p g).mul_left y

theorem iterate_shift (monic : g.Monic) (n : Nat) {r : F[X]} (h : r.degree < g.degree) :
    (shift g)^[n] r = (r * X ^ n) %ₘ g := by
  induction n with
  | zero => simpa using ((modByMonic_eq_self_iff monic).mpr h).symm
  | succ n ih =>
    rw [Function.iterate_succ_apply', ih, shift, mul_modByMonic_modByMonic monic, pow_succ]
    congr 1
    ring

theorem feed_eq (monic : g.Monic) (w : Nat) {r s : F[X]} (hr : r.degree < g.degree)
    (hs : s.degree < g.degree) : feed g w r s = ((r + s) * X ^ w) %ₘ g :=
  iterate_shift monic w ((degree_add_le r s).trans_lt (max_lt hr hs))

/-- The register holds the remainder of all that was fed to it. -/
theorem foldl_feed (monic : g.Monic) (w : Nat) {r : F[X]} (hr : r.degree < g.degree)
    {symbols : List F[X]} (hs : ∀ s ∈ symbols, s.degree < g.degree) :
    symbols.foldl (feed g w) r = (r * X ^ (w * symbols.length) + word w symbols * X ^ w) %ₘ g := by
  induction symbols using List.reverseRecOn with
  | nil =>
    simpa [word_nil] using ((modByMonic_eq_self_iff monic).mpr hr).symm
  | append_singleton symbols s ih =>
    rw [List.foldl_append, List.foldl_cons, List.foldl_nil,
      ih fun t ht => hs t (List.mem_append_left _ ht),
      feed_eq monic w (degree_modByMonic_lt _ monic) (hs s (by simp)), word_concat,
      List.length_append, List.length_singleton]
    apply modByMonic_eq_of_dvd_sub monic
    obtain ⟨q, hq⟩ := dvd_modByMonic_sub (r * X ^ (w * symbols.length) + word w symbols * X ^ w) g
    refine ⟨q * X ^ w, ?_⟩
    rw [← mul_assoc, ← hq]
    ring

/-- The last symbol is the remainder of the others if the generator divides the whole word. -/
theorem checks_iff (monic : g.Monic) (w : Nat) {symbols : List F[X]}
    (hs : ∀ s ∈ symbols, s.degree < g.degree) {c : F[X]} (hc : c.degree < g.degree) :
    symbols.foldl (feed g w) 0 = c ↔ g ∣ word w (symbols ++ [-c]) := by
  rw [foldl_feed monic w (by simpa [bot_lt_iff_ne_bot, degree_eq_bot] using monic.ne_zero) hs, word_concat,
    ← sub_eq_add_neg, zero_mul, zero_add]
  constructor
  · rintro rfl
    have := (dvd_modByMonic_sub (word w symbols * X ^ w) g).neg_right
    rwa [neg_sub] at this
  · intro divides
    rw [modByMonic_eq_of_dvd_sub monic divides, (modByMonic_eq_self_iff monic).mpr hc]

theorem word_add (w : Nat) {us vs : List F[X]} (h : us.length = vs.length) :
    word w (List.zipWith (· + ·) us vs) = word w us + word w vs := by
  induction us using List.reverseRecOn generalizing vs with
  | nil => simp [List.eq_nil_of_length_eq_zero h.symm, word_nil]
  | append_singleton us u ih =>
    obtain rfl | ⟨vs, v, rfl⟩ := List.eq_nil_or_concat vs
    · simp at h
    have same : us.length = vs.length := by simpa using h
    rw [List.concat_eq_append, List.zipWith_append same, List.zipWith_cons_cons, List.zipWith_nil_left,
      word_concat, word_concat, word_concat, ih same]
    ring

/-- The coefficients of a word are those of its symbols, counted from the last symbol. -/
theorem coeff_word {w : Nat} {symbols : List F[X]} (hs : ∀ s ∈ symbols, s.degree < w) (k : Nat)
    {r : Nat} (hr : r < w) :
    (word w symbols).coeff (w * k + r) = (symbols.reverse.getD k 0).coeff r := by
  induction symbols using List.reverseRecOn generalizing k with
  | nil => simp [word_nil]
  | append_singleton symbols s ih =>
    rw [word_concat, coeff_add, coeff_mul_X_pow', List.reverse_append, List.reverse_singleton,
      List.singleton_append]
    cases k with
    | zero => simp [hr]
    | succ k =>
      have above : s.coeff (w * (k + 1) + r) = 0 := by
        apply coeff_eq_zero_of_degree_lt
        refine (hs s (by simp)).trans_le ?_
        exact_mod_cast Nat.le_add_right_of_le (Nat.le_mul_of_pos_right w k.succ_pos)
      have index : w * (k + 1) + r - w = w * k + r := by
        rw [Nat.mul_succ]
        omega
      rw [above, add_zero, if_pos (by rw [Nat.mul_succ]; omega), index,
        ih fun t ht => hs t (List.mem_append_left _ ht), List.getD_cons_succ]

/-- A word with few coefficients, wherever they stand, is no multiple of the generator. -/
theorem not_dvd_burst (constant : g.coeff 0 ≠ 0) {e : F[X]} (nonzero : e ≠ 0) (k : Nat)
    (inside : ∀ j, e.coeff j ≠ 0 → k ≤ j ∧ j < k + g.natDegree) : ¬ g ∣ e := by
  intro divides
  obtain ⟨b, rfl⟩ : X ^ k ∣ e := by
    rw [X_pow_dvd_iff]
    intro j hj
    by_contra set
    have := (inside j set).1
    omega
  have coprime : IsCoprime g (X ^ k) := by
    apply IsCoprime.pow_right
    rw [isCoprime_comm, (irreducible_X (R := F)).coprime_iff_not_dvd, X_dvd_iff]
    exact constant
  have factor : g ∣ b := coprime.dvd_of_dvd_mul_left divides
  have hb : b ≠ 0 := right_ne_zero_of_mul nonzero
  have top : (X ^ k * b).coeff (k + b.natDegree) ≠ 0 := by
    rw [add_comm, coeff_X_pow_mul]
    simpa using hb
  have := (inside _ top).2
  have := natDegree_le_of_dvd factor hb
  omega

/-- An error that is no multiple of the generator is noticed. -/
theorem not_dvd_corrupted (w : Nat) {u e : List F[X]} (same : u.length = e.length) (hu : g ∣ word w u)
    (he : ¬ g ∣ word w e) : ¬ g ∣ word w (List.zipWith (· + ·) u e) := by
  rw [word_add w same]
  exact fun divides => he ((dvd_add_right hu).mp divides)

end CyclicCode
