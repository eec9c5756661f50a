import Mathlib.Data.List.Induction
import Mathlib.Data.Option.Basic
import Mathlib.Tactic.Common

namespace Runs

variable {σ ε : Type*} {step : σ → ε → Option σ}

/-- The state reached by a list of events, if every one of them was possible. -/
def run (step : σ → ε → Option σ) : σ → List ε → Option σ
  | s, [] => some s
  | s, e :: es => (step s e).bind fun t => run step t es

/-- `C` holds of every step taken along a list of events, seen as the state
before it, the event and the state after it. -/
def Along (step : σ → ε → Option σ) (C : σ → ε → σ → Prop) : σ → List ε → Prop
  | _, [] => True
  | s, e :: es => ∀ t, step s e = some t → C s e t ∧ Along step C t es

theorem run_cons {s u : σ} {e : ε} {es : List ε} :
    run step s (e :: es) = some u ↔ ∃ t, step s e = some t ∧ run step t es = some u :=
  Option.bind_eq_some_iff

theorem run_append {s u : σ} {es es' : List ε} :
    run step s (es ++ es') = some u ↔ ∃ t, run step s es = some t ∧ run step t es' = some u := by
  induction es generalizing s with
  | nil => simp [run]
  | cons e es ih =>
    rw [List.cons_append, run_cons]
    constructor
    · intro h
      obtain ⟨t, ht, hr⟩ := h
      obtain ⟨v, hv, hr⟩ := ih.mp hr
      exact ⟨v, run_cons.mpr ⟨t, ht, hv⟩, hr⟩
    · intro h
      obtain ⟨v, hv, hr⟩ := h
      obtain ⟨t, ht, hv⟩ := run_cons.mp hv
      exact ⟨t, ht, ih.mpr ⟨v, hv, hr⟩⟩

instance decidableAlong {C : σ → ε → σ → Prop} [∀ s e t, Decidable (C s e t)] (s : σ) (es : List ε) :
    Decidable (Along step C s es) :=
  match es with
  | [] => isTrue trivial
  | e :: es =>
    match h : step s e with
    | none => isTrue fun t ht => by simp [h] at ht
    | some t =>
      have := decidableAlong (C := C) t es
      decidable_of_iff (C s e t ∧ Along step C t es)
        ⟨fun hall u hu => by cases Option.some.inj (h.symm.trans hu); exact hall, fun hall => hall t h⟩

/-- One step that keeps an invariant carries it, and whatever it gives of each
step, through a whole run. -/
theorem along_of_invariant {I : σ → Prop} {C Q : σ → ε → σ → Prop}
    (keeps : ∀ s e t, step s e = some t → I s → C s e t → Q s e t ∧ I t)
    {s : σ} {es : List ε} (hi : I s) (hc : Along step C s es) : Along step Q s es := by
  induction es generalizing s with
  | nil => trivial
  | cons e es ih =>
    intro t ht
    obtain ⟨hct, hrest⟩ := hc t ht
    obtain ⟨hq, hit⟩ := keeps s e t ht hi hct
    exact ⟨hq, ih hit hrest⟩

theorem along_mono {C Q : σ → ε → σ → Prop} (weaker : ∀ s e t, C s e t → Q s e t) {s : σ} {es : List ε}
    (hc : Along step C s es) : Along step Q s es :=
  along_of_invariant (I := fun _ => True) (fun s e t _ _ h => ⟨weaker s e t h, trivial⟩) trivial hc

/-- The last state of a run keeps an invariant of its steps. -/
theorem invariant_of_run {I : σ → Prop} {C : σ → ε → σ → Prop}
    (keeps : ∀ s e t, step s e = some t → I s → C s e t → I t)
    {s u : σ} {es : List ε} (hi : I s) (hc : Along step C s es)
    (hr : run step s es = some u) : I u := by
  induction es generalizing s with
  | nil => cases Option.some.inj hr; exact hi
  | cons e es ih =>
    obtain ⟨t, ht, hr⟩ := run_cons.mp hr
    obtain ⟨hct, hrest⟩ := hc t ht
    exact ih (keeps s e t ht hi hct) hrest hr

theorem run_concat {s u : σ} {e : ε} {es : List ε} :
    run step s (es ++ [e]) = some u ↔ ∃ t, run step s es = some t ∧ step t e = some u := by
  rw [run_append]
  simp only [run, Option.bind_fun_some]

/-- What holds of the events taken and the state that they led to, when a step keeps it. -/
theorem history_of_run {I : List ε → σ → Prop} {s : σ}
    (keeps : ∀ es t e u, run step s es = some t → step t e = some u → I es t → I (es ++ [e]) u)
    (hi : I [] s) {u : σ} {es : List ε} (hr : run step s es = some u) : I es u := by
  induction es using List.reverseRecOn generalizing u with
  | nil => cases Option.some.inj hr; exact hi
  | append_singleton es e ih =>
    obtain ⟨t, before, moved⟩ := run_concat.mp hr
    exact keeps es t e u before moved (ih before)

/-- A measure that every step lowers bounds the length of a run. -/
theorem length_le_of_descends {μ : σ → Nat} {I : σ → Prop} {C : σ → ε → σ → Prop}
    (descends : ∀ s e t, step s e = some t → I s → C s e t → μ t < μ s ∧ I t)
    {s u : σ} {es : List ε} (hi : I s) (hc : Along step C s es) (hr : run step s es = some u) :
    es.length + μ u ≤ μ s := by
  induction es generalizing s with
  | nil =>
    cases Option.some.inj hr
    simp
  | cons e es ih =>
    obtain ⟨t, ht, hr⟩ := run_cons.mp hr
    obtain ⟨hct, hrest⟩ := hc t ht
    obtain ⟨lower, hit⟩ := descends s e t ht hi hct
    have later := ih hit hrest hr
    rw [List.length_cons]
    omega

theorem along_of_forall_mem {P : ε → Prop} {es : List ε} (h : ∀ e ∈ es, P e) (s : σ) :
    Along step (fun _ e _ => P e) s es := by
  induction es generalizing s with
  | nil => trivial
  | cons e es ih =>
    intro t _
    exact ⟨h e (by simp), ih (fun e' mem => h e' (by simp [mem])) t⟩

theorem along_and {C D : σ → ε → σ → Prop} {s : σ} {es : List ε} (hc : Along step C s es)
    (hd : Along step D s es) : Along step (fun s e t => C s e t ∧ D s e t) s es := by
  induction es generalizing s with
  | nil => trivial
  | cons e es ih =>
    intro t ht
    obtain ⟨hct, hcrest⟩ := hc t ht
    obtain ⟨hdt, hdrest⟩ := hd t ht
    exact ⟨⟨hct, hdt⟩, ih hcrest hdrest⟩

theorem last_of_along {P : σ → Prop} {s u : σ} {es : List ε} (hp : Along step (fun _ _ t => P t) s es)
    (start : P s) (hr : run step s es = some u) : P u :=
  invariant_of_run (C := fun _ _ t => P t) (fun _ _ _ _ _ hc => hc) start hp hr

theorem along_true (s : σ) (es : List ε) : Along step (fun _ _ _ => True) s es := by
  induction es generalizing s with
  | nil => trivial
  | cons e es ih => exact fun t _ => ⟨trivial, ih t⟩

/-- Two step properties that agree wherever an invariant holds, the second one
keeping that invariant, agree on whole runs. -/
theorem along_iff_along {I : σ → Prop} {C Q : σ → ε → σ → Prop}
    (agree : ∀ s e t, step s e = some t → I s → (Q s e t ↔ C s e t))
    (keeps : ∀ s e t, step s e = some t → I s → C s e t → I t)
    {s : σ} {es : List ε} (hi : I s) : Along step Q s es ↔ Along step C s es := by
  constructor
  · exact along_of_invariant (fun s e t ht hi hq =>
      have hc := (agree s e t ht hi).mp hq
      ⟨hc, keeps s e t ht hi hc⟩) hi
  · exact along_of_invariant (fun s e t ht hi hc =>
      ⟨(agree s e t ht hi).mpr hc, keeps s e t ht hi hc⟩) hi

/-- A step relation that refines another one step by step, its other steps unseen there,
refines it on whole runs. -/
theorem refines_run {τ δ : Type*} {step' : τ → δ → Option τ} {visible : ε → Option δ}
    {C : σ → ε → σ → Prop} {R : σ → τ → Prop}
    (unseen : ∀ s e t x, step s e = some t → C s e t → visible e = none → R s x → R t x)
    (seen : ∀ s e t d x, step s e = some t → C s e t → visible e = some d → R s x →
      ∃ y, step' x d = some y ∧ R t y)
    {s u : σ} {es : List ε} {x : τ} (hr : run step s es = some u) (hc : Along step C s es) (h : R s x) :
    ∃ y, run step' x (es.filterMap visible) = some y ∧ R u y := by
  induction es generalizing s x with
  | nil =>
    cases Option.some.inj hr
    exact ⟨x, rfl, h⟩
  | cons e es ih =>
    obtain ⟨t, ht, hr⟩ := run_cons.mp hr
    obtain ⟨hct, hrest⟩ := hc t ht
    cases view : visible e with
    | none =>
      rw [List.filterMap_cons_none view]
      exact ih hr hrest (unseen s e t x ht hct view h)
    | some d =>
      obtain ⟨y, hy, hty⟩ := seen s e t d x ht hct view h
      obtain ⟨z, hz, huz⟩ := ih hr hrest hty
      rw [List.filterMap_cons_some view]
      exact ⟨z, run_cons.mpr ⟨y, hy, hz⟩, huz⟩

end Runs
