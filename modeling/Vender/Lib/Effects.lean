import Mathlib.Tactic.Common

namespace Effects

universe u v

variable {ε σ α β : Type u} {γ : Type v}

/-- The state a program leaves behind, whether it returns or fails. -/
def after (m : EStateM ε σ α) (s : σ) : σ :=
  match m s with
  | .ok _ t => t
  | .error _ t => t

/-- A program that leaves one aspect of the state as it was. -/
def Keeps (f : σ → γ) (m : EStateM ε σ α) : Prop :=
  ∀ s, f (after m s) = f s

theorem bind_of_ok {m : EStateM ε σ α} {k : α → EStateM ε σ β} {s t : σ} {a : α} (h : m s = .ok a t) :
    (m >>= k) s = k a t := by
  simp [bind, EStateM.bind, h]

theorem bind_of_eq {m m' : EStateM ε σ α} {s s' : σ} (same : m s = m' s') (k : α → EStateM ε σ β) :
    (m >>= k) s = (m' >>= k) s' := by
  simp [bind, EStateM.bind, same]

theorem bind_of_error {m : EStateM ε σ α} {k : α → EStateM ε σ β} {s t : σ} {e : ε} (h : m s = .error e t) :
    (m >>= k) s = .error e t := by
  simp [bind, EStateM.bind, h]

theorem after_bind_ok {m : EStateM ε σ α} {k : α → EStateM ε σ β} {s t : σ} {a : α} (h : m s = .ok a t) :
    after (m >>= k) s = after (k a) t := by
  rw [after, bind_of_ok h, after]

theorem after_bind_error {m : EStateM ε σ α} {k : α → EStateM ε σ β} {s t : σ} {e : ε} (h : m s = .error e t) :
    after (m >>= k) s = t := by
  rw [after, bind_of_error h]

/-- A sequence that returns has had every one of its parts return. -/
theorem bind_eq_ok {m : EStateM ε σ α} {k : α → EStateM ε σ β} {s u : σ} {b : β} :
    (m >>= k) s = .ok b u ↔ ∃ a t, m s = .ok a t ∧ k a t = .ok b u := by
  constructor
  · intro h
    cases hm : m s with
    | ok a t => exact ⟨a, t, rfl, (bind_of_ok hm).symm.trans h⟩
    | error e t => simp [bind, EStateM.bind, hm] at h
  · rintro ⟨a, t, hm, hk⟩
    exact (bind_of_ok hm).trans hk

theorem modify_ok (f : σ → σ) (s : σ) : (modify f : EStateM ε σ PUnit) s = .ok ⟨⟩ (f s) := rfl

theorem get_ok (s : σ) : (get : EStateM ε σ σ) s = .ok s s := rfl

theorem pure_ok (a : α) (s : σ) : (pure a : EStateM ε σ α) s = .ok a s := rfl

theorem pure_eq_ok {a b : α} {s t : σ} : (pure a : EStateM ε σ α) s = .ok b t ↔ a = b ∧ s = t := by
  simp [pure, EStateM.pure]

theorem throw_ne_ok {e : ε} {a : α} {s t : σ} : (throw e : EStateM ε σ α) s ≠ .ok a t := by
  intro h
  have thrown : (EStateM.Result.error e s : EStateM.Result ε σ α) = .ok a t := h
  cases thrown

theorem Keeps.of_ok {f : σ → γ} {m : EStateM ε σ α} (keeps : Keeps f m) {s t : σ} {a : α} (h : m s = .ok a t) :
    f t = f s := by
  have same := keeps s
  simpa [after, h] using same

theorem keeps_pure (f : σ → γ) (a : α) : Keeps f (pure a : EStateM ε σ α) := fun _ => rfl

theorem keeps_throw (f : σ → γ) (e : ε) : Keeps f (throw e : EStateM ε σ α) := fun _ => rfl

theorem keeps_get (f : σ → γ) : Keeps f (get : EStateM ε σ σ) := fun _ => rfl

theorem keeps_modify {f : σ → γ} {g : σ → σ} (h : ∀ s, f (g s) = f s) : Keeps f (modify g : EStateM ε σ PUnit) :=
  h

theorem keeps_bind {f : σ → γ} {m : EStateM ε σ α} {k : α → EStateM ε σ β} (hm : Keeps f m)
    (hk : ∀ a, Keeps f (k a)) : Keeps f (m >>= k) := by
  intro s
  have first := hm s
  cases h : m s with
  | ok a t =>
    rw [after_bind_ok h, hk a t]
    simpa [after, h] using first
  | error e t =>
    rw [after_bind_error h]
    simpa [after, h] using first

/-- From this state the program stops with this error. -/
def Fails (e : ε) (m : EStateM ε σ α) (s : σ) : Prop := ∃ t, m s = .error e t

/-- A program that stops with this error from no state. -/
def Never (e : ε) (m : EStateM ε σ α) : Prop := ∀ s, ¬ Fails e m s

theorem fails_bind {e : ε} {m : EStateM ε σ α} {k : α → EStateM ε σ β} {s : σ} :
    Fails e (m >>= k) s ↔ Fails e m s ∨ ∃ a t, m s = .ok a t ∧ Fails e (k a) t := by
  cases h : m s <;> simp [Fails, bind, EStateM.bind, h]

/-- A sequence fails where its first failing part is reached. -/
theorem Never.fails_bind {e : ε} {m : EStateM ε σ α} (never : Never e m) {k : α → EStateM ε σ β} {s : σ} :
    Fails e (m >>= k) s ↔ ∃ a t, m s = .ok a t ∧ Fails e (k a) t := by
  rw [Effects.fails_bind, or_iff_right (never s)]

theorem fails_of_ok {e : ε} {m : EStateM ε σ α} {k : α → EStateM ε σ β} {s t : σ} {a : α} (h : m s = .ok a t) :
    Fails e (m >>= k) s ↔ Fails e (k a) t := by
  rw [Fails, bind_of_ok h, Fails]

theorem fails_throw (e : ε) (s : σ) : Fails e (throw e : EStateM ε σ α) s := ⟨s, rfl⟩

theorem never_pure (e : ε) (a : α) : Never e (pure a : EStateM ε σ α) := by
  rintro s ⟨t, ⟨⟩⟩

theorem never_get (e : ε) : Never e (get : EStateM ε σ σ) := by
  rintro s ⟨t, ⟨⟩⟩

theorem never_modify (e : ε) (f : σ → σ) : Never e (modify f : EStateM ε σ PUnit) := by
  rintro s ⟨t, ⟨⟩⟩

theorem never_throw {e e' : ε} (other : e' ≠ e) : Never e (throw e' : EStateM ε σ α) := by
  rintro s ⟨t, thrown⟩
  have same : (EStateM.Result.error e' s : EStateM.Result ε σ α) = .error e t := thrown
  cases same
  exact other rfl

theorem never_bind {e : ε} {m : EStateM ε σ α} {k : α → EStateM ε σ β} (hm : Never e m) (hk : ∀ a, Never e (k a)) :
    Never e (m >>= k) := by
  intro s failed
  obtain ⟨a, t, _, failed⟩ := hm.fails_bind.mp failed
  exact hk a t failed

/-- A property that a sequence of programs has from its parts. -/
structure Inherited (P : ∀ {α : Type u}, EStateM ε σ α → Prop) : Prop where
  pure : ∀ {α : Type u} (a : α), P (pure a : EStateM ε σ α)
  get : P (get : EStateM ε σ σ)
  bind : ∀ {α β : Type u} {m : EStateM ε σ α} {k : α → EStateM ε σ β}, P m → (∀ a, P (k a)) → P (m >>= k)

theorem inherited_keeps (f : σ → γ) : Inherited (Keeps f : ∀ {α : Type u}, EStateM ε σ α → Prop) where
  pure := keeps_pure f
  get := keeps_get f
  bind := keeps_bind

theorem inherited_never (e : ε) : Inherited (Never e : ∀ {α : Type u}, EStateM ε σ α → Prop) where
  pure := never_pure e
  get := never_get e
  bind := never_bind

end Effects
