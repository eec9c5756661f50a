import Vender.Sequence

namespace Vender

theorem RunPc.wake_isBlocked {α : Type*} (pc : RunPc α) : pc.wake.isBlocked = false := by
  cases pc <;> rfl

namespace Sequence

variable {α : Type*}

def asleep (s : Sequence α) : Bool := s.runners.any fun r => r.pc.isBlocked

/-- Some caller still has a `Touch` to perform. -/
def touchComes (s : Sequence α) : Bool := s.callers.any CallPc.touches

/-- A runner is blocked in `WaitTouch`, the sequence should go on or give up,
and nobody will tell the runner. -/
def LostWakeUp (s : Sequence α) : Prop :=
  s.asleep = true ∧ (s.state = .run ∨ s.state = .error) ∧ s.touchComes = false

/-- The step is a runner going to sleep in `WaitTouch`. -/
def fallsAsleep (s : Sequence α) : SeqStep → Bool
  | .runner i => match (s.runners[i]?).map Runner.pc with
    | some (.waitTouch _) => true
    | _ => false
  | _ => false

/-- What the state asks of a waiting runner is still to be announced by a `Touch`. -/
def Announced (s : Sequence α) : Prop :=
  s.state = .run ∨ s.state = .error → s.touchComes = true

theorem asleep_broadcast (s : Sequence α) : s.broadcast.asleep = false := by
  simp [asleep, broadcast, RunPc.wake_isBlocked]

theorem asleep_of_setRunner {s : Sequence α} {i : Nat} {r : Runner α} (awake : r.pc.isBlocked = false)
    (h : (s.setRunner i r).asleep = true) : s.asleep = true := by
  obtain ⟨r', mem, blocked⟩ := List.any_eq_true.mp h
  rcases List.mem_or_eq_of_mem_set mem with before | rfl
  · exact List.any_eq_true.mpr ⟨r', before, blocked⟩
  · simp [awake] at blocked

theorem any_set {β : Type*} {l : List β} {i : Nat} {x y : β} {p : β → Bool} (hi : l[i]? = some x) (h : p y = true) :
    (l.set i y).any p = true := by
  have hlt := (List.getElem?_eq_some_iff.mp hi).1
  exact List.any_eq_true.mpr ⟨y, List.mem_set hlt y, h⟩

theorem asleep_setRunner {s : Sequence α} {i : Nat} {r r' : Runner α} (hi : s.runners[i]? = some r)
    (blocked : r'.pc.isBlocked = true) : (s.setRunner i r').asleep = true := any_set hi blocked

theorem touchComes_setCaller {s : Sequence α} {i : Nat} {pc pc' : CallPc α} (hi : s.callers[i]? = some pc)
    (touches : pc'.touches = true) : (s.setCaller i pc').touchComes = true := any_set hi touches

theorem touchComes_setCaller_of_silent {s : Sequence α} {i : Nat} {pc pc' : CallPc α}
    (hi : s.callers[i]? = some pc) (silent : pc.touches = false) (h : s.touchComes = true) :
    (s.setCaller i pc').touchComes = true := by
  obtain ⟨c, mem, touches⟩ := List.any_eq_true.mp h
  obtain ⟨j, hj⟩ := List.mem_iff_getElem?.mp mem
  have other : i ≠ j := by
    rintro rfl
    rw [hi] at hj
    cases hj
    simp [silent] at touches
  have still : (s.setCaller i pc').callers[j]? = some c := by
    simp [setCaller, List.getElem?_set_ne other, hj]
  exact List.any_eq_true.mpr ⟨c, List.mem_iff_getElem?.mpr ⟨j, still⟩, touches⟩

theorem not_lostWakeUp_of_touchComes {s : Sequence α} (h : s.touchComes = true) : ¬ s.LostWakeUp := by
  rintro ⟨_, _, silent⟩
  simp [h] at silent

theorem not_lostWakeUp_of_awake {s : Sequence α} (h : s.asleep = false) : ¬ s.LostWakeUp := by
  rintro ⟨asleep, _⟩
  simp [h] at asleep

/-- A caller's step leaves a `Touch` to perform, or wakes everybody, or is
`WaitDone` of a call that has touched already. -/
theorem callerStep_cases {s t : Sequence α} {i : Nat} {pc : CallPc α} (hi : s.callers[i]? = some pc)
    (h : s.callerStep i pc = some t) :
    t.touchComes = true ∨ t.asleep = false ∨ pc.touches = false ∧ ∃ pc', t = s.setCaller i pc' := by
  have pending : ∀ {u : Sequence α} {pc' : CallPc α}, u.setCaller i pc' = t → u.callers = s.callers →
      pc'.touches = true → t.touchComes = true := by
    rintro u pc' rfl same touches
    exact touchComes_setCaller (by rw [same, hi]) touches
  cases pc with
  | startReset | startRun | startSet | pauseSet | abortSet =>
    exact Or.inl (pending (Option.some.inj h) rfl rfl)
  | abortCurrent =>
    left
    simp only [callerStep] at h
    split at h
    next => exact pending (Option.some.inj h) rfl rfl
    next => exact pending (Option.some.inj h) rfl rfl
  | abortAction a | abortActionWait a =>
    obtain ⟨k, _, rfl⟩ := Option.map_eq_some_iff.mp h
    exact Or.inl (pending rfl rfl rfl)
  | abortActionDone k =>
    simp only [callerStep] at h
    split at h
    next => exact Or.inl (pending (Option.some.inj h) rfl rfl)
    next => cases h
  | touch aborting =>
    cases Option.some.inj h
    exact Or.inr (Or.inl (asleep_broadcast _))
  | abortWait =>
    cases Option.some.inj h
    exact Or.inr (Or.inr ⟨rfl, _, rfl⟩)
  | abortBlocked | returned err => cases h

variable [DecidableEq α]

/-- A runner's step keeps the state and the callers, unless it ends the
sequence or wakes everybody, and leaves no new sleeper but in `WaitTouch`. -/
theorem runnerStep_cases {s t : Sequence α} {i : Nat} {r : Runner α} (h : s.runnerStep i r = some t) :
    t.state = .end ∨ t.asleep = false ∨
      t.state = s.state ∧ t.callers = s.callers ∧
        ((∃ a, r.pc = .waitTouch a) ∨ (t.asleep = true → s.asleep = true)) := by
  have moves : ∀ {u : Sequence α} {r' : Runner α}, u.setRunner i r' = t → u.state = s.state →
      u.callers = s.callers → u.runners = s.runners → r'.pc.isBlocked = false →
      t.state = s.state ∧ t.callers = s.callers ∧
        ((∃ a, r.pc = .waitTouch a) ∨ (t.asleep = true → s.asleep = true)) := by
    rintro u r' rfl state callers runners awake
    refine ⟨state, callers, Or.inr fun asleep => ?_⟩
    have before : u.asleep = true := asleep_of_setRunner awake asleep
    rwa [Sequence.asleep, runners] at before
  obtain ⟨pc, queue⟩ := r
  cases pc with
  | copy | start a | setCurrent a | clearCurrent | done =>
    exact Or.inr (Or.inr (moves (Option.some.inj h) rfl rfl rfl rfl))
  | range =>
    cases queue <;> exact Or.inr (Or.inr (moves (Option.some.inj h) rfl rfl rfl rfl))
  | check a =>
    simp only [runnerStep] at h
    split at h <;> exact Or.inr (Or.inr (moves (Option.some.inj h) rfl rfl rfl rfl))
  | waitTouch a =>
    cases Option.some.inj h
    exact Or.inr (Or.inr ⟨rfl, rfl, Or.inl ⟨a, rfl⟩⟩)
  | wait a =>
    obtain ⟨k, _, moved⟩ := Option.map_eq_some_iff.mp h
    exact Or.inr (Or.inr (moves moved rfl rfl rfl rfl))
  | waitDone k =>
    simp only [runnerStep] at h
    split at h
    next => exact Or.inr (Or.inr (moves (Option.some.inj h) rfl rfl rfl rfl))
    next => cases h
  | setEnd =>
    cases Option.some.inj h
    exact Or.inl rfl
  | broadcast =>
    cases Option.some.inj h
    exact Or.inr (Or.inl (asleep_broadcast _))
  | blocked a | exited => cases h

theorem runnerStep_waitTouch {s t : Sequence α} {i : Nat} {r : Runner α} (hi : s.runners[i]? = some r)
    (h : s.runnerStep i r = some t) (waits : ∃ a, r.pc = .waitTouch a) :
    t.state = s.state ∧ t.callers = s.callers ∧ t.asleep = true := by
  obtain ⟨a, waits⟩ := waits
  simp only [runnerStep, waits, Option.some.injEq] at h
  subst h
  exact ⟨rfl, rfl, asleep_setRunner hi rfl⟩

/-- One step after a state without a lost wake-up loses one exactly if a runner
falls asleep that nobody will touch. -/
theorem lostWakeUp_iff {s t : Sequence α} {e : SeqStep} (h : s.step e = some t) (sound : ¬ s.LostWakeUp) :
    ¬ t.LostWakeUp ↔ (s.fallsAsleep e = true → s.Announced) := by
  have quiet : ∀ {u : Sequence α}, u.state = s.state → (s.touchComes = true → u.touchComes = true) →
      (u.asleep = true → s.asleep = true) → ¬ u.LostWakeUp := by
    rintro u state touch sleep ⟨asleep, goes, silent⟩
    refine sound ⟨sleep asleep, state ▸ goes, ?_⟩
    by_contra comes
    simp [touch (by simpa using comes)] at silent
  cases e with
  | call op =>
    cases Option.some.inj h
    have comes : touchComes { s with callers := s.callers ++ [op.entry] } = true := by
      cases op <;> simp [touchComes, SeqCall.entry, CallPc.touches]
    exact iff_of_true (not_lostWakeUp_of_touchComes comes) (by simp [fallsAsleep])
  | caller i =>
    obtain ⟨pc, hi, h⟩ := Option.bind_eq_some_iff.mp h
    refine iff_of_true ?_ (by simp [fallsAsleep])
    rcases callerStep_cases hi h with comes | awake | ⟨silent, pc', rfl⟩
    · exact not_lostWakeUp_of_touchComes comes
    · exact not_lostWakeUp_of_awake awake
    · exact quiet rfl (touchComes_setCaller_of_silent hi silent) id
  | runner i =>
    obtain ⟨r, hi, h⟩ := Option.bind_eq_some_iff.mp h
    have falls : s.fallsAsleep (.runner i) = true ↔ ∃ a, r.pc = .waitTouch a := by
      simp only [fallsAsleep, hi, Option.map_some]
      cases r.pc <;> simp
    rw [falls]
    by_cases waits : ∃ a, r.pc = .waitTouch a
    · obtain ⟨state, callers, asleep⟩ := runnerStep_waitTouch hi h waits
      have comes : t.touchComes = s.touchComes := by rw [touchComes, callers, touchComes]
      simp only [LostWakeUp, Announced, asleep, state, comes, waits, true_and, forall_const, not_and,
        Bool.not_eq_false]
    · refine iff_of_true ?_ fun found => absurd found waits
      rcases runnerStep_cases h with ended | awake | ⟨state, callers, new | sleep⟩
      · rintro ⟨_, goes, _⟩
        simp [ended] at goes
      · exact not_lostWakeUp_of_awake awake
      · exact absurd new waits
      · have comes : t.touchComes = s.touchComes := by rw [touchComes, callers, touchComes]
        exact quiet state (fun touch => comes ▸ touch) sleep
  | finish k err =>
    simp only [step] at h
    split at h
    next =>
      split at h
      next =>
        cases Option.some.inj h
        exact iff_of_true (quiet rfl id id) (by simp [fallsAsleep])
      next => cases h
    next => cases h

/-- Over every interleaving no wake-up is lost exactly if every runner that
falls asleep while the sequence runs or has failed has a `Touch` to come. -/
theorem noLostWakeUp_along_iff (actions : List α) (es : List SeqStep) :
    Runs.Along step (fun _ _ t => ¬ t.LostWakeUp) (new actions) es ↔
      Runs.Along step (fun s e _ => s.fallsAsleep e = true → s.Announced) (new actions) es := by
  apply Runs.along_iff_along (I := fun s => ¬ s.LostWakeUp)
  · intro s e t h sound
    exact lostWakeUp_iff h sound
  · intro s e t h sound announced
    exact (lostWakeUp_iff h sound).mpr announced
  · exact not_lostWakeUp_of_awake rfl

instance (s : Sequence α) : Decidable s.LostWakeUp :=
  inferInstanceAs (Decidable (_ ∧ _))

/-- `Start` spawns the runner first: it finds `Pause`, the caller sets `Run` and
touches, and only then the runner begins to wait. -/
def startOvertakesRunner : List SeqStep :=
  [.call .start, .caller 0, .caller 0, .runner 0, .runner 0, .runner 0, .caller 0, .caller 0, .runner 0]

theorem startOvertakesRunner_loses_wakeUp :
    ¬ Runs.Along step (fun _ _ t => ¬ t.LostWakeUp) (new [1]) startOvertakesRunner := by
  decide +kernel

end Sequence

end Vender
