import Vender.Firmware.Engine

namespace Vender.Firmware

namespace Engine

/-- Errors are pending neither in `Idle` nor in `Bus_Reset`. -/
def Sound (e : Engine) : Prop := e.state = .idle ∨ e.state = .busReset → e.failed = false

/-- Something is enabled that takes the engine on, or `mdb_step` does. -/
def Waits (e : Engine) : Prop :=
  e.state ≠ .idle →
    e.timer = true ∨ e.udrie0 = true ∨ e.txcie0 = true ∨ e.failed = true ∨ e.state = .recvEnd

theorem Commands.sound {e e' : Engine} (h : Commands e e') (sound : e.Sound) : e'.Sound := by
  cases h with
  | other => exact sound
  | reset => exact fun _ => rfl
  | busReset idle => exact fun _ => sound (Or.inl idle)
  | send => exact fun later => by simp at later

theorem Commands.waits {e e' : Engine} (h : Commands e e') (waits : e.Waits) : e'.Waits := by
  cases h with
  | other => exact waits
  | reset => exact fun busy => absurd rfl busy
  | busReset => exact fun _ => Or.inl rfl
  | send => exact fun _ => Or.inl rfl

theorem Moves.sound {e e' : Engine} {event : Event} (h : e.Moves event e') (sound : e.Sound) : e'.Sound := by
  cases h with
  | commands h =>
    induction h with
    | refl => exact sound
    | tail _ one ih => exact one.sound ih
  | finish => exact fun _ => rfl
  | ret failed => exact fun _ => failed
  | wait => exact sound
  | rxFail | udreFail | timerFail => exact fun later => by simp [fail] at later
  | rxEnd | tx => exact fun later => by simp at later
  | rxMore | udreMore | udreLast | timerStop => exact sound
  | twi => exact sound
  | boot => exact fun _ => rfl

/-- Only the end of a bus break leaves the engine waiting for nothing. -/
theorem Moves.waits {e e' : Engine} {event : Event} (h : e.Moves event e') (waits : e.Waits)
    (armed : event = .timer0Ovf → e.state = .busReset → e.udrie0 = true ∨ e.txcie0 = true) : e'.Waits := by
  cases h with
  | commands h =>
    induction h with
    | refl => exact waits
    | tail _ one ih => exact one.waits ih
  | finish => exact fun busy => absurd rfl busy
  | wait => exact waits
  | ret | rxMore | udreMore | udreLast | tx => exact fun _ => Or.inl rfl
  | rxFail | udreFail | timerFail => exact fun _ => Or.inr (Or.inr (Or.inr (Or.inl rfl)))
  | rxEnd => exact fun _ => Or.inr (Or.inr (Or.inr (Or.inr rfl)))
  | timerStop h =>
    intro busy
    rcases armed rfl (h.resolve_left busy) with udre | tx
    · exact Or.inr (Or.inl udre)
    · exact Or.inr (Or.inr (Or.inl tx))
  | twi => exact waits
  | boot => exact fun busy => absurd rfl busy

end Engine

namespace Gate

/-- The next `mdb_step` changes the state of the MDB state machine: `mdb_state` or, by a RET,
`mdb_state_retry`. -/
def StepChanges (g : Gate) : Prop :=
  (g.mdbStep.mdbState, g.mdbStep.mdbStateRetry) ≠ (g.mdbState, g.mdbStateRetry)

instance (g : Gate) : Decidable g.StepChanges := inferInstanceAs (Decidable (_ ≠ _))

/-- The engine is idle, or waits for something other than a stray byte. -/
def Armed (g : Gate) : Prop :=
  g.mdbState ≠ .idle →
    g.timer0.isSome = true ∨ g.udrie0 = true ∨ g.txcie0 = true ∨ g.StepChanges

instance (g : Gate) : Decidable g.Armed := inferInstanceAs (Decidable (_ → _))

theorem stepChanges_of_failed {g : Gate} (busy : g.mdbState ≠ .idle)
    (failed : g.mdbFastErrorCode.isSome = true) : g.StepChanges := by
  obtain ⟨code, failed⟩ := Option.isSome_iff_exists.mp failed
  intro same
  have idle : g.mdbStep.mdbState = .idle := by simp [mdbStep, failed, mdbFinish3]
  exact busy ((Prod.mk.inj same).1.symm.trans idle)

theorem stepChanges_of_recvEnd {g : Gate} (clean : g.mdbFastErrorCode = none)
    (state : g.mdbState = .recvEnd) : g.StepChanges := by
  have busy : g.mdbState ≠ .idle := by simp [state]
  have left : g.mdbStep.mdbState = .idle ∨ g.mdbStateRetry = false ∧ g.mdbStep.mdbStateRetry = true := by
    unfold mdbStep
    simp only [clean, state]
    split
    · left
      split
      · rfl
      · split <;> rfl
    · split
      · split
        · exact Or.inl rfl
        next first => exact Or.inr ⟨by simpa using first, rfl⟩
      · exact Or.inl rfl
  intro same
  obtain ⟨stays, retry⟩ := Prod.mk.inj same
  rcases left with idle | ⟨before, after⟩
  · exact busy (stays.symm.trans idle)
  · rw [before, after] at retry
    cases retry

theorem armed_of_waits {g : Gate} (waits : g.engine.Waits) : g.Armed := by
  intro busy
  by_cases failed : g.mdbFastErrorCode.isSome = true
  · exact Or.inr (Or.inr (Or.inr (stepChanges_of_failed busy failed)))
  · have clean : g.mdbFastErrorCode = none := by simpa using failed
    rcases waits busy with timer | udre | tx | fail | ended
    · exact Or.inl timer
    · exact Or.inr (Or.inl udre)
    · exact Or.inr (Or.inr (Or.inl tx))
    · exact absurd fail failed
    · exact Or.inr (Or.inr (Or.inr (stepChanges_of_recvEnd clean ended)))

theorem mdbStep_busReset {g : Gate} (clean : g.mdbFastErrorCode = none) (state : g.mdbState = .busReset) :
    g.mdbStep = g := by
  unfold mdbStep
  simp [clean, state]

end Gate

/-- The timer of a bus break runs out, and no transmit interrupt is enabled. -/
def BreakEnds (g : Gate) (e : Event) : Prop :=
  e = .timer0Ovf ∧ g.mdbState = .busReset ∧ g.udrie0 = false ∧ g.txcie0 = false

theorem armed_iff {g g' : Gate} {e : Event} (h : step g e = some g') (sound : g.engine.Sound)
    (waits : g.engine.Waits) : g'.Armed ↔ ¬ BreakEnds g e := by
  constructor
  · rintro armed ⟨rfl, state, udrie0, txcie0⟩
    obtain ⟨_, rfl⟩ := enabled_step h
    have clean : g.mdbFastErrorCode = none := by simpa using sound (Or.inr state)
    have stopped : g.timer0Ovf = { g with timer0 := none, txen0 := true } := by
      simp [Gate.timer0Ovf, Gate.timer0Stop, state]
    have unchanged : g.timer0Ovf.mdbStep = g.timer0Ovf :=
      Gate.mdbStep_busReset (by rw [stopped]; exact clean) (by rw [stopped]; exact state)
    have busy : g.timer0Ovf.mdbState ≠ .idle := by simp [stopped, state]
    rcases armed busy with timer | udre | tx | changes
    · simp [stopped] at timer
    · simp [stopped, udrie0] at udre
    · simp [stopped, txcie0] at tx
    · exact changes (by rw [unchanged])
  · intro goesOn
    refine Gate.armed_of_waits ((step_moves h).waits waits fun timer state => ?_)
    by_contra off
    simp only [Gate.engine_udrie0, Gate.engine_txcie0, not_or, Bool.not_eq_true] at off
    exact goesOn ⟨timer, state, off⟩

/-- A busy engine always waits for something along a run exactly when no bus break ends. -/
theorem armed_along_iff (mcusrSaved : UInt8) (es : List Event) :
    Runs.Along step (fun _ _ g' => g'.Armed) (.boot mcusrSaved ⟨[], [], []⟩) es ↔
      Runs.Along step (fun g e _ => ¬ BreakEnds g e) (.boot mcusrSaved ⟨[], [], []⟩) es := by
  apply Runs.along_iff_along (I := fun g => g.engine.Sound ∧ g.engine.Waits)
  · rintro g e g' h ⟨sound, waits⟩
    exact armed_iff h sound waits
  · rintro g e g' h ⟨sound, waits⟩ goesOn
    refine ⟨(step_moves h).sound sound, (step_moves h).waits waits fun timer state => ?_⟩
    by_contra off
    simp only [Gate.engine_udrie0, Gate.engine_txcie0, not_or, Bool.not_eq_true] at off
    exact goesOn ⟨timer, state, off⟩
  · rw [Gate.boot_engine]
    exact ⟨fun _ => rfl, fun busy => absurd rfl busy⟩

/-- A bus reset of 100 ms, and the overflow of its timer. -/
def endedBreak : List Event :=
  [.twi .srSlaAck 0, .twi .srDataAck 5, .twi .srDataAck 0x07, .twi .srDataAck 0, .twi .srDataAck 100,
    .twi .srDataAck 0xf9, .twi .srStop 0, .twiStep ⟨fun _ => 0, fun _ => true, 100⟩, .timer0Ovf]

theorem busReset_never_ends :
    ¬ Runs.Along step (fun _ _ g' => g'.Armed) (.boot 0x01 ⟨[], [], []⟩) endedBreak := by
  decide +kernel

end Vender.Firmware
