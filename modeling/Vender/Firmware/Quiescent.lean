import Vender.Firmware.Engine

namespace Vender.Firmware

namespace Engine

/-- The transmit interrupts exclude each other and are off outside a transmission, and an idle
engine has nothing left of the last one. -/
structure Tidy (e : Engine) : Prop where
  exclusive : e.udrie0 = true → e.txcie0 = false
  off : e.state ≠ .send → e.state ≠ .error → e.udrie0 = false ∧ e.txcie0 = false
  idle : e.state = .idle → e.failed = false ∧ e.timer = false

/-- `mdb_step` ends the transaction for an error while a transmit interrupt is enabled. -/
def CutsOff (e : Engine) (event : Event) : Prop :=
  event = .mdbStep ∧ e.failed = true ∧ (e.udrie0 = true ∨ e.txcie0 = true)

theorem tidy_of_off {e : Engine} (udrie0 : e.udrie0 = false) (txcie0 : e.txcie0 = false)
    (idle : e.state = .idle → e.failed = false ∧ e.timer = false) : e.Tidy := by
  refine ⟨fun on => ?_, fun _ _ => ⟨udrie0, txcie0⟩, idle⟩
  rw [udrie0] at on
  cases on

theorem Tidy.reset {e : Engine} (udrie0 : e.udrie0 = false) (txcie0 : e.txcie0 = false) : e.reset.Tidy :=
  tidy_of_off udrie0 txcie0 fun _ => ⟨rfl, rfl⟩

theorem Tidy.fail {e : Engine} (tidy : e.Tidy) : e.fail.Tidy :=
  ⟨tidy.exclusive, fun _ busy => absurd rfl busy, fun idle => by simp [Engine.fail] at idle⟩

theorem Commands.tidy {e e' : Engine} (h : Commands e e') (tidy : e.Tidy) : e'.Tidy := by
  have off (idle : e.state = .idle) : e.udrie0 = false ∧ e.txcie0 = false :=
    tidy.off (by simp [idle]) (by simp [idle])
  cases h with
  | other => exact tidy
  | reset idle => exact .reset (off idle).1 (off idle).2
  | busReset idle => exact tidy_of_off (off idle).1 (off idle).2 fun later => by simp at later
  | send idle => exact ⟨fun _ => (off idle).2, fun other => absurd rfl other, fun later => by simp at later⟩

theorem Moves.tidy {e e' : Engine} {event : Event} (h : e.Moves event e') (tidy : e.Tidy)
    (whole : ¬ e.CutsOff event) : e'.Tidy := by
  have off (state : e.state = .recv ∨ e.state = .recvEnd) : e.udrie0 = false ∧ e.txcie0 = false := by
    rcases state with state | state
    · exact tidy.off (by simp [state]) (by simp [state])
    · exact tidy.off (by simp [state]) (by simp [state])
  have sending (on : e.udrie0 = true) (state : e.state ≠ .send) : e.state = .error := by
    by_contra other
    rw [(tidy.off state other).1] at on
    cases on
  cases h with
  | commands h =>
    induction h with
    | refl => exact tidy
    | tail _ one ih => exact one.tidy ih
  | finish h =>
    rcases h with failed | ended
    · have clear : ¬ (e.udrie0 = true ∨ e.txcie0 = true) := fun on => whole ⟨rfl, failed, on⟩
      simp only [not_or, Bool.not_eq_true] at clear
      exact .reset clear.1 clear.2
    · exact .reset (off (Or.inr ended)).1 (off (Or.inr ended)).2
  | ret failed h =>
    obtain ⟨udrie0, txcie0⟩ := off (Or.inr h)
    exact tidy_of_off udrie0 txcie0 fun idle => by simp [h] at idle
  | wait => exact tidy
  | rxFail | udreFail | timerFail => exact tidy.fail
  | rxEnd h =>
    obtain ⟨udrie0, txcie0⟩ := off (Or.inl h)
    exact tidy_of_off udrie0 txcie0 fun idle => by simp at idle
  | rxMore h =>
    obtain ⟨udrie0, txcie0⟩ := off (Or.inl h)
    exact tidy_of_off udrie0 txcie0 fun idle => by simp [h] at idle
  | udreMore h =>
    refine ⟨tidy.exclusive, tidy.off, fun idle => ?_⟩
    have state : e.state = .idle := idle
    have error := sending h (by simp [state])
    rw [state] at error
    cases error
  | udreLast h =>
    refine ⟨fun on => by simp at on, fun state other => absurd (sending h state) other, fun idle => ?_⟩
    have state : e.state = .idle := idle
    have error := sending h (by simp [state])
    rw [state] at error
    cases error
  | tx h =>
    have udrie0 : e.udrie0 = false := by
      by_contra on
      rw [Bool.not_eq_false] at on
      rw [tidy.exclusive on] at h
      cases h
    exact tidy_of_off udrie0 rfl fun idle => by simp at idle
  | timerStop => exact ⟨tidy.exclusive, tidy.off, fun idle => ⟨(tidy.idle idle).1, rfl⟩⟩
  | twi => exact tidy
  | boot => exact tidy_of_off rfl rfl fun _ => ⟨rfl, rfl⟩

theorem Moves.cutsOff {e e' : Engine} {event : Event} (h : e.Moves event e') (cuts : e.CutsOff event) :
    e' = e.reset := by
  obtain ⟨rfl, failed, _⟩ := cuts
  cases h with
  | finish => rfl
  | ret sound | wait sound =>
    rw [failed] at sound
    cases sound

end Engine

/-- In `Idle` no transmit interrupt is enabled, the timer is stopped and no error is pending,
so that none of these interrupts can come. -/
def Gate.Quiescent (g : Gate) : Prop :=
  g.mdbState = .idle →
    g.udrie0 = false ∧ g.txcie0 = false ∧ g.timer0 = none ∧ g.mdbFastErrorCode = none ∧
      step g .usartUdre = none ∧ step g .usartTx = none ∧ step g .timer0Ovf = none

theorem Gate.quiescent_of_tidy {g : Gate} (tidy : g.engine.Tidy) : g.Quiescent := by
  intro state
  obtain ⟨udrie0, txcie0⟩ := tidy.off (by simp [state]) (by simp [state])
  obtain ⟨failed, timer⟩ := tidy.idle state
  simp only [engine_udrie0, engine_txcie0, engine_failed, engine_timer, Option.isSome_eq_false_iff,
    Option.isNone_iff_eq_none] at udrie0 txcie0 failed timer
  refine ⟨udrie0, txcie0, timer, failed, ?_, ?_, ?_⟩
  · simp [step, udrie0]
  · simp [step, txcie0]
  · simp [step, timer]

theorem quiescent_iff {g g' : Gate} {e : Event} (h : step g e = some g') (tidy : g.engine.Tidy) :
    g'.Quiescent ↔ ¬ g.engine.CutsOff e := by
  constructor
  · intro quiet cuts
    have reset := (step_moves h).cutsOff cuts
    have idle : g'.mdbState = .idle := by
      rw [← Gate.engine_state, reset]
      rfl
    obtain ⟨udrie0, txcie0, _⟩ := quiet idle
    rw [← Gate.engine_udrie0, reset] at udrie0
    rw [← Gate.engine_txcie0, reset] at txcie0
    obtain ⟨_, _, on | on⟩ := cuts
    · exact absurd on (by simpa [Engine.reset] using udrie0)
    · exact absurd on (by simpa [Engine.reset] using txcie0)
  · intro whole
    exact Gate.quiescent_of_tidy ((step_moves h).tidy tidy whole)

/-- An idle engine is quiescent along a run exactly when no error cuts a transmission off. -/
theorem quiescent_along_iff (mcusrSaved : UInt8) (es : List Event) :
    Runs.Along step (fun _ _ g' => g'.Quiescent) (.boot mcusrSaved ⟨[], [], []⟩) es ↔
      Runs.Along step (fun g e _ => ¬ g.engine.CutsOff e) (.boot mcusrSaved ⟨[], [], []⟩) es := by
  apply Runs.along_iff_along (I := fun g => g.engine.Tidy)
  · intro g e g' h tidy
    exact quiescent_iff h tidy
  · intro g e g' h tidy whole
    exact (step_moves h).tidy tidy whole
  · rw [Gate.boot_engine]
    exact Engine.tidy_of_off rfl rfl fun _ => ⟨rfl, rfl⟩

instance (g : Gate) (e : Event) : Decidable (step g e = none) :=
  decidable_of_iff ((step g e).isNone = true) Option.isNone_iff_eq_none

instance (g : Gate) : Decidable g.Quiescent := inferInstanceAs (Decidable (_ → _))

/-- A request of no data: its checksum is sent, and the next interrupt finds nothing to send. -/
def emptyRequest : List Event :=
  [.twi .srSlaAck 0, .twi .srDataAck 3, .twi .srDataAck 0x08, .twi .srDataAck 0x3a, .twi .srStop 0,
    .twiStep ⟨fun _ => 0, fun _ => true, 100⟩, .usartUdre, .mdbStep]

theorem emptyRequest_not_quiescent :
    ¬ Runs.Along step (fun _ _ g' => g'.Quiescent) (.boot 0x01 ⟨[], [], []⟩) emptyRequest := by
  decide +kernel

end Vender.Firmware
