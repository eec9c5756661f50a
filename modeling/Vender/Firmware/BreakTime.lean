import Vender.Firmware.Transmit

namespace Vender.Firmware

/-- The firmware and the counter of its timer. -/
structure Timed where
  gate : Gate
  tcnt0 : UInt8
  /-- the overflow flag: stopping or setting the timer does not clear it -/
  tov0 : Bool
  /-- the ticks of the prescaled clock so far -/
  ticks : Nat

/-- What can come after a command: ticks of the clock, the steps of the firmware, and further
calls of `master_command` by the packet loop that the command came in. -/
inductive TimedEvent
  | tick
  | event (e : Event)
  | call (env : Surroundings) (i : UInt8) (src : Nat)

namespace Timed

/-- The interrupts of the UART stop the timer before anything else, so where they leave it
running they have set it anew. -/
def setsAnew : Event → Bool
  | .usartRx .. | .usartUdre | .usartTx => true
  | _ => false

/-- `timer0_set` writes the counter, and nothing else does. -/
def after (anew : Bool) (t : Timed) (g : Gate) : Timed where
  gate := g
  tcnt0 :=
    match g.timer0 with
    | some start => if t.gate.timer0 = some start ∧ anew = false then t.tcnt0 else start
    | none => t.tcnt0
  tov0 := t.tov0
  ticks := t.ticks

def step (t : Timed) : TimedEvent → Option Timed
  | .tick =>
    if t.gate.timer0.isSome then
      some { t with tcnt0 := t.tcnt0 + 1, tov0 := t.tov0 || t.tcnt0 = 255, ticks := t.ticks + 1 }
    else
      some { t with ticks := t.ticks + 1 }
  | .event .timer0Ovf =>
    if t.tov0 then (Firmware.step t.gate .timer0Ovf).map fun g => { t.after false g with tov0 := false } else none
  | .event .watchdog => (Firmware.step t.gate .watchdog).map fun g => { t.after false g with tov0 := false }
  | .event e => (Firmware.step t.gate e).map (t.after (setsAnew e))
  | .call env i src =>
    if t.gate.mode = .running then some (t.after false (Call.result env ⟨t.gate, i, src⟩).1) else none

/-- The break goes on: the interrupt that ends it has not come, and nothing else has ended it. -/
def Breaking (_ : Timed) (e : TimedEvent) (u : Timed) : Prop := e ≠ .event .timer0Ovf ∧ u.gate.mdbState = .busReset

/-- Whatever else happens, the timer interrupt that ends the break does not come before `n` ticks. -/
def Lasts (t : Timed) (n : Nat) : Prop :=
  ∀ es u v, Runs.run step t es = some u → Runs.Along step Breaking t es → u.step (.event .timer0Ovf) = some v →
    t.ticks + n ≤ u.ticks

end Timed

/-- The duration that a `Bus_Reset` carries, in milliseconds. -/
def Call.duration (env : Surroundings) (c : Call) : UInt16 :=
  ((c.data env).getD 0 0).toUInt16 <<< 8 ||| ((c.data env).getD 1 0).toUInt16

/-- `master_out` has no room for the answer to the command: `Buffer_Overflow` is put in its place. -/
def Call.Overflows (env : Surroundings) (c : Call) : Prop :=
  (c.result env).1.history.emitted = c.gate.history.emitted ∧
    (c.result env).1.twiOut.stored = packet .bufferOverflow [3]

/-- The firmware when the command has just begun the break. -/
def Call.timed (env : Surroundings) (c : Call) (tov0 : Bool) : Timed where
  gate := (c.result env).1
  tcnt0 := (c.result env).1.timer0.getD 0
  tov0 := tov0
  ticks := 0

namespace Gate

/-- What has to do with the break and its timer. -/
def breaker (g : Gate) := (g.mdbState, g.timer0, g.mdbOut)

/-- Nothing is left to send while no transaction is in progress. -/
def Rested (g : Gate) : Prop := g.mdbState = .idle ∨ g.mdbState = .busReset → g.mdbOut.length ≤ g.mdbOut.used

theorem twiVect_breaker (st : TwStatus) (data : UInt8) (g : Gate) : (g.twiVect st data).breaker = g.breaker :=
  twiVect_keeps (fun _ _ _ _ _ _ => rfl) st data

theorem Rested.congr {g g' : Gate} (h : g.Rested) (same : g'.breaker = g.breaker) : g'.Rested := by
  simp only [breaker, Prod.mk.injEq] at same
  obtain ⟨state, _, mdbOut⟩ := same
  unfold Rested
  rw [state, mdbOut]
  exact h

theorem rested_of_busy {g : Gate} {s : MdbState} (state : g.mdbState = s) (idle : s ≠ .idle)
    (busReset : s ≠ .busReset) :
    g.Rested := by
  unfold Rested
  rw [state]
  exact fun quiet => (quiet.elim idle busReset).elim

theorem mdbReset_rested (g : Gate) : g.mdbReset.Rested := fun _ => Nat.le_refl 0

end Gate

theorem Puts.breaker {header : Response} {data : List UInt8} {g g' : Gate} (h : Puts header data g g') :
    g'.breaker = g.breaker := by
  cases h <;> rfl

theorem Commanded.rested {env : Surroundings} {c : Call} {g' : Gate} (h : Commanded env c g')
    (rested : c.gate.Rested) : g'.Rested := by
  cases h with
  | aside h => exact rested.congr (h.keeps Puts.breaker (fun _ _ => rfl) (fun _ _ => rfl))
  | busReset accepted _ puts =>
    refine Gate.Rested.congr (fun _ => ?_) puts.breaker
    exact rested (Or.inl accepted.2)
  | started _ _ puts => exact (Gate.rested_of_busy (s := .send) rfl (by decide) (by decide)).congr puts.breaker
  | refused _ _ _ puts => exact (Gate.mdbReset_rested _).congr puts.breaker

theorem Gate.usartRx_rested (err data : UInt8) (bit9 : Bool) (g : Gate) : (g.usartRx err data bit9).Rested := by
  unfold usartRx
  simp only
  split
  · exact rested_of_busy (s := .error) rfl (by decide) (by decide)
  · split
    · exact rested_of_busy (s := .error) rfl (by decide) (by decide)
    next recv =>
      split
      · exact rested_of_busy (s := .recvEnd) rfl (by decide) (by decide)
      · split
        · exact rested_of_busy (s := .error) rfl (by decide) (by decide)
        · exact rested_of_busy (s := .recv) (not_not.mp recv) (by decide) (by decide)

theorem Gate.boot_rested (mcusrSaved : UInt8) (history : History) : (boot mcusrSaved history).Rested := by
  have same : (boot mcusrSaved history).breaker = _ :=
    (masterOutN_puts .debug _ (show responseBeeBee.length ≤ 252 by simp [responseBeeBee])).breaker
  exact Rested.congr (fun _ => Nat.le_refl 0) same

theorem rested_step {g g' : Gate} {e : Event} (h : step g e = some g') (rested : g.Rested) : g'.Rested := by
  cases e with
  | twiStep env =>
    obtain ⟨_, rfl⟩ := enabled_step h
    exact Gate.twiStep_invariant (fun _ h => h) (fun _ h => h) (fun _ _ _ h => h)
      (rested.congr (Gate.masterOut2_puts ..).breaker) (fun c _ => (c.result_commanded env).rested) rested
  | mdbStep =>
    obtain ⟨_, rfl⟩ := enabled_step h
    have stepped := g.mdbStep_stepped
    generalize g.mdbStep = g' at stepped
    cases stepped with
    | answered => exact Gate.mdbReset_rested _
    | ret _ state => exact Gate.rested_of_busy (s := .recvEnd) state (by decide) (by decide)
    | wait => exact rested
  | usartRx err data bit9 =>
    obtain ⟨_, rfl⟩ := enabled_step h
    exact g.usartRx_rested err data bit9
  | usartUdre =>
    obtain ⟨_, rfl⟩ := enabled_step h
    unfold Gate.usartUdre
    simp only
    split
    · exact Gate.rested_of_busy (s := .error) rfl (by decide) (by decide)
    next more =>
      -- a transmission that goes on is in progress
      have busy : ¬ (g.mdbState = .idle ∨ g.mdbState = .busReset) := fun quiet => more (rested quiet)
      split
      · exact fun quiet => absurd quiet busy
      · exact fun quiet => absurd quiet busy
  | usartTx =>
    obtain ⟨_, rfl⟩ := enabled_step h
    exact Gate.rested_of_busy (s := .recv) rfl (by decide) (by decide)
  | timer0Ovf =>
    obtain ⟨_, rfl⟩ := enabled_step h
    unfold Gate.timer0Ovf
    simp only
    split
    · exact rested
    · exact rested
    · exact Gate.rested_of_busy (s := .error) rfl (by decide) (by decide)
  | twi st data =>
    obtain ⟨_, rfl⟩ := enabled_step h
    exact rested.congr (g.twiVect_breaker st data)
  | watchdog =>
    obtain ⟨mcusrSaved, rfl⟩ := boots_of_watchdog h
    exact Gate.boot_rested mcusrSaved g.history

namespace Gate

theorem usartRx_error {err data : UInt8} {bit9 : Bool} {g : Gate} (deaf : g.mdbState ≠ .recv) :
    (g.usartRx err data bit9).mdbState = .error := by
  unfold usartRx
  simp only
  split
  · rfl
  · rw [if_pos (show g.timer0Stop.mdbState ≠ .recv from deaf)]
    rfl

end Gate

/-- The timer counts up from where the break has set it. -/
structure Timed.Counting (start : UInt8) (t : Timed) : Prop where
  state : t.gate.mdbState = .busReset
  timer0 : t.gate.timer0 = some start
  rested : t.gate.Rested
  counted : t.tov0 = false ∧ t.tcnt0.toNat = start.toNat + t.ticks ∨ t.tov0 = true ∧ 256 ≤ start.toNat + t.ticks

namespace Timed

variable {start : UInt8} {t u : Timed}

theorem after_same {anew : Bool} {g : Gate} (timer0 : t.gate.timer0 = some start) (same : g.timer0 = some start)
    (old : anew = false) : (t.after anew g).tcnt0 = t.tcnt0 := by
  simp only [after, same, timer0, old]
  rfl

/-- A step of the firmware that leaves the break and its timer alone. -/
theorem Counting.after (h : t.Counting start) {g : Gate} (same : g.breaker = t.gate.breaker) :
    (t.after false g).Counting start := by
  have rested := h.rested.congr same
  simp only [Gate.breaker, Prod.mk.injEq] at same
  obtain ⟨state, timer0, _⟩ := same
  have runs : g.timer0 = some start := timer0.trans h.timer0
  refine ⟨state.trans h.state, runs, rested, ?_⟩
  rw [after_same h.timer0 runs rfl]
  exact h.counted

theorem Counting.tick (h : t.Counting start) :
    ∃ u, t.step .tick = some u ∧ u.Counting start ∧ u.gate = t.gate ∧ u.ticks = t.ticks + 1 := by
  have runs : t.gate.timer0.isSome = true := by
    rw [h.timer0]
    rfl
  refine ⟨_, if_pos runs, ⟨h.state, h.timer0, h.rested, ?_⟩, rfl, rfl⟩
  rcases h.counted with ⟨clear, count⟩ | ⟨wrapped, past⟩
  · have small := t.tcnt0.toNat_lt
    by_cases last : t.tcnt0 = 255
    · rw [last] at count
      change 255 = _ at count
      exact Or.inr ⟨by simp [last], by simp only; omega⟩
    · have more : t.tcnt0.toNat ≠ 255 := fun same => last (UInt8.toNat_inj.mp same)
      refine Or.inl ⟨by simp [clear, last], ?_⟩
      simp only [UInt8.toNat_add, UInt8.toNat_one]
      omega
  · exact Or.inr ⟨by simp [wrapped], by simp only; omega⟩

theorem Counting.step {e : TimedEvent} (h : t.Counting start) (taken : t.step e = some u) (goesOn : Breaking t e u) :
    u.Counting start := by
  have busy : t.gate.mdbState ≠ .idle := by
    rw [h.state]
    simp
  cases e with
  | tick =>
    obtain ⟨v, ticked, counting, _⟩ := h.tick
    cases ticked.symm.trans taken
    exact counting
  | call env i src =>
    obtain ⟨_, rfl⟩ := enabled_step taken
    exact h.after ((Call.result_commanded env ⟨t.gate, i, src⟩).keeps busy Puts.breaker (fun _ _ => rfl)
      (fun _ _ => rfl))
  | event e =>
    cases e with
    | timer0Ovf => exact absurd rfl goesOn.1
    | watchdog =>
      obtain ⟨g, reset, rfl⟩ := Option.map_eq_some_iff.mp taken
      obtain ⟨mcusrSaved, rfl⟩ := boots_of_watchdog reset
      have idle := congrArg Engine.state (Gate.boot_engine mcusrSaved t.gate.history)
      exact absurd (idle.symm.trans goesOn.2) (by simp)
    | twiStep env =>
      obtain ⟨g, stepped, rfl⟩ := Option.map_eq_some_iff.mp taken
      obtain ⟨_, rfl⟩ := enabled_step stepped
      exact h.after (Gate.twiStep_keeps busy Puts.breaker (fun _ _ => rfl) (fun _ _ => rfl) (fun _ => rfl)
        (fun _ _ _ => rfl))
    | mdbStep =>
      obtain ⟨g, stepped, rfl⟩ := Option.map_eq_some_iff.mp taken
      obtain ⟨_, rfl⟩ := enabled_step stepped
      have stepped := t.gate.mdbStep_stepped
      have stays : t.gate.mdbStep.mdbState = .busReset := goesOn.2
      generalize t.gate.mdbStep = g at stepped stays ⊢
      cases stepped with
      | answered => cases stays
      | ret _ state => exact absurd (h.state.symm.trans state) (by simp)
      | wait => exact h.after rfl
    | usartRx err data bit9 =>
      obtain ⟨g, stepped, rfl⟩ := Option.map_eq_some_iff.mp taken
      obtain ⟨_, rfl⟩ := enabled_step stepped
      have failed : (t.gate.usartRx err data bit9).mdbState = .error := Gate.usartRx_error (by simp [h.state])
      exact absurd (failed.symm.trans goesOn.2) (by simp)
    | usartUdre =>
      obtain ⟨g, stepped, rfl⟩ := Option.map_eq_some_iff.mp taken
      obtain ⟨_, rfl⟩ := enabled_step stepped
      have stays : t.gate.usartUdre.mdbState = .busReset := goesOn.2
      rw [Gate.usartUdre_of_past (h.rested (Or.inr h.state))] at stays
      cases stays
    | usartTx =>
      obtain ⟨g, stepped, rfl⟩ := Option.map_eq_some_iff.mp taken
      obtain ⟨_, rfl⟩ := enabled_step stepped
      cases goesOn.2
    | twi st data =>
      obtain ⟨g, stepped, rfl⟩ := Option.map_eq_some_iff.mp taken
      obtain ⟨_, rfl⟩ := enabled_step stepped
      exact h.after (t.gate.twiVect_breaker st data)

/-- With nothing in between, the clock ticks on. -/
theorem Counting.ticks (h : t.Counting start) (n : Nat) :
    ∃ u, Runs.run Timed.step t (List.replicate n .tick) = some u ∧
      Runs.Along Timed.step Breaking t (List.replicate n .tick) ∧ u.Counting start ∧ u.gate = t.gate ∧
      u.ticks = t.ticks + n := by
  induction n generalizing t with
  | zero => exact ⟨t, rfl, trivial, h, rfl, rfl⟩
  | succ n ih =>
    obtain ⟨v, ticked, counting, gate, ticks⟩ := h.tick
    obtain ⟨u, run, along, last, same, more⟩ := ih counting
    refine ⟨u, Runs.run_cons.mpr ⟨v, ticked, run⟩, fun w taken => ?_, last, same.trans gate, by omega⟩
    cases ticked.symm.trans taken
    exact ⟨⟨by simp, counting.state⟩, along⟩

/-- The overflow of the counter raises the interrupt. -/
theorem exists_overflow (on : t.gate.mode ≠ .softReset) (runs : t.gate.timer0.isSome = true)
    (wrapped : t.tov0 = true) :
    ∃ v, t.step (.event .timer0Ovf) = some v := by
  have taken : Firmware.step t.gate .timer0Ovf = some t.gate.timer0Ovf := if_pos ⟨on, runs⟩
  have raised : t.step (.event .timer0Ovf) =
      (Firmware.step t.gate .timer0Ovf).map fun g => { t.after false g with tov0 := false } := if_pos wrapped
  rw [taken] at raised
  exact ⟨_, raised⟩

theorem Counting.lasts (h : t.Counting start) {n : Nat} (short : t.ticks + n + start.toNat ≤ 256) : t.Lasts n := by
  intro es u v run along ended
  have counting := Runs.invariant_of_run (fun _ _ _ taken h goesOn => Counting.step h taken goesOn) h along run
  have wrapped : u.tov0 = true := (Option.ite_none_right_eq_some.mp ended).1
  rcases counting.counted with ⟨clear, _⟩ | ⟨_, past⟩
  · rw [wrapped] at clear
    cases clear
  · omega

end Timed

theorem Gate.masterOut1_of_full {header : Response} {g : Gate} (full : responseMaxLength < g.masterOut.length + 3) :
    g.masterOut1 header = g.twiOutSet2 .bufferOverflow 3 := by
  unfold masterOut1 masterOutPacket
  simp only
  split
  next taken => cases (Buffer.appendN_eq_none.mpr full).symm.trans taken
  next => rfl

/-- A bus reset that is taken. -/
structure Call.Resets (env : Surroundings) (c : Call) : Prop where
  accepted : c.Accepts env .mdbBusReset
  two : (c.data env).length = 2
  running : c.gate.mode = .running
  rested : c.gate.Rested

/-- The count from which `timer0_set` lets the timer run for the duration of the command. -/
def Call.preload (env : Surroundings) (c : Call) : UInt8 := 0 - (c.duration env).toUInt8 * 15

theorem Call.preload_of_short {env : Surroundings} {c : Call} (pos : 1 ≤ c.duration env)
    (short : c.duration env ≤ 17) :
    15 * (c.duration env).toNat + (c.preload env).toNat = 256 := by
  have least := UInt16.le_iff_toNat_le.mp pos
  have most := UInt16.le_iff_toNat_le.mp short
  change 1 ≤ _ at least
  change _ ≤ 17 at most
  simp only [Call.preload, UInt8.toNat_sub, UInt8.toNat_mul, UInt16.toNat_toUInt8]
  change _ + (256 - (c.duration env).toNat % 256 * 15 % 256 + 0) % 256 = _
  omega

/-- The firmware when the break has begun, but for the answer. -/
def Call.broken (env : Surroundings) (c : Call) : Gate :=
  { c.gate with mdbState := .busReset, txen0 := false, timer0 := some (c.preload env) }

namespace Call.Resets

variable {env : Surroundings} {c : Call}

theorem result (h : c.Resets env) : (c.result env).1 = (c.broken env).masterOut1 .mdbStarted := by
  obtain ⟨header, length, found, result⟩ := Call.result_of_command h.accepted.1
  rw [result]
  simp only [Gate.dispatch, found, Gate.mdbBusReset]
  rw [if_neg (not_not.mpr h.two), if_neg (not_not.mpr h.accepted.2)]
  rfl

theorem puts (h : c.Resets env) : Puts .mdbStarted [] (c.broken env) (c.result env).1 := by
  rw [h.result]
  exact Gate.masterOut1_puts ..

theorem mode (h : c.Resets env) : (c.result env).1.mode ≠ .softReset := by
  have same : (c.result env).1.mode = c.gate.mode := h.puts.mode
  rw [same, h.running]
  simp

theorem counting (h : c.Resets env) : (c.timed env false).Counting (c.preload env) := by
  have same := h.puts.breaker
  simp only [Gate.breaker, Prod.mk.injEq] at same
  obtain ⟨state, timer0, mdbOut⟩ := same
  refine ⟨state, timer0, fun _ => ?_, Or.inl ⟨rfl, ?_⟩⟩
  · change (c.result env).1.mdbOut.length ≤ (c.result env).1.mdbOut.used
    rw [mdbOut]
    exact h.rested (Or.inl h.accepted.2)
  · change ((c.result env).1.timer0.getD 0).toNat = _
    rw [timer0]
    rfl

/-- The answer is an error exactly when there is no room for it. -/
theorem overflows_iff (h : c.Resets env) : c.Overflows env ↔ responseMaxLength < c.gate.masterOut.length + 3 := by
  constructor
  · rintro ⟨same, _⟩
    by_contra room
    have more : (c.result env).1.history.emitted = c.gate.history.emitted ++ [(.mdbStarted, [])] :=
      h.puts.emitted_of_room (Nat.not_lt.mp room)
    rw [same] at more
    simpa using congrArg List.length more
  · intro full
    unfold Call.Overflows
    have full : responseMaxLength < (c.broken env).masterOut.length + 3 := full
    rw [h.result, Gate.masterOut1_of_full full]
    exact ⟨rfl, Buffer.copy_stored (by decide)⟩

/-- From 18 ms on the count wraps around. -/
theorem lasts_iff (h : c.Resets env) (pos : 1 ≤ c.duration env) (tov0 : Bool) :
    (c.timed env tov0).Lasts (15 * (c.duration env).toNat) ↔ c.duration env ≤ 17 ∧ tov0 = false := by
  constructor
  · intro lasts
    have least := UInt16.le_iff_toNat_le.mp pos
    change 1 ≤ _ at least
    have clear : tov0 = false := by
      by_contra left
      have runs : (c.result env).1.timer0.isSome = true := congrArg Option.isSome h.counting.timer0
      obtain ⟨v, ended⟩ := @Timed.exists_overflow (c.timed env tov0) h.mode runs (eq_true_of_ne_false left)
      have := lasts [] _ v rfl trivial ended
      omega
    subst clear
    refine ⟨?_, rfl⟩
    have small := (c.preload env).toNat_lt
    obtain ⟨u, run, along, counting, gate, ticks⟩ := h.counting.ticks (256 - (c.preload env).toNat)
    have passed : u.ticks = 256 - (c.preload env).toNat := ticks.trans (Nat.zero_add _)
    rcases counting.counted with ⟨_, count⟩ | ⟨wrapped, _⟩
    · have := u.tcnt0.toNat_lt
      omega
    · have on : u.gate.mode ≠ .softReset := by
        rw [gate]
        exact h.mode
      obtain ⟨v, ended⟩ := Timed.exists_overflow on (congrArg Option.isSome counting.timer0) wrapped
      have most := lasts _ u v run along ended
      change 0 + _ ≤ _ at most
      rw [UInt16.le_iff_toNat_le]
      change _ ≤ 17
      omega
  · rintro ⟨short, rfl⟩
    have all := Call.preload_of_short pos short
    refine h.counting.lasts ?_
    change 0 + _ + _ ≤ 256
    omega

end Call.Resets

theorem Call.resets {mcusrSaved : UInt8} {es : List Event} {g g' : Gate} {env : Surroundings} {c : Call}
    (reached : Runs.run step (.boot mcusrSaved ⟨[], [], []⟩) es = some g)
    (next : step g (.twiStep env) = some g') (found : c ∈ g.calls env) (accepted : c.Accepts env .mdbBusReset)
    (two : (c.data env).length = 2) : c.Resets env := by
  have rested : g.Rested := Runs.invariant_of_run (fun _ _ _ h rested _ => rested_step h rested)
    (Gate.boot_rested _ _) (Runs.along_true _ _) reached
  have kept := @Gate.takeCommands_invariant Gate.Rested env g (fun _ h => h) (fun _ h => h)
    (rested.congr (Gate.masterOut2_puts ..).breaker) (fun c _ => (c.result_commanded env).rested) rested
  exact ⟨accepted, two, Call.running_of_calls next found, kept.2 c found⟩

/-- The break of a bus reset that a reachable firmware takes lasts as long as requested, or the
answer is an error, exactly when it is for at most 17 ms and no overflow of the timer is left
over from before, or `master_out` has no room for the answer. -/
theorem busReset_lasts_iff {mcusrSaved : UInt8} {es : List Event} {g g' : Gate} {env : Surroundings} {c : Call}
    (reached : Runs.run step (.boot mcusrSaved ⟨[], [], []⟩) es = some g)
    (next : step g (.twiStep env) = some g') (found : c ∈ g.calls env) (accepted : c.Accepts env .mdbBusReset)
    (two : (c.data env).length = 2) (pos : 1 ≤ c.duration env) (tov0 : Bool) :
    c.Overflows env ∨ (c.timed env tov0).Lasts (15 * (c.duration env).toNat) ↔
      c.duration env ≤ 17 ∧ tov0 = false ∨ responseMaxLength < c.gate.masterOut.length + 3 := by
  have resets := Call.resets reached next found accepted two
  rw [resets.overflows_iff, resets.lasts_iff pos, or_comm]

/-- The firmware after the write, if the first command of it is a bus reset that is taken. -/
theorem busReset_of_write {frame : List UInt8} {d : UInt16}
    (h : ∃ g ∈ Runs.run step (.boot 0x01 ⟨[], [], []⟩) (commandWrite frame),
      (g.mode = .running ∧ g.twiIdle = true) ∧ 2 ≤ g.twiIn.length ∧ g.masterOut.length + 3 ≤ responseMaxLength ∧
      Call.Accepts ⟨fun _ => 0, fun _ => true, 100⟩ ⟨g, 0, 0⟩ .mdbBusReset ∧
      (Call.data ⟨fun _ => 0, fun _ => true, 100⟩ ⟨g, 0, 0⟩).length = 2 ∧
      Call.duration ⟨fun _ => 0, fun _ => true, 100⟩ ⟨g, 0, 0⟩ = d) :
    ∃ g g' : Gate, Runs.run step (.boot 0x01 ⟨[], [], []⟩) (commandWrite frame) = some g ∧
      step g (.twiStep ⟨fun _ => 0, fun _ => true, 100⟩) = some g' ∧
      ⟨g, 0, 0⟩ ∈ g.calls ⟨fun _ => 0, fun _ => true, 100⟩ ∧ g.masterOut.length + 3 ≤ responseMaxLength ∧
      Call.Accepts ⟨fun _ => 0, fun _ => true, 100⟩ ⟨g, 0, 0⟩ .mdbBusReset ∧
      (Call.data ⟨fun _ => 0, fun _ => true, 100⟩ ⟨g, 0, 0⟩).length = 2 ∧
      Call.duration ⟨fun _ => 0, fun _ => true, 100⟩ ⟨g, 0, 0⟩ = d :=
  found_of_write h

theorem busReset_lasts_10 :
    ∃ g : Gate, Runs.run step (.boot 0x01 ⟨[], [], []⟩) (commandWrite [5, 0x07, 0, 10]) = some g ∧
      (Call.Overflows ⟨fun _ => 0, fun _ => true, 100⟩ ⟨g, 0, 0⟩ ∨
        (Call.timed ⟨fun _ => 0, fun _ => true, 100⟩ ⟨g, 0, 0⟩ false).Lasts 150) := by
  obtain ⟨g, g', reached, next, found, _, accepted, two, duration⟩ :=
    @busReset_of_write [5, 0x07, 0, 10] 10 (by decide +kernel)
  have lasts := busReset_lasts_iff reached next found accepted two (by rw [duration]; decide) false
  rw [duration] at lasts
  exact ⟨g, reached, lasts.mpr (Or.inl ⟨by decide, rfl⟩)⟩

/-- The timer of a break of 100 ms, which the bus needs at least, runs out too early. -/
theorem busReset_of_100_short :
    ∃ g g' : Gate, Runs.run step (.boot 0x01 ⟨[], [], []⟩) (commandWrite [5, 0x07, 0, 100]) = some g ∧
      step g (.twiStep ⟨fun _ => 0, fun _ => true, 100⟩) = some g' ∧
      ⟨g, 0, 0⟩ ∈ g.calls ⟨fun _ => 0, fun _ => true, 100⟩ ∧
      Call.Accepts ⟨fun _ => 0, fun _ => true, 100⟩ ⟨g, 0, 0⟩ .mdbBusReset ∧
      Call.duration ⟨fun _ => 0, fun _ => true, 100⟩ ⟨g, 0, 0⟩ = 100 ∧
      ¬ (Call.Overflows ⟨fun _ => 0, fun _ => true, 100⟩ ⟨g, 0, 0⟩ ∨
        (Call.timed ⟨fun _ => 0, fun _ => true, 100⟩ ⟨g, 0, 0⟩ false).Lasts 1500) := by
  obtain ⟨g, g', reached, next, found, room, accepted, two, duration⟩ :=
    @busReset_of_write [5, 0x07, 0, 100] 100 (by decide +kernel)
  have resets := Call.resets reached next found accepted two
  have lasts := resets.lasts_iff (by rw [duration]; decide) false
  rw [duration] at lasts
  refine ⟨g, g', reached, next, found, accepted, duration, ?_⟩
  rintro (overflows | long)
  · exact Nat.not_lt.mpr room (resets.overflows_iff.mp overflows)
  · exact absurd (lasts.mp long).1 (by decide)

end Vender.Firmware
