import Vender.Firmware.Armed
import Vender.Firmware.Quiescent

namespace Vender.Firmware

/-- Whether an `MDB_Started` waits for its terminal response after one more response; `none`
if that is a terminal one and none waits. -/
def pairOne (waiting : Bool) (header : Response) : Option Bool :=
  if header = .mdbStarted then some true
  else if header.terminal then if waiting then some false else none
  else some waiting

def Gate.pairing (g : Gate) : Option Bool := (g.history.emitted.map Prod.fst).foldlM pairOne false

/-- A transaction that is taken finds the UART ready, and room for its `MDB_Started`. -/
def Call.Clean (env : Surroundings) (c : Call) : Prop :=
  c.Accepts env .mdbTransactionSimple → env.sendReady c.src = true ∧ c.gate.masterOut.length + 3 ≤ responseMaxLength

/-- Of the `MDB_Started` and terminal responses that found room the last is an `MDB_Started`. -/
def Gate.LastStarted (g : Gate) : Prop :=
  ((g.history.emitted.map Prod.fst).filter fun r => r = .mdbStarted || r.terminal).getLast? = some .mdbStarted

/-- The engine is busy, and a bus reset has its `MDB_Started`. -/
def Gate.Expects (g : Gate) : Prop := g.mdbState ≠ .idle ∧ (g.mdbState = .busReset → g.LastStarted)

/-- No response of a transaction is lost in the step, and no UART interrupt comes in `Idle`, or in a bus
reset whose `MDB_Started` was lost. -/
def Clean (g : Gate) : Event → Prop
  | .twiStep env => ∀ c ∈ g.calls env, c.Clean env
  | .mdbStep => g.masterOut.length + g.answerLength ≤ responseMaxLength
  | .usartRx .. => g.Expects
  | .usartUdre => g.Expects
  | .usartTx => g.Expects
  | _ => True

/-- Every terminal response has an `MDB_Started` of its own before it, a transaction that is
taken emits one, and the engine returns to `Idle` only with a terminal response. -/
structure Matched (g : Gate) (e : Event) (g' : Gate) : Prop where
  paired : g'.pairing ≠ none
  ends : g.mdbState ≠ .idle → g'.mdbState = .idle → e ≠ .watchdog →
    ∃ header data, header.terminal = true ∧ g'.history.emitted = g.history.emitted ++ [(header, data)]
  starts : ∀ env, e = .twiStep env → ∀ c ∈ g.calls env, c.Accepts env .mdbTransactionSimple →
    (c.result env).1.mdbState = .send ∧
      (c.result env).1.history.emitted = c.gate.history.emitted ++ [(.mdbStarted, [])]

theorem Puts.emitted {header : Response} {data : List UInt8} {g g' : Gate} (h : Puts header data g g') :
    g'.history.emitted = g.history.emitted ++ [(header, data)] ∨ g'.history.emitted = g.history.emitted := by
  cases h with
  | fits => exact Or.inl rfl
  | overflows => exact Or.inr rfl

namespace Gate

theorem pairing_append {g g' : Gate} {header : Response} {data : List UInt8}
    (h : g'.history.emitted = g.history.emitted ++ [(header, data)]) :
    g'.pairing = g.pairing.bind fun waiting => pairOne waiting header := by
  unfold pairing
  rw [h, List.map_append, List.foldlM_append]
  congr 1
  funext waiting
  simp

theorem pairing_of_other {g g' : Gate} {header : Response} {data : List UInt8}
    (other : header ≠ .mdbStarted ∧ header.terminal = false)
    (h : g'.history.emitted = g.history.emitted ++ [(header, data)] ∨
      g'.history.emitted = g.history.emitted) : g'.pairing = g.pairing := by
  rcases h with grown | same
  · rw [pairing_append grown]
    cases g.pairing <;> simp [pairOne, other]
  · rw [pairing, pairing, same]

/-- Between responses: each terminal one so far had its `MDB_Started`, a busy engine has one
that waits unless it resets the bus, and an error on its way is a terminal response of a transaction. -/
structure Paired (g : Gate) : Prop where
  paired : g.pairing ≠ none
  busy : g.mdbState ≠ .idle → g.mdbState ≠ .busReset → g.pairing = some true
  sound : g.mdbState = .idle ∨ g.mdbState = .busReset → g.mdbFastErrorCode = none
  error : ∀ code, g.mdbFastErrorCode = some code → code.terminal = true

theorem Paired.congr {g g' : Gate} (h : g.Paired) (pairing : g'.pairing = g.pairing)
    (state : g'.mdbState = g.mdbState) (code : g'.mdbFastErrorCode = g.mdbFastErrorCode) : g'.Paired := by
  constructor
  · rw [pairing]
    exact h.paired
  · rw [pairing, state]
    exact h.busy
  · rw [state, code]
    exact h.sound
  · rw [code]
    exact h.error

theorem foldlM_pairOne_of_last {rs : List Response} (paired : rs.foldlM pairOne false ≠ none)
    (last : (rs.filter fun r => r = .mdbStarted || r.terminal).getLast? = some .mdbStarted) :
    rs.foldlM pairOne false = some true := by
  induction rs using List.reverseRecOn with
  | nil => cases last
  | append_singleton rs r ih =>
    rw [List.foldlM_append] at paired ⊢
    have earlier : rs.foldlM pairOne false ≠ none := by
      intro none
      rw [none] at paired
      exact paired rfl
    obtain ⟨waiting, before⟩ := Option.ne_none_iff_exists'.mp earlier
    rw [before] at paired ih ⊢
    rw [List.filter_append] at last
    show (pairOne waiting r).bind some = some true
    by_cases started : r = .mdbStarted
    · rw [pairOne, if_pos started]
      rfl
    · by_cases terminal : r.terminal = true
      · have kept : [r].filter (fun r => r = .mdbStarted || r.terminal) = [r] := by simp [terminal]
        rw [kept, List.getLast?_concat] at last
        exact absurd (Option.some.inj last) started
      · have other : [r].filter (fun r => r = .mdbStarted || r.terminal) = [] := by simp [started, terminal]
        rw [other, List.append_nil] at last
        rw [pairOne, if_neg started, if_neg terminal, ← ih nofun last]
        rfl

theorem Paired.waits {g : Gate} (h : g.Paired) (expects : g.Expects) : g.pairing = some true := by
  by_cases state : g.mdbState = .busReset
  · exact foldlM_pairOne_of_last h.paired (expects.2 state)
  · exact h.busy expects.1 state

theorem pairing_started {g g' : Gate} (h : g.Paired)
    (started : g'.history.emitted = g.history.emitted ++ [(.mdbStarted, [])]) : g'.pairing = some true := by
  rw [pairing_append started]
  obtain ⟨waiting, before⟩ := Option.ne_none_iff_exists'.mp h.paired
  rw [before]
  rfl

end Gate

theorem Puts.state {header : Response} {data : List UInt8} {g g' : Gate} (h : Puts header data g g') :
    g'.mdbState = g.mdbState ∧ g'.mdbFastErrorCode = g.mdbFastErrorCode := by
  cases h <;> exact ⟨rfl, rfl⟩

theorem Aside.paired {g g' : Gate} (h : Aside g g') (before : g.Paired) : g'.Paired := by
  cases h with
  | quiet => exact before
  | halted => exact before.congr rfl rfl rfl
  | answered other puts =>
    exact before.congr (Gate.pairing_of_other other puts.emitted) puts.state.1 puts.state.2
  | config puts =>
    have pairing := Gate.pairing_of_other (by simp [Response.terminal]) puts.emitted
    exact before.congr pairing puts.state.1 puts.state.2

theorem Call.Clean.starts {env : Surroundings} {c : Call} (clean : c.Clean env)
    (accepted : c.Accepts env .mdbTransactionSimple) :
    (c.result env).1.mdbState = .send ∧
      (c.result env).1.history.emitted = c.gate.history.emitted ++ [(.mdbStarted, [])] := by
  obtain ⟨ready, room⟩ := clean accepted
  rw [Call.result_of_accepts accepted, Gate.mdbTransactionSimple_of_idle _ _ accepted.2, ready]
  have puts := Gate.masterOut1_puts .mdbStarted
    (Gate.mdbStartSend true { c.gate with mdbOut := c.gate.mdbBlock (c.data env) })
  exact ⟨puts.state.1, puts.emitted_of_room room⟩

theorem Commanded.paired {env : Surroundings} {c : Call} {g' : Gate} (h : Commanded env c g')
    (clean : c.Clean env) (before : c.gate.Paired) : g'.Paired := by
  cases h with
  | aside h => exact h.paired before
  | busReset accepted two puts =>
    have idle : c.gate.mdbFastErrorCode = none := before.sound (Or.inl accepted.2)
    have sound : g'.mdbFastErrorCode = none := puts.state.2.trans idle
    have pairing : g'.pairing ≠ none := by
      rcases puts.emitted with started | same
      · rw [Gate.pairing_started before started]
        exact nofun
      · rw [Gate.pairing, same]
        exact before.paired
    refine ⟨pairing, fun _ other => absurd puts.state.1 other, fun _ => sound, ?_⟩
    rw [sound]
    exact nofun
  | started accepted _ puts =>
    have idle : c.gate.mdbFastErrorCode = none := before.sound (Or.inl accepted.2)
    have sound : g'.mdbFastErrorCode = none := puts.state.2.trans idle
    have waits : g'.pairing = some true :=
      Gate.pairing_started before (puts.emitted_of_room (clean accepted).2)
    refine ⟨by rw [waits]; exact nofun, fun _ _ => waits, fun _ => sound, ?_⟩
    rw [sound]
    exact nofun
  | refused accepted refused =>
    rw [(clean accepted).1] at refused
    cases refused

namespace Gate

theorem twiStep_paired {env : Surroundings} {g : Gate} (clean : ∀ c ∈ g.calls env, c.Clean env)
    (before : g.Paired) : (g.twiStep env).Paired := by
  refine twiStep_invariant (fun _ h => h.congr rfl rfl rfl) (fun _ h => h.congr rfl rfl rfl)
    (fun _ _ _ h => h.congr rfl rfl rfl) ?_ ?_ before
  · have puts := masterOut2_puts .twi (g.twiIn.read 0 (Nat.zero_lt_succ _)) g
    exact before.congr (pairing_of_other (by simp [Response.terminal]) puts.emitted) puts.state.1 puts.state.2
  · intro c found h
    exact (c.result_commanded env).paired (clean c found) h

theorem twiVect_emitted (st : TwStatus) (data : UInt8) (g : Gate) :
    (g.twiVect st data).history.emitted = g.history.emitted :=
  twiVect_keeps (f := fun g => g.history.emitted) (fun _ _ _ _ _ _ => rfl) st data

theorem twiVect_code (st : TwStatus) (data : UInt8) (g : Gate) :
    (g.twiVect st data).mdbFastErrorCode = g.mdbFastErrorCode :=
  twiVect_keeps (f := fun g => g.mdbFastErrorCode) (fun _ _ _ _ _ _ => rfl) st data

/-- What an interrupt of the UART or the timer leaves of the responses: the engine as it was, or on with
a transaction whose `MDB_Started` waits, where a new error is a terminal response. -/
structure Interrupted (g g' : Gate) : Prop where
  emitted : g'.history.emitted = g.history.emitted
  goes : g'.mdbState = g.mdbState ∧ g'.mdbFastErrorCode = g.mdbFastErrorCode ∨
    g.pairing = some true ∧ (g'.mdbState ≠ .idle ∧ g'.mdbState ≠ .busReset) ∧
      (g'.mdbFastErrorCode = g.mdbFastErrorCode ∨
        ∃ code, g'.mdbFastErrorCode = some code ∧ code.terminal = true)

theorem Interrupted.paired {g g' : Gate} (h : Interrupted g g') (before : g.Paired) : g'.Paired := by
  have pairing : g'.pairing = g.pairing := by rw [pairing, pairing, h.emitted]
  rcases h.goes with ⟨state, code⟩ | ⟨waits, ⟨idle, busReset⟩, error⟩
  · exact before.congr pairing state code
  · refine ⟨by rw [pairing]; exact before.paired, fun _ _ => pairing.trans waits, ?_, ?_⟩
    · exact fun quiet => (quiet.elim idle busReset).elim
    · intro code failed
      rcases error with same | ⟨code', failed', terminal⟩
      · exact before.error code (same.symm.trans failed)
      · cases Option.some.inj (failed.symm.trans failed')
        exact terminal

theorem interrupted_of_error {g g' : Gate} {code : Response} (waits : g.pairing = some true)
    (emitted : g'.history.emitted = g.history.emitted) (state : g'.mdbState = .error)
    (failed : g'.mdbFastErrorCode = some code) (terminal : code.terminal = true) : Interrupted g g' := by
  refine ⟨emitted, Or.inr ⟨waits, ?_, Or.inr ⟨code, failed, terminal⟩⟩⟩
  rw [state]
  decide

theorem usartRx_interrupted (err data : UInt8) (bit9 : Bool) {g : Gate} (waits : g.pairing = some true) :
    Interrupted g (g.usartRx err data bit9) := by
  unfold usartRx
  simp only
  split
  · exact interrupted_of_error waits rfl rfl rfl rfl
  · split
    · exact interrupted_of_error waits rfl rfl rfl rfl
    · split
      · exact ⟨rfl, Or.inr ⟨waits, by simp, Or.inl rfl⟩⟩
      · split
        · exact interrupted_of_error waits rfl rfl rfl rfl
        · exact ⟨rfl, Or.inl ⟨rfl, rfl⟩⟩

theorem usartUdre_interrupted {g : Gate} (waits : g.pairing = some true) : Interrupted g g.usartUdre := by
  unfold usartUdre
  simp only
  split
  · exact interrupted_of_error waits rfl rfl rfl rfl
  · split
    · exact ⟨rfl, Or.inl ⟨rfl, rfl⟩⟩
    · exact ⟨rfl, Or.inl ⟨rfl, rfl⟩⟩

theorem usartTx_interrupted {g : Gate} (waits : g.pairing = some true) : Interrupted g g.usartTx :=
  ⟨rfl, Or.inr ⟨waits, by simp [usartTx], Or.inl rfl⟩⟩

theorem timer0Ovf_interrupted {g : Gate} (paired : g.Paired) : Interrupted g g.timer0Ovf := by
  unfold timer0Ovf
  simp only
  split
  · exact ⟨rfl, Or.inl ⟨rfl, rfl⟩⟩
  · exact ⟨rfl, Or.inl ⟨rfl, rfl⟩⟩
  next idle busReset => exact interrupted_of_error (paired.busy idle busReset) rfl rfl rfl rfl

/-- `mdb_step` ends the transaction with a terminal response, or emits nothing and keeps the
engine busy. -/
theorem MdbStepped.answers {g g' : Gate} (h : MdbStepped g g')
    (error : ∀ code, g.mdbFastErrorCode = some code → code.terminal = true)
    (room : g.masterOut.length + g.answerLength ≤ responseMaxLength) :
    (∃ header data, header.terminal = true ∧ g'.history.emitted = g.history.emitted ++ [(header, data)] ∧
      g'.mdbState = .idle ∧ g'.mdbFastErrorCode = none) ∨
    (g'.history.emitted = g.history.emitted ∧ g'.mdbState = g.mdbState ∧
      g'.mdbFastErrorCode = g.mdbFastErrorCode) := by
  cases h with
  | @answered header data g₀ g' same puts length due =>
    have terminal : header.terminal = true := by
      rcases due with failed | ⟨_, _, terminal⟩
      · exact error header failed
      · exact terminal
    rw [← length] at room
    refine Or.inl ⟨header, data, terminal, ?_, rfl, rfl⟩
    rcases same with rfl | ⟨byte, rfl⟩
    · exact puts.emitted_of_room room
    · exact puts.emitted_of_room room
  | ret => exact Or.inr ⟨rfl, rfl, rfl⟩
  | wait => exact Or.inr ⟨rfl, rfl, rfl⟩

end Gate

/-- Off the main loop only `mdb_step` takes a busy engine to `Idle`. -/
theorem Engine.Moves.busy {e e' : Engine} {event : Event} (h : e.Moves event e') (busy : e.state ≠ .idle)
    (main : event ≠ .mdbStep) (boot : event ≠ .watchdog) : e'.state ≠ .idle := by
  cases h with
  | commands h =>
    rw [eq_of_commands h busy]
    exact busy
  | finish | ret | wait => exact absurd rfl main
  | rxFail | udreFail | timerFail => simp [Engine.fail]
  | rxEnd | tx => simp
  | rxMore | udreMore | udreLast | timerStop => exact busy
  | twi => exact busy
  | boot => exact absurd rfl boot

theorem Gate.boot_emitted (mcusrSaved : UInt8) (history : History) :
    (Gate.boot mcusrSaved history).history.emitted = history.emitted ++ [(.debug, responseBeeBee)] :=
  (Gate.masterOutN_puts .debug _ (by simp [responseBeeBee])).emitted_of_room
    (show 0 + (3 + 3) ≤ 80 by omega)

theorem Gate.boot_paired (mcusrSaved : UInt8) {g : Gate} (paired : g.pairing ≠ none) :
    (Gate.boot mcusrSaved g.history).Paired := by
  have emitted := Gate.boot_emitted mcusrSaved g.history
  have clean := Gate.boot_engine mcusrSaved g.history
  have idle : (Gate.boot mcusrSaved g.history).mdbState = .idle := congrArg Engine.state clean
  have sound : (Gate.boot mcusrSaved g.history).mdbFastErrorCode = none := by
    simpa using congrArg Engine.failed clean
  refine ⟨?_, fun busy => absurd idle busy, fun _ => sound, ?_⟩
  · rw [Gate.pairing_of_other (by simp [Response.terminal]) (Or.inl emitted)]
    exact paired
  · simp [sound]

theorem paired_step {g g' : Gate} {e : Event} (h : step g e = some g') (paired : g.Paired) (clean : Clean g e) :
    g'.Paired := by
  cases e with
  | twiStep env =>
    obtain ⟨_, rfl⟩ := enabled_step h
    exact Gate.twiStep_paired clean paired
  | mdbStep =>
    obtain ⟨⟨_, busy⟩, rfl⟩ := enabled_step h
    rcases g.mdbStep_stepped.answers paired.error clean with ⟨header, data, terminal, emitted, idle, sound⟩ |
      ⟨emitted, state, code⟩
    · by_cases busReset : g.mdbState = .busReset
      · have same := Gate.mdbStep_busReset (paired.sound (Or.inr busReset)) busReset
        rw [same]
        exact paired
      refine ⟨?_, fun later => absurd idle later, fun _ => sound, by simp [sound]⟩
      have other : header ≠ .mdbStarted := by
        rintro rfl
        simp [Response.terminal] at terminal
      rw [Gate.pairing_append emitted, paired.busy busy busReset]
      simp [pairOne, other, terminal]
    · exact paired.congr (by rw [Gate.pairing, Gate.pairing, emitted]) state code
  | usartRx err data bit9 =>
    obtain ⟨_, rfl⟩ := enabled_step h
    exact (Gate.usartRx_interrupted err data bit9 (paired.waits clean)).paired paired
  | usartUdre =>
    obtain ⟨_, rfl⟩ := enabled_step h
    exact (Gate.usartUdre_interrupted (paired.waits clean)).paired paired
  | usartTx =>
    obtain ⟨_, rfl⟩ := enabled_step h
    exact (Gate.usartTx_interrupted (paired.waits clean)).paired paired
  | timer0Ovf =>
    obtain ⟨_, rfl⟩ := enabled_step h
    exact (Gate.timer0Ovf_interrupted paired).paired paired
  | twi st data =>
    obtain ⟨_, rfl⟩ := enabled_step h
    have engine := g.twiVect_engine st data
    exact paired.congr (by rw [Gate.pairing, Gate.pairing, g.twiVect_emitted st data])
      (congrArg Engine.state engine) (g.twiVect_code st data)
  | watchdog =>
    obtain ⟨mcusrSaved, rfl⟩ := boots_of_watchdog h
    exact Gate.boot_paired mcusrSaved paired.paired

theorem matched_step {g g' : Gate} {e : Event} (h : step g e = some g') (paired : g.Paired) (clean : Clean g e) :
    Matched g e g' := by
  refine ⟨(paired_step h paired clean).paired, ?_, ?_⟩
  · intro busy idle boot
    by_cases main : e = .mdbStep
    · subst main
      obtain ⟨_, rfl⟩ := enabled_step h
      rcases g.mdbStep_stepped.answers paired.error clean with ⟨header, data, terminal, emitted, _⟩ | ⟨_, state, _⟩
      · exact ⟨header, data, terminal, emitted⟩
      · exact absurd (state.symm.trans idle) busy
    · exact absurd idle ((step_moves h).busy busy main boot)
  · rintro env rfl c found accepted
    exact (clean c found).starts accepted

theorem paired_boot (mcusrSaved : UInt8) : (Gate.boot mcusrSaved ⟨[], [], []⟩).Paired := by
  have none : Gate.pairing { Gate.boot mcusrSaved ⟨[], [], []⟩ with history := ⟨[], [], []⟩ } ≠ none := by
    simp [Gate.pairing]
  exact Gate.boot_paired mcusrSaved none

/-- Along every run in which no response of a transaction is lost, none finds the UART busy and no UART
interrupt comes in `Idle` or in a bus reset without its `MDB_Started`, one `MDB_Started` goes with one
terminal response. -/
theorem matched_along (mcusrSaved : UInt8) (es : List Event)
    (clean : Runs.Along step (fun g e _ => Clean g e) (.boot mcusrSaved ⟨[], [], []⟩) es) :
    Runs.Along step Matched (.boot mcusrSaved ⟨[], [], []⟩) es := by
  refine Runs.along_of_invariant (fun g e g' h paired clean => ?_) (paired_boot mcusrSaved) clean
  exact ⟨matched_step h paired clean, paired_step h paired clean⟩

instance (env : Surroundings) (c : Call) : Decidable (c.Clean env) := inferInstanceAs (Decidable (_ → _))

instance (g : Gate) : Decidable g.LastStarted := inferInstanceAs (Decidable (_ = _))

instance (g : Gate) : Decidable g.Expects := inferInstanceAs (Decidable (_ ∧ _))

instance (g : Gate) (e : Event) : Decidable (Clean g e) :=
  match e with
  | .twiStep env => inferInstanceAs (Decidable (∀ c ∈ g.calls env, c.Clean env))
  | .mdbStep => inferInstanceAs (Decidable (_ ≤ _))
  | .usartRx .. => inferInstanceAs (Decidable g.Expects)
  | .usartUdre => inferInstanceAs (Decidable g.Expects)
  | .usartTx => inferInstanceAs (Decidable g.Expects)
  | .timer0Ovf => isTrue trivial
  | .twi .. => isTrue trivial
  | .watchdog => isTrue trivial

/-- A POLL request that is acknowledged. -/
def acknowledgedPoll : List Event :=
  [.twi .srSlaAck 0, .twi .srDataAck 4, .twi .srDataAck 0x08, .twi .srDataAck 0x0b, .twi .srDataAck 107,
    .twi .srStop 0, .twiStep ⟨fun _ => 0, fun _ => true, 100⟩, .usartUdre, .usartTx, .usartRx 0 0x00 true,
    .mdbStep]

theorem matched_along_poll : Runs.Along step Matched (.boot 0x01 ⟨[], [], []⟩) acknowledgedPoll :=
  matched_along 0x01 acknowledgedPoll (by decide +kernel)

/-- After its `MDB_Send_Overflow` the empty request leaves an interrupt that fails again. -/
theorem emptyRequest_unmatched :
    ¬ Runs.Along step Matched (.boot 0x01 ⟨[], [], []⟩) (emptyRequest ++ [.usartUdre, .mdbStep]) := by
  intro matched
  have paired := Runs.along_mono (fun _ _ _ h => h.paired) matched
  have unpaired : ¬ Runs.Along step (fun _ _ g' => g'.pairing ≠ none) (.boot 0x01 ⟨[], [], []⟩)
      (emptyRequest ++ [.usartUdre, .mdbStep]) := by
    decide +kernel
  exact unpaired paired

end Vender.Firmware
