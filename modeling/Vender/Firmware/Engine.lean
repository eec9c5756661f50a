import Mathlib.Logic.Relation
import Vender.Lib.Runs
import Vender.Firmware.Calls

namespace Vender.Firmware

/-- What the MDB engine waits for: its state, whether an error is pending for `mdb_step`,
and which of the timer and the two transmit interrupts are enabled. -/
structure Engine where
  state : MdbState
  failed : Bool
  timer : Bool
  udrie0 : Bool
  txcie0 : Bool
  deriving DecidableEq

namespace Engine

/-- `mdb_reset` leaves the transmit interrupts as they are. -/
def reset (e : Engine) : Engine := { e with state := .idle, failed := false, timer := false }

/-- `mdb_fast_error` in an interrupt, which has stopped the timer before. -/
def fail (e : Engine) : Engine := { e with state := .error, failed := true, timer := false }

/-- What a command does to the engine. -/
inductive Commands (e : Engine) : Engine → Prop
  | other : Commands e e
  | reset (idle : e.state = .idle) : Commands e e.reset
  | busReset (idle : e.state = .idle) : Commands e { e with state := .busReset, timer := true }
  | send (idle : e.state = .idle) : Commands e { e with state := .send, timer := true, udrie0 := true }

theorem Commands.of_busy {e e' : Engine} (h : Commands e e') (busy : e.state ≠ .idle) : e' = e := by
  cases h with
  | other => rfl
  | reset idle | busReset idle | send idle => exact absurd idle busy

theorem eq_of_commands {e e' : Engine} (h : Relation.ReflTransGen Commands e e') (busy : e.state ≠ .idle) :
    e' = e := by
  induction h with
  | refl => rfl
  | tail _ one ih =>
    subst ih
    exact one.of_busy busy

/-- What each step of the firmware does to the engine. -/
inductive Moves (e : Engine) : Event → Engine → Prop
  | commands {env : Surroundings} {e' : Engine} (h : Relation.ReflTransGen Commands e e') :
      Moves e (.twiStep env) e'
  | finish (h : e.failed = true ∨ e.state = .recvEnd) : Moves e .mdbStep e.reset
  | ret (failed : e.failed = false) (h : e.state = .recvEnd) : Moves e .mdbStep { e with timer := true }
  | wait (failed : e.failed = false) (h : e.state ≠ .recvEnd) : Moves e .mdbStep e
  | rxFail {err data : UInt8} {bit9 : Bool} : Moves e (.usartRx err data bit9) e.fail
  | rxEnd {err data : UInt8} {bit9 : Bool} (h : e.state = .recv) :
      Moves e (.usartRx err data bit9) { e with state := .recvEnd, timer := false }
  | rxMore {err data : UInt8} {bit9 : Bool} (h : e.state = .recv) :
      Moves e (.usartRx err data bit9) { e with timer := true }
  | udreFail (h : e.udrie0 = true) : Moves e .usartUdre e.fail
  | udreMore (h : e.udrie0 = true) : Moves e .usartUdre { e with timer := true }
  | udreLast (h : e.udrie0 = true) :
      Moves e .usartUdre { e with timer := true, udrie0 := false, txcie0 := true }
  | tx (h : e.txcie0 = true) : Moves e .usartTx { e with state := .recv, timer := true, txcie0 := false }
  | timerFail (h : e.state ≠ .idle ∧ e.state ≠ .busReset) : Moves e .timer0Ovf e.fail
  | timerStop (h : e.state = .idle ∨ e.state = .busReset) : Moves e .timer0Ovf { e with timer := false }
  | twi {st : TwStatus} {data : UInt8} : Moves e (.twi st data) e
  | boot : Moves e .watchdog ⟨.idle, false, false, false, false⟩

end Engine

namespace Gate

def engine (g : Gate) : Engine where
  state := g.mdbState
  failed := g.mdbFastErrorCode.isSome
  timer := g.timer0.isSome
  udrie0 := g.udrie0
  txcie0 := g.txcie0

@[simp] theorem engine_state (g : Gate) : g.engine.state = g.mdbState := rfl

@[simp] theorem engine_failed (g : Gate) : g.engine.failed = g.mdbFastErrorCode.isSome := rfl

@[simp] theorem engine_timer (g : Gate) : g.engine.timer = g.timer0.isSome := rfl

@[simp] theorem engine_udrie0 (g : Gate) : g.engine.udrie0 = g.udrie0 := rfl

@[simp] theorem engine_txcie0 (g : Gate) : g.engine.txcie0 = g.txcie0 := rfl

@[simp] theorem mdbReset_engine (g : Gate) : g.mdbReset.engine = g.engine.reset := rfl

end Gate

theorem Puts.engine {header : Response} {data : List UInt8} {g g' : Gate} (h : Puts header data g g') :
    g'.engine = g.engine := by
  cases h <;> rfl

theorem Aside.engine {g g' : Gate} (h : Aside g g') : g'.engine = g.engine :=
  h.keeps Puts.engine (fun _ _ => rfl) (fun _ _ => rfl)

theorem Commanded.engine {env : Surroundings} {c : Call} {g' : Gate} (h : Commanded env c g') :
    c.gate.engine.Commands g'.engine := by
  cases h with
  | aside h =>
    rw [h.engine]
    exact .other
  | busReset accepted _ puts =>
    rw [puts.engine]
    exact .busReset accepted.2
  | started accepted _ puts =>
    rw [puts.engine]
    exact .send accepted.2
  | refused accepted _ busy puts =>
    rw [puts.engine, Gate.mdbReset_engine, busy.engine]
    exact .reset accepted.2

namespace Gate

theorem twiStep_engine (env : Surroundings) (g : Gate) :
    Relation.ReflTransGen Engine.Commands g.engine (g.twiStep env).engine := by
  refine @twiStep_invariant (fun g' => Relation.ReflTransGen Engine.Commands g.engine g'.engine) env g
    (fun _ h => h) (fun _ h => h) (fun _ _ _ h => h) ?_ ?_ .refl
  · rw [(masterOut2_puts ..).engine]
  · intro c _ h
    exact h.tail (c.result_commanded env).engine

theorem twiVect_engine (st : TwStatus) (data : UInt8) (g : Gate) : (g.twiVect st data).engine = g.engine :=
  twiVect_keeps (fun _ _ _ _ _ _ => rfl) st data

/-- The length of the packet that `mdb_step` answers with, 0 where it answers nothing. -/
def answerLength (g : Gate) : Nat :=
  match g.mdbFastErrorCode with
  | some _ => 5
  | none =>
    if g.mdbState ≠ .recvEnd then 0
    else if g.mdbIn.length = 0 then if g.mdbInLastByte = mdbAck then 3 else 4
    else if g.mdbInLastByte ≠ g.mdbInChecksum then if g.mdbStateRetry then 4 else 0
    else 3 + g.mdbIn.length

/-- What `mdb_step` can do: it ends the transaction with one response, sends RET, or waits. -/
inductive MdbStepped (g : Gate) : Gate → Prop
  | answered {header : Response} {data : List UInt8} {g₀ g' : Gate}
      (same : g₀ = g ∨ ∃ byte, g₀ = g.setUdr0 byte) (puts : Puts header data g₀ g')
      (length : 3 + data.length = g.answerLength)
      (due : g.mdbFastErrorCode = some header ∨
        g.mdbFastErrorCode = none ∧ g.mdbState = .recvEnd ∧ header.terminal = true) :
      MdbStepped g g'.mdbReset
  | ret (clean : g.mdbFastErrorCode = none) (state : g.mdbState = .recvEnd) :
      MdbStepped g (mdbStartReceive { g.setUdr0 mdbRet with mdbStateRetry := true })
  | wait (clean : g.mdbFastErrorCode = none) (state : g.mdbState ≠ .recvEnd) : MdbStepped g g

theorem mdbStep_stepped (g : Gate) : MdbStepped g g.mdbStep := by
  have length : g.answerLength = g.answerLength := rfl
  conv_rhs at length => unfold answerLength
  unfold mdbStep
  split
  next code failed =>
    simp only [failed] at length
    have short : [g.mdbFastErrorState.code, g.mdbFastErrorData].length ≤ 252 := by simp
    exact .answered (Or.inl rfl) (masterOutN_puts code g short) length.symm (Or.inl failed)
  next clean =>
    simp only [clean] at length
    split
    next state =>
      rw [if_neg (not_not.mpr state)] at length
      have due {header : Response} (terminal : header.terminal = true) :
          g.mdbFastErrorCode = some header ∨
            g.mdbFastErrorCode = none ∧ g.mdbState = .recvEnd ∧ header.terminal = true :=
        Or.inr ⟨clean, state, terminal⟩
      split
      next empty =>
        rw [if_pos empty] at length
        split
        next ack =>
          rw [if_pos ack] at length
          exact .answered (Or.inl rfl) (masterOut1_puts .mdbSuccess g) length.symm (due rfl)
        next ack =>
          rw [if_neg ack] at length
          split
          · exact .answered (Or.inl rfl) (masterOut2_puts .mdbNak _ g) length.symm (due rfl)
          · exact .answered (Or.inl rfl) (masterOut2_puts .mdbInvalidEnd _ g) length.symm (due rfl)
      next filled =>
        rw [if_neg filled] at length
        split
        next wrong =>
          rw [if_pos wrong] at length
          split
          next again =>
            rw [if_pos again] at length
            exact .answered (Or.inr ⟨mdbNak, rfl⟩) (masterOut2_puts .mdbInvalidChk _ _) length.symm (due rfl)
          next => exact .ret clean state
        next right =>
          rw [if_neg right] at length
          have stored := g.mdbIn.stored_length
          have fits := g.mdbIn.fits
          simp only [mdbPacketSize] at fits
          have short : g.mdbIn.stored.length ≤ 252 := by omega
          exact .answered (Or.inr ⟨mdbAck, rfl⟩) (masterOutN_puts .mdbSuccess (g.setUdr0 mdbAck) short)
            (by rw [length, ← stored]; rfl) (due rfl)
    next state => exact .wait clean state

theorem MdbStepped.moves {g g' : Gate} (h : MdbStepped g g') : g.engine.Moves .mdbStep g'.engine := by
  cases h with
  | answered same puts _ due =>
    have engine := puts.engine
    rcases same with rfl | ⟨byte, rfl⟩
    · rw [mdbReset_engine, engine]
      rcases due with failed | ⟨_, state, _⟩
      · exact .finish (Or.inl (by simp [failed]))
      · exact .finish (Or.inr state)
    · rw [mdbReset_engine, engine]
      rcases due with failed | ⟨_, state, _⟩
      · exact .finish (Or.inl (by simp [failed]))
      · exact .finish (Or.inr state)
  | ret clean state => exact .ret (by simp [clean]) state
  | wait clean state => exact .wait (by simp [clean]) state

theorem usartRx_moves (err data : UInt8) (bit9 : Bool) (g : Gate) :
    g.engine.Moves (.usartRx err data bit9) (g.usartRx err data bit9).engine := by
  unfold usartRx
  simp only
  split
  · exact .rxFail
  · split
    · exact .rxFail
    next state =>
      have listening : g.engine.state = .recv := not_not.mp state
      split
      · exact .rxEnd listening
      · split
        · exact .rxFail
        · exact .rxMore listening

theorem usartUdre_moves {g : Gate} (enabled : g.udrie0 = true) :
    g.engine.Moves .usartUdre g.usartUdre.engine := by
  unfold usartUdre
  simp only
  split
  · exact .udreFail enabled
  · split
    · exact .udreLast enabled
    · exact .udreMore enabled

theorem timer0Ovf_moves (g : Gate) : g.engine.Moves .timer0Ovf g.timer0Ovf.engine := by
  unfold timer0Ovf
  simp only
  split
  next state => exact .timerStop (Or.inl state)
  next state => exact .timerStop (Or.inr state)
  next idle busReset => exact .timerFail ⟨idle, busReset⟩

theorem boot_engine (mcusrSaved : UInt8) (history : History) :
    (boot mcusrSaved history).engine = ⟨.idle, false, false, false, false⟩ :=
  (masterOutN_puts .debug _ (show responseBeeBee.length ≤ 252 by simp [responseBeeBee])).engine

end Gate

theorem step_moves {g g' : Gate} {e : Event} (h : step g e = some g') : g.engine.Moves e g'.engine := by
  cases e with
  | twiStep env =>
    obtain ⟨_, rfl⟩ := enabled_step h
    exact .commands (g.twiStep_engine env)
  | mdbStep =>
    obtain ⟨_, rfl⟩ := enabled_step h
    exact g.mdbStep_stepped.moves
  | usartRx err data bit9 =>
    obtain ⟨_, rfl⟩ := enabled_step h
    exact g.usartRx_moves err data bit9
  | usartUdre =>
    obtain ⟨⟨_, enabled⟩, rfl⟩ := enabled_step h
    exact Gate.usartUdre_moves enabled
  | usartTx =>
    obtain ⟨⟨_, enabled⟩, rfl⟩ := enabled_step h
    exact .tx enabled
  | timer0Ovf =>
    obtain ⟨_, rfl⟩ := enabled_step h
    exact g.timer0Ovf_moves
  | twi st data =>
    obtain ⟨_, rfl⟩ := enabled_step h
    rw [g.twiVect_engine st data]
    exact .twi
  | watchdog =>
    obtain ⟨mcusrSaved, rfl⟩ := boots_of_watchdog h
    rw [Gate.boot_engine]
    exact .boot

end Vender.Firmware
