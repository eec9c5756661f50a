import Vender.Firmware.Command

namespace Vender.Firmware

inductive TwStatus
  | noInfo
  | busError
  | srSlaAck
  | srGcallAck
  | srArbLostSlaAck
  | srArbLostGcallAck
  | srDataAck
  | srGcallDataAck
  | srDataNack
  | srGcallDataNack
  | srStop
  | stSlaAck
  | stDataAck
  | stLastData
  | stDataNack
  | other
  deriving DecidableEq, Repr

namespace Gate

/-- The packet loop of `twi_step`. The offset `i` has eight bits, the pointer `src` does
not. The loop is left early when a command does not return, and the watchdog ends it after
`patience` turns. -/
def packetLoop (env : Surroundings) : (patience : Nat) → (i : UInt8) → (src : Nat) → Gate → Gate
  | 0, _, _, g => { g with mode := .stuck }
  | patience + 1, i, src, g =>
    let length := UInt8.ofNat g.twiIn.length
    match g.masterCommand env src (length - i) with
    | (g, consumed) =>
      if g.mode ≠ .running then g
      else if consumed = 0 then g
      else if i + consumed ≥ length then g
      else packetLoop env patience (i + consumed) (src + consumed.toNat) g

def takeCommands (env : Surroundings) (g : Gate) : Gate :=
  if g.twiIn.length = 0 then
    g
  else
    let g :=
      if g.twiIn.length = 1 then g.masterOut2 .twi (g.twiIn.read 0 (Nat.zero_lt_succ _))
      else g.packetLoop env env.patience 0 0
    if g.mode ≠ .running then g else { g with twiIn := g.twiIn.clearFast }

def swapOut (g : Gate) : Gate :=
  if g.twiOut.used ≥ g.twiOut.length ∧ g.masterOut.length > 0 then
    { g with twiOut := { g.masterOut with used := 0 }, masterOut := g.twiOut.clearFull }
  else
    g

def twiStep (env : Surroundings) (g : Gate) : Gate :=
  let g := g.takeCommands env
  if g.mode ≠ .running then g else g.swapOut

def countStatus (st : TwStatus) (t : TwiStat) : TwiStat :=
  match st with
  | .stDataNack => { t with stDataNack := t.stDataNack + 1 }
  | .stLastData => { t with stLastData := t.stLastData + 1 }
  | .srDataNack => { t with srDataNack := t.srDataNack + 1 }
  | .srGcallDataNack => { t with srGcallDataNack := t.srGcallDataNack + 1 }
  | _ => t

/-- TWINT, TWEN and TWIE, with TWEA if the next byte is to be acknowledged. -/
def setTwcr (ack : Bool) (g : Gate) : Gate :=
  { g with twcr := 0x80 ||| (if ack then 0x40 else 0) ||| 0x04 ||| 0x01 }

/-- `data` is what TWDR holds when the interrupt comes. -/
def twiVect (st : TwStatus) (data : UInt8) (g : Gate) : Gate :=
  let g := { g with twiStat := countStatus st g.twiStat, twdr := data }
  match st with
  | .noInfo => { g with twiStat := { g.twiStat with noInfo := g.twiStat.noInfo + 1 } }
  | .busError =>
    { g with
      twiStat := { g.twiStat with busError := g.twiStat.busError + 1 }
      twiIn := g.twiIn.clearFast
      twiOut := g.twiOut.clearFast
      -- with TWSTO and without TWEA
      twcr := 0x10 ||| 0x80 ||| 0x04 ||| 0x01 }
  | .srSlaAck | .srGcallAck | .srArbLostSlaAck | .srArbLostGcallAck =>
    setTwcr true { g with twiIdle := false, twiIn := g.twiIn.clearFast }
  | .srDataAck | .srGcallDataAck =>
    setTwcr true { g with twiIdle := false, twiIn := (g.twiIn.append data).getD g.twiIn }
  | .srDataNack | .srGcallDataNack => setTwcr false { g with twiIdle := false }
  | .srStop =>
    setTwcr true
      { g with twiStat := { g.twiStat with srStop := g.twiStat.srStop + 1 }, twiIdle := true }
  | .stSlaAck =>
    let g := { g with twiIdle := false }
    if g.twiOut.length = 0 then
      setTwcr false
        { g with
          twiStat := { g.twiStat with outEmptySetLength := g.twiStat.outEmptySetLength + 1 }
          twdr := 0 }
    else
      setTwcr true
        { g with twiOut := { g.twiOut with used := 0 }, twdr := UInt8.ofNat g.twiOut.length }
  | .stDataAck =>
    let g := { g with twiIdle := false }
    if more : g.twiOut.used < g.twiOut.length then
      setTwcr true
        { g with
          twdr := g.twiOut.read g.twiOut.used (g.twiOut.lt_size_of_lt_length more)
          twiOut := { g.twiOut with used := g.twiOut.used + 1 } }
    else
      setTwcr false { g with twdr := 0 }
  | .stLastData => setTwcr true { g with twiIdle := true, twiOut := g.twiOut.clearFast }
  | .stDataNack =>
    setTwcr false { g with twiIdle := true, twiOut := { g.twiOut with used := 0 } }
  | .other => setTwcr false g

/-- The driver's interrupt keeps to its own variables and registers. -/
theorem twiVect_frame (st : TwStatus) (data : UInt8) (g : Gate) :
    ∃ (twiStat : TwiStat) (twiIdle : Bool) (twiIn : Buffer commandMaxLength) (twiOut : Buffer responseMaxLength)
      (twcr twdr : UInt8), g.twiVect st data =
        { g with
          twiStat := twiStat, twiIdle := twiIdle, twiIn := twiIn, twiOut := twiOut, twcr := twcr
          twdr := twdr } := by
  cases st with
  | stSlaAck | stDataAck =>
    unfold twiVect
    simp only
    split
    · exact ⟨_, _, _, _, _, _, rfl⟩
    · exact ⟨_, _, _, _, _, _, rfl⟩
  | _ => exact ⟨_, _, _, _, _, _, rfl⟩

theorem twiVect_keeps {α : Type*} {f : Gate → α} {g : Gate}
    (frame : ∀ twiStat twiIdle twiIn twiOut twcr twdr,
      f { g with
          twiStat := twiStat, twiIdle := twiIdle, twiIn := twiIn, twiOut := twiOut, twcr := twcr
          twdr := twdr } = f g)
    (st : TwStatus) (data : UInt8) : f (g.twiVect st data) = f g := by
  obtain ⟨_, _, _, _, _, _, same⟩ := g.twiVect_frame st data
  rw [same]
  exact frame _ _ _ _ _ _

def timer0Ovf (g : Gate) : Gate :=
  let g := g.timer0Stop
  match g.mdbState with
  | .idle => g
  | .busReset => { g with txen0 := true }
  | _ => g.mdbFastError .mdbTimeout 5

/-- `main` up to its loop, after a reset with the given `MCUSR`. -/
def boot (mcusrSaved : UInt8) (history : History) : Gate :=
  masterOutN .debug responseBeeBee
    { mode := .running, mcusrSaved := mcusrSaved, txb80 := false, udrie0 := false, txcie0 := false,
      txen0 := true, timer0 := none, mdbState := .idle, mdbIn := Buffer.init _, mdbInChecksum := 0,
      mdbInLastByte := 0, mdbOut := Buffer.init _, mdbStateRetry := false, mdbFastErrorCode := none,
      mdbFastErrorState := .idle, mdbFastErrorData := 0, twiIdle := true, twiIn := Buffer.init _,
      masterOut := Buffer.init _, twiOut := Buffer.init _, twiStat := ⟨0, 0, 0, 0, 0, 0, 0, 0⟩,
      twcr := 0x80 ||| 0x40 ||| 0x04 ||| 0x01, twdr := 0, history := history }

end Gate

/-- The atomic steps: the two calls of the main loop, the interrupts, and the reset by the
watchdog. -/
inductive Event
  | twiStep (env : Surroundings)
  | mdbStep
  | usartRx (err data : UInt8) (bit9 : Bool)
  | usartUdre
  | usartTx
  | timer0Ovf
  | twi (st : TwStatus) (data : UInt8)
  | watchdog

/-- One step, `none` if it cannot be taken: an interrupt that is not enabled, or a call
that the main loop does not make. -/
def step (g : Gate) : Event → Option Gate
  | .twiStep env => if g.mode = .running ∧ g.twiIdle then some (g.twiStep env) else none
  | .mdbStep => if g.mode = .running ∧ g.mdbState ≠ .idle then some g.mdbStep else none
  | .usartRx err data bit9 => if g.mode ≠ .softReset then some (g.usartRx err data bit9) else none
  | .usartUdre => if g.mode ≠ .softReset ∧ g.udrie0 then some g.usartUdre else none
  | .usartTx => if g.mode ≠ .softReset ∧ g.txcie0 then some g.usartTx else none
  | .timer0Ovf => if g.mode ≠ .softReset ∧ g.timer0.isSome then some g.timer0Ovf else none
  | .twi st data => if g.mode ≠ .softReset then some (g.twiVect st data) else none
  | .watchdog =>
    match g.mode with
    | .running => none
    -- `early_init` clears the flag of a reset that `soft_reset` asked for
    | .softReset => some (.boot 0 g.history)
    | .stuck => some (.boot 0x08 g.history)

theorem enabled_step {σ : Type*} {p : Prop} [Decidable p] {s t : σ}
    (h : (if p then some s else none) = some t) : p ∧ t = s := by
  obtain ⟨enabled, taken⟩ := Option.ite_none_right_eq_some.mp h
  exact ⟨enabled, (Option.some.inj taken).symm⟩

theorem boots_of_watchdog {g g' : Gate} (h : step g .watchdog = some g') :
    ∃ mcusrSaved, g' = .boot mcusrSaved g.history := by
  simp only [step] at h
  split at h
  · cases h
  · exact ⟨0, (Option.some.inj h).symm⟩
  · exact ⟨0x08, (Option.some.inj h).symm⟩

end Vender.Firmware
