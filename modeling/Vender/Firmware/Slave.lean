import Vender.Lib.Runs
import Vender.Firmware.CommandLoop
import Vender.Firmware.Engine

namespace Vender.Firmware

/-- The part of the state that `master_out_*` and the MDB engine leave to the TWI driver. -/
def Gate.bus (g : Gate) := (g.mode, g.twiIdle, g.twcr, g.twdr, g.twiIn)

/-- The responses on their way to the master. -/
def Gate.queues (g : Gate) := (g.masterOut, g.twiOut, g.history.emitted)

theorem Puts.bus {header : Response} {data : List UInt8} {g g' : Gate} (h : Puts header data g g') :
    g'.bus = g.bus := by
  cases h <;> rfl

/-- What the driver's own main-loop part keeps: whether it is idle, and TWCR. -/
def Gate.driver (g : Gate) := (g.twiIdle, g.twcr)

theorem Puts.driver {header : Response} {data : List UInt8} {g g' : Gate} (h : Puts header data g g') :
    g'.driver = g.driver := by
  cases h <;> rfl

theorem Aside.driver {g g' : Gate} (h : Aside g g') : g'.driver = g.driver :=
  h.keeps Puts.driver (fun _ _ => rfl) (fun _ _ => rfl)

theorem Commanded.driver {env : Surroundings} {c : Call} {g' : Gate} (h : Commanded env c g') :
    g'.driver = c.gate.driver := by
  cases h with
  | aside h => exact h.driver
  | busReset _ _ puts => exact puts.driver
  | started _ _ puts => exact puts.driver
  | refused _ _ busy puts => exact puts.driver.trans busy.driver

namespace Gate

theorem twiStep_driver (env : Surroundings) (g : Gate) : (g.twiStep env).driver = g.driver := by
  refine @twiStep_invariant (fun g' => g'.driver = g.driver) env g (fun _ h => h) (fun _ h => h)
    (fun _ _ _ h => h) ?_ ?_ rfl
  · exact (masterOut2_puts ..).driver
  · intro c _ h
    exact (c.result_commanded env).driver.trans h

theorem usartRx_frame (err data : UInt8) (bit9 : Bool) (g : Gate) :
    (g.usartRx err data bit9).bus = g.bus ∧ (g.usartRx err data bit9).queues = g.queues := by
  unfold usartRx
  simp only
  split
  · exact ⟨rfl, rfl⟩
  · split
    · exact ⟨rfl, rfl⟩
    · split
      · exact ⟨rfl, rfl⟩
      · split <;> exact ⟨rfl, rfl⟩

theorem usartUdre_frame (g : Gate) : g.usartUdre.bus = g.bus ∧ g.usartUdre.queues = g.queues := by
  unfold usartUdre
  simp only
  split
  · exact ⟨rfl, rfl⟩
  · split <;> exact ⟨rfl, rfl⟩

theorem timer0Ovf_frame (g : Gate) : g.timer0Ovf.bus = g.bus ∧ g.timer0Ovf.queues = g.queues := by
  unfold timer0Ovf
  simp only
  split <;> exact ⟨rfl, rfl⟩

theorem MdbStepped.bus {g g' : Gate} (h : MdbStepped g g') : g'.bus = g.bus := by
  cases h with
  | answered same puts =>
    rcases same with rfl | ⟨byte, rfl⟩
    · exact puts.bus
    · exact puts.bus
  | ret => rfl
  | wait => rfl

end Gate

/-- The steps of the MDB engine. -/
def Event.mdb : Event → Bool
  | .mdbStep | .usartRx .. | .usartUdre | .usartTx | .timer0Ovf => true
  | _ => false

/-- The interrupts of the UART and the timer touch neither the driver nor the responses. -/
theorem step_frame {g g' : Gate} {e : Event} (h : step g e = some g') (mdb : e.mdb = true)
    (interrupt : e ≠ .mdbStep) : g'.bus = g.bus ∧ g'.queues = g.queues := by
  cases e with
  | twiStep | twi | watchdog => cases mdb
  | mdbStep => exact absurd rfl interrupt
  | usartRx err data bit9 =>
    obtain ⟨_, rfl⟩ := enabled_step h
    exact g.usartRx_frame err data bit9
  | usartUdre =>
    obtain ⟨_, rfl⟩ := enabled_step h
    exact g.usartUdre_frame
  | usartTx =>
    obtain ⟨_, rfl⟩ := enabled_step h
    exact ⟨rfl, rfl⟩
  | timer0Ovf =>
    obtain ⟨_, rfl⟩ := enabled_step h
    exact g.timer0Ovf_frame

theorem step_bus {g g' : Gate} {e : Event} (h : step g e = some g') (mdb : e.mdb = true) : g'.bus = g.bus := by
  by_cases main : e = .mdbStep
  · subst main
    obtain ⟨_, rfl⟩ := enabled_step h
    exact g.mdbStep_stepped.bus
  · exact (step_frame h mdb main).1

theorem Gate.bus_driver {g g' : Gate} (same : g'.bus = g.bus) : g'.driver = g.driver := by
  simp only [bus, Prod.mk.injEq] at same
  obtain ⟨_, idle, twcr, _, _⟩ := same
  rw [driver, driver, idle, twcr]

/-- Whether a transfer is in progress after the driver has seen a status. It ends with STOP,
with a byte that is not acknowledged, with the last one and with a bus error. -/
def TwStatus.inTransfer (before : Bool) : TwStatus → Bool
  | .noInfo => before
  | .srStop | .srDataNack | .srGcallDataNack | .stLastData | .stDataNack | .busError => false
  | _ => true

/-- The firmware as the master sees it, and whether a transfer with it is in progress. -/
structure Slave where
  gate : Gate
  inTransfer : Bool

namespace Slave

def next (s : Slave) (e : Event) (g : Gate) : Slave where
  gate := g
  inTransfer :=
    match e with
    | .twi st _ => st.inTransfer s.inTransfer
    | .watchdog => false
    | _ => s.inTransfer

def step (s : Slave) (e : Event) : Option Slave := (Firmware.step s.gate e).map (s.next e)

/-- Between transfers the driver is idle, and TWCR was last written with TWEA. -/
def Reachable (s : Slave) : Prop :=
  s.inTransfer = false → s.gate.twiIdle = true ∧ s.gate.twcr &&& 0x40 ≠ 0

instance (s : Slave) : Decidable s.Reachable := inferInstanceAs (Decidable (_ → _))

/-- The statuses that end a transfer and after which the driver does not listen. -/
def EndsDeaf : Event → Prop
  | .twi .stDataNack _ | .twi .srDataNack _ | .twi .srGcallDataNack _ | .twi .busError _ => True
  | _ => False

end Slave

theorem Gate.boot_driver (mcusrSaved : UInt8) (history : History) :
    (boot mcusrSaved history).driver = (true, 0x80 ||| 0x40 ||| 0x04 ||| 0x01) :=
  (masterOutN_puts .debug _ (show responseBeeBee.length ≤ 252 by simp [responseBeeBee])).driver

namespace Slave

theorem reachable_boot (mcusrSaved : UInt8) (history : History) :
    (⟨.boot mcusrSaved history, false⟩ : Slave).Reachable := by
  have driver := Gate.boot_driver mcusrSaved history
  simp only [Gate.driver, Prod.mk.injEq] at driver
  obtain ⟨idle, twcr⟩ := driver
  intro _
  refine ⟨idle, ?_⟩
  rw [twcr]
  decide

theorem reachable_of_busy {s : Slave} (busy : s.inTransfer = true) : s.Reachable := by
  intro between
  rw [busy] at between
  cases between

theorem twea (ack : Bool) :
    (0x80 ||| (if ack then 0x40 else 0) ||| 0x04 ||| 0x01 : UInt8) &&& 0x40 = if ack then 0x40 else 0 := by
  cases ack <;> decide

/-- What the driver does on each status. -/
theorem reachable_twiVect (s : Slave) (st : TwStatus) (data : UInt8) (before : s.Reachable) :
    (s.next (.twi st data) (s.gate.twiVect st data)).Reachable ↔ ¬ EndsDeaf (.twi st data) := by
  cases st with
  | noInfo => exact iff_of_true before (fun deaf => deaf)
  | srSlaAck | srGcallAck | srArbLostSlaAck | srArbLostGcallAck | srDataAck | srGcallDataAck | stSlaAck
  | stDataAck | other => exact iff_of_true (reachable_of_busy rfl) (fun deaf => deaf)
  | srStop | stLastData =>
    refine iff_of_true (fun _ => ⟨rfl, ?_⟩) (fun deaf => deaf)
    change (0x80 ||| (if true then 0x40 else 0) ||| 0x04 ||| 0x01 : UInt8) &&& 0x40 ≠ 0
    rw [twea]
    simp
  | srDataNack | srGcallDataNack | stDataNack =>
    refine iff_of_false (fun reachable => ?_) (fun listens => listens trivial)
    have off : (0x80 ||| (if false then 0x40 else 0) ||| 0x04 ||| 0x01 : UInt8) &&& 0x40 ≠ 0 := (reachable rfl).2
    rw [twea] at off
    exact off rfl
  | busError =>
    refine iff_of_false (fun reachable => ?_) (fun listens => listens trivial)
    have off : (0x10 ||| 0x80 ||| 0x04 ||| 0x01 : UInt8) &&& 0x40 ≠ 0 := (reachable rfl).2
    exact off (by decide)

theorem reachable_iff {s t : Slave} {e : Event} (h : s.step e = some t) (before : s.Reachable) :
    t.Reachable ↔ ¬ EndsDeaf e := by
  obtain ⟨g, taken, rfl⟩ := Option.map_eq_some_iff.mp h
  have kept (quiet : ¬ EndsDeaf e) (same : (s.next e g).inTransfer = s.inTransfer)
      (driver : g.driver = s.gate.driver) : (s.next e g).Reachable ↔ ¬ EndsDeaf e := by
    simp only [Gate.driver, Prod.mk.injEq] at driver
    obtain ⟨idle, twcr⟩ := driver
    refine iff_of_true (fun between => ?_) quiet
    change g.twiIdle = true ∧ g.twcr &&& 0x40 ≠ 0
    rw [idle, twcr]
    exact before (same.symm.trans between)
  cases e with
  | twi st data =>
    obtain ⟨_, rfl⟩ := enabled_step taken
    exact s.reachable_twiVect st data before
  | watchdog =>
    obtain ⟨mcusrSaved, rfl⟩ := boots_of_watchdog taken
    exact iff_of_true (reachable_boot mcusrSaved _) (fun deaf => deaf)
  | twiStep env =>
    obtain ⟨_, rfl⟩ := enabled_step taken
    exact kept (fun deaf => deaf) rfl (s.gate.twiStep_driver env)
  | mdbStep | usartRx | usartUdre | usartTx | timer0Ovf =>
    exact kept (fun deaf => deaf) rfl (Gate.bus_driver (step_bus taken rfl))

/-- The slave stays reachable along a run exactly when no transfer of it ends with a byte that
is not acknowledged or with a bus error. -/
theorem reachable_along_iff (mcusrSaved : UInt8) (es : List Event) :
    Runs.Along step (fun _ _ t => t.Reachable) ⟨.boot mcusrSaved ⟨[], [], []⟩, false⟩ es ↔
      Runs.Along step (fun _ e _ => ¬ EndsDeaf e) ⟨.boot mcusrSaved ⟨[], [], []⟩, false⟩ es := by
  apply Runs.along_iff_along (I := Reachable)
  · intro s e t h before
    exact reachable_iff h before
  · intro s e t h before listens
    exact (reachable_iff h before).mpr listens
  · exact reachable_boot mcusrSaved _

/-- The master reads one byte while there is nothing to read, and does not acknowledge it. -/
theorem emptyRead_deafens :
    ¬ Runs.Along step (fun _ _ t => t.Reachable) ⟨.boot 0x01 ⟨[], [], []⟩, false⟩
      [.twi .stSlaAck 0, .twi .stDataNack 0] := by
  decide +kernel

end Slave

end Vender.Firmware
