import Vender.Firmware.Spared

namespace Vender.Firmware

/-- Complete packets, one after the other. -/
def Packets (bs : List UInt8) : Prop := ∃ as : List Answer, bs = as.flatMap Answer.encode

theorem packets_nil : Packets [] := ⟨[], rfl⟩

theorem packets_packet {header : Response} {data : List UInt8} (short : data.length ≤ 252) :
    Packets (packet header data) :=
  ⟨[⟨header, data, short⟩], (List.append_nil _).symm⟩

theorem packets_append {bs cs : List UInt8} (hb : Packets bs) (hc : Packets cs) : Packets (bs ++ cs) := by
  obtain ⟨as, rfl⟩ := hb
  obtain ⟨as', rfl⟩ := hc
  exact ⟨as ++ as', List.flatMap_append.symm⟩

/-- The two buffers towards the master hold whole packets. -/
structure Gate.Framed (g : Gate) : Prop where
  masterOut : Packets g.masterOut.stored
  twiOut : Packets g.twiOut.stored

theorem Gate.Framed.congr {g g' : Gate} (h : g.Framed) (masterOut : g'.masterOut = g.masterOut)
    (twiOut : g'.twiOut = g.twiOut) : g'.Framed :=
  ⟨masterOut ▸ h.masterOut, twiOut ▸ h.twiOut⟩

theorem Gate.twiOutSet2_stored (header : Response) (data : UInt8) (g : Gate) :
    (g.twiOutSet2 header data).twiOut.stored = packet header [data] :=
  Buffer.copy_stored (show 4 ≤ responseMaxLength by decide)

/-- A response is appended whole, or not at all. -/
theorem Puts.framed {header : Response} {data : List UInt8} {g g' : Gate} (h : Puts header data g g')
    (framed : g.Framed) : g'.Framed := by
  cases h with
  | fits room stored =>
    refine ⟨?_, framed.twiOut⟩
    have short : data.length ≤ 252 := by
      simp only [responseMaxLength] at room
      omega
    exact stored ▸ packets_append framed.masterOut (packets_packet short)
  | overflows =>
    refine ⟨framed.masterOut, ?_⟩
    rw [Gate.twiOutSet2_stored]
    exact packets_packet (by simp)

theorem Aside.framed {g g' : Gate} (h : Aside g g') (framed : g.Framed) : g'.Framed := by
  cases h with
  | quiet => exact framed
  | answered _ puts => exact puts.framed framed
  | config puts => exact puts.framed (framed.congr rfl rfl)
  | halted => exact framed.congr rfl rfl

theorem Commanded.framed {env : Surroundings} {c : Call} {g' : Gate} (h : Commanded env c g')
    (framed : c.gate.Framed) : g'.Framed := by
  cases h with
  | aside h => exact h.framed framed
  | busReset _ _ puts => exact puts.framed (framed.congr rfl rfl)
  | started _ _ puts => exact puts.framed (framed.congr rfl rfl)
  | refused _ _ busy puts =>
    have refused := busy.framed (framed.congr rfl rfl)
    exact puts.framed (refused.congr rfl rfl)

namespace Gate

theorem takeCommands_framed {env : Surroundings} {g : Gate} (framed : g.Framed) : (g.takeCommands env).Framed :=
  (takeCommands_invariant (fun _ h => h.congr rfl rfl) (fun _ h => h.congr rfl rfl)
    ((masterOut2_puts ..).framed framed) (fun c _ => (c.result_commanded env).framed) framed).1

theorem swapOut_framed {g : Gate} (framed : g.Framed) : g.swapOut.Framed := by
  unfold swapOut
  split
  · exact ⟨packets_nil, framed.masterOut⟩
  · exact framed

theorem twiStep_framed {env : Surroundings} {g : Gate} (framed : g.Framed) : (g.twiStep env).Framed := by
  have taken := @takeCommands_framed env g framed
  unfold twiStep
  simp only
  split
  · exact taken
  · exact swapOut_framed taken

theorem MdbStepped.framed {g g' : Gate} (h : MdbStepped g g') (framed : g.Framed) : g'.Framed := by
  cases h with
  | answered same puts =>
    rcases same with rfl | ⟨byte, rfl⟩
    · exact (puts.framed framed).congr rfl rfl
    · exact (puts.framed (framed.congr rfl rfl)).congr rfl rfl
  | ret => exact framed.congr rfl rfl
  | wait => exact framed

theorem twiVect_framed {st : TwStatus} {data : UInt8} {g : Gate} (framed : g.Framed) :
    (g.twiVect st data).Framed := by
  cases st with
  | busError | stLastData => exact ⟨framed.masterOut, packets_nil⟩
  | stSlaAck | stDataAck =>
    unfold twiVect
    simp only
    split
    · exact ⟨framed.masterOut, framed.twiOut⟩
    · exact ⟨framed.masterOut, framed.twiOut⟩
  | _ => exact ⟨framed.masterOut, framed.twiOut⟩

theorem boot_framed (mcusrSaved : UInt8) (history : History) : (boot mcusrSaved history).Framed := by
  exact (masterOutN_puts .debug _ (show responseBeeBee.length ≤ 252 by simp [responseBeeBee])).framed
    ⟨packets_nil, packets_nil⟩

end Gate

theorem framed_step {g g' : Gate} {e : Event} (h : step g e = some g') (framed : g.Framed) : g'.Framed := by
  cases e with
  | twiStep env =>
    obtain ⟨_, rfl⟩ := enabled_step h
    exact Gate.twiStep_framed framed
  | mdbStep =>
    obtain ⟨_, rfl⟩ := enabled_step h
    exact g.mdbStep_stepped.framed framed
  | usartRx | usartUdre | usartTx | timer0Ovf =>
    obtain ⟨_, queues⟩ := step_frame h rfl (by simp)
    simp only [Gate.queues, Prod.mk.injEq] at queues
    exact framed.congr queues.1 queues.2.1
  | twi st data =>
    obtain ⟨_, rfl⟩ := enabled_step h
    exact Gate.twiVect_framed framed
  | watchdog =>
    obtain ⟨mcusrSaved, rfl⟩ := boots_of_watchdog h
    exact Gate.boot_framed mcusrSaved g.history

/-- The buffers represent what they are to hold: none is longer than its storage, and what goes
to the master is packets. -/
structure Gate.Represented (g : Gate) : Prop where
  twiIn : g.twiIn.length ≤ commandMaxLength
  twiOut : g.twiOut.length ≤ responseMaxLength
  masterOut : g.masterOut.length ≤ responseMaxLength
  mdbIn : g.mdbIn.length ≤ mdbPacketSize
  mdbOut : g.mdbOut.length ≤ mdbPacketSize
  framed : g.Framed

theorem Gate.Framed.represented {g : Gate} (framed : g.Framed) : g.Represented :=
  ⟨g.twiIn.fits, g.twiOut.fits, g.masterOut.fits, g.mdbIn.fits, g.mdbOut.fits, framed⟩

/-- From the boot on, over any order of steps, the buffers keep their representation, no step
reads or writes beyond the storage of one, and what is not among its accesses it has no part in. -/
theorem represented_along (mcusrSaved : UInt8) (es : List Event) :
    (∀ g : Gate, AllInside g.bootAccesses) ∧ (Gate.boot mcusrSaved ⟨[], [], []⟩).Represented ∧
      Runs.Along step
        (fun g e g' => AllInside (e.accesses g) ∧ (∀ a, a ∉ e.accesses g → Spares g e g' a) ∧ g'.Represented)
        (.boot mcusrSaved ⟨[], [], []⟩) es := by
  have booted := Gate.boot_framed mcusrSaved ⟨[], [], []⟩
  refine ⟨Gate.bootAccesses_inside, booted.represented, ?_⟩
  refine Runs.along_of_invariant (fun g e g' h framed _ => ?_) booted (Runs.along_true _ _)
  have framed := framed_step h framed
  exact ⟨⟨e.accesses_inside g, fun a out => step_spares h out, framed.represented⟩, framed⟩

end Vender.Firmware
