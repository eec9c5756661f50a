import Vender.Lib.Runs
import Vender.Firmware.Twi

namespace Vender.Firmware

namespace Gate

theorem masterOutPacket_emitted (header : Response) (data packet : List UInt8) (n : UInt8) (g : Gate) :
    (g.masterOutPacket header data packet n).history.emitted =
      if g.masterOut.length + packet.length ≤ responseMaxLength then
        g.history.emitted ++ [(header, data)]
      else g.history.emitted := by
  unfold masterOutPacket
  split
  next out h =>
    have room : ¬ responseMaxLength < g.masterOut.length + packet.length := by
      rw [← Buffer.appendN_eq_none, h]
      nofun
    rw [if_pos (by omega)]
  next h =>
    have full := Buffer.appendN_eq_none.mp h
    rw [if_neg (by omega)]
    rfl

theorem masterOut1_emitted (header : Response) (g : Gate) :
    (g.masterOut1 header).history.emitted =
      if g.masterOut.length + 3 ≤ responseMaxLength then g.history.emitted ++ [(header, [])]
      else g.history.emitted :=
  masterOutPacket_emitted ..

theorem masterOut2_emitted (header : Response) (data : UInt8) (g : Gate) :
    (g.masterOut2 header data).history.emitted =
      if g.masterOut.length + 4 ≤ responseMaxLength then g.history.emitted ++ [(header, [data])]
      else g.history.emitted :=
  masterOutPacket_emitted ..

theorem masterOutN_emitted (header : Response) (data : List UInt8) (g : Gate) :
    (g.masterOutN header data).history.emitted = g.history.emitted ++ [(header, data)] ∨
      (g.masterOutN header data).history.emitted = g.history.emitted := by
  unfold masterOutN
  simp only
  split
  · exact Or.inr rfl
  · exact Or.inl rfl

/-- What the receiver has to do with: `master_out_*` and the TWI driver leave all of it
alone. -/
def line (g : Gate) :=
  (g.mdbState, g.mdbIn, g.mdbInChecksum, g.mdbInLastByte, g.mdbFastErrorCode, g.history.heard)

@[simp] theorem masterOutPacket_line (header : Response) (data packet : List UInt8) (n : UInt8)
    (g : Gate) : (g.masterOutPacket header data packet n).line = g.line := by
  unfold masterOutPacket
  split <;> rfl

@[simp] theorem masterOut1_line (header : Response) (g : Gate) :
    (g.masterOut1 header).line = g.line :=
  masterOutPacket_line ..

@[simp] theorem masterOut2_line (header : Response) (data : UInt8) (g : Gate) :
    (g.masterOut2 header data).line = g.line :=
  masterOutPacket_line ..

@[simp] theorem masterOutN_line (header : Response) (data : List UInt8) (g : Gate) :
    (g.masterOutN header data).line = g.line := by
  unfold masterOutN
  simp only
  split <;> rfl

/-- The receiver's variables agree with what the UART received since it last began
listening. -/
structure Tracks (g : Gate) : Prop where
  recv : g.mdbState = .recv →
    g.history.heard = g.mdbIn.stored.map (·, false) ∧ g.mdbInChecksum = memsum g.mdbIn.stored
  /-- In `Recv_End` either a whole answer was received, or RET was sent and nothing since. -/
  recvEnd : g.mdbState = .recvEnd →
    (g.history.heard = [] ∧ g.mdbIn.length = 0 ∧ g.mdbInLastByte = mdbAck) ∨
    (g.history.heard = g.mdbIn.stored.map (·, false) ++ [(g.mdbInLastByte, true)] ∧
      g.mdbInChecksum = memsum g.mdbIn.stored)
  error : g.mdbFastErrorCode ≠ some .mdbSuccess

theorem Tracks.congr {g g' : Gate} (h : g.Tracks) (same : g'.line = g.line) : g'.Tracks := by
  simp only [line, Prod.mk.injEq] at same
  obtain ⟨hstate, hin, hsum, hlast, hcode, hheard⟩ := same
  constructor
  · rw [hstate, hin, hsum, hheard]
    exact h.recv
  · rw [hstate, hin, hsum, hlast, hheard]
    exact h.recvEnd
  · rw [hcode]
    exact h.error

theorem tracks_of_deaf {g : Gate} (recv : g.mdbState ≠ .recv) (recvEnd : g.mdbState ≠ .recvEnd)
    (error : g.mdbFastErrorCode ≠ some .mdbSuccess) : g.Tracks :=
  ⟨fun h => absurd h recv, fun h => absurd h recvEnd, error⟩

theorem tracks_mdbReset (g : Gate) : g.mdbReset.Tracks :=
  tracks_of_deaf (by simp) (by simp) (by simp)

theorem tracks_mdbStartReceive {g : Gate} (error : g.mdbFastErrorCode ≠ some .mdbSuccess) :
    g.mdbStartReceive.Tracks :=
  ⟨fun _ => ⟨rfl, rfl⟩, fun _ => Or.inl ⟨rfl, rfl, rfl⟩, error⟩

theorem tracks_mdbFastError {code : Response} (data : UInt8) (g : Gate)
    (h : code ≠ .mdbSuccess) : (g.mdbFastError code data).Tracks := by
  refine tracks_of_deaf ?_ ?_ ?_ <;> simp [mdbFastError, h]

/-- A step that reports no success and keeps the receiver's variables in agreement. -/
structure Quiet (g g' : Gate) : Prop where
  tracks : g.Tracks → g'.Tracks
  emits : ∃ more, g'.history.emitted = g.history.emitted ++ more ∧
    ∀ data, (Response.mdbSuccess, data) ∉ more

theorem Quiet.of_tracks {g g' : Gate} (tracks : g'.Tracks)
    (same : g'.history.emitted = g.history.emitted) : Quiet g g' :=
  ⟨fun _ => tracks, [], by simp [same], by simp⟩

theorem Quiet.of_line {g g' : Gate} (line : g'.line = g.line)
    (same : g'.history.emitted = g.history.emitted) : Quiet g g' :=
  ⟨fun h => h.congr line, [], by simp [same], by simp⟩

theorem Quiet.refl (g : Gate) : Quiet g g := .of_line rfl rfl

theorem Quiet.trans {g₁ g₂ g₃ : Gate} (h : Quiet g₁ g₂) (h' : Quiet g₂ g₃) : Quiet g₁ g₃ := by
  obtain ⟨more, grown, silent⟩ := h.emits
  obtain ⟨more', grown', silent'⟩ := h'.emits
  refine ⟨fun ht => h'.tracks (h.tracks ht), more ++ more', ?_, ?_⟩
  · rw [grown', grown, List.append_assoc]
  · intro data hd
    rcases List.mem_append.mp hd with hd | hd
    · exact silent data hd
    · exact silent' data hd

theorem Quiet.of_emitted {g g' : Gate} {header : Response} (data : List UInt8)
    (other : header ≠ .mdbSuccess) (line : g'.line = g.line)
    (emitted : g'.history.emitted = g.history.emitted ++ [(header, data)] ∨
      g'.history.emitted = g.history.emitted) : Quiet g g' := by
  rcases emitted with grown | same
  · refine ⟨fun h => h.congr line, _, grown, ?_⟩
    intro d hd
    cases List.mem_singleton.mp hd
    exact other rfl
  · exact .of_line line same

theorem quiet_masterOut1 (header : Response) (g : Gate) (other : header ≠ .mdbSuccess) :
    Quiet g (g.masterOut1 header) := by
  apply Quiet.of_emitted [] other (masterOut1_line header g)
  rw [masterOut1_emitted]
  split
  · exact Or.inl rfl
  · exact Or.inr rfl

theorem quiet_masterOut2 (header : Response) (data : UInt8) (g : Gate)
    (other : header ≠ .mdbSuccess) : Quiet g (g.masterOut2 header data) := by
  apply Quiet.of_emitted [data] other (masterOut2_line header data g)
  rw [masterOut2_emitted]
  split
  · exact Or.inl rfl
  · exact Or.inr rfl

theorem quiet_masterOutN (header : Response) (data : List UInt8) (g : Gate)
    (other : header ≠ .mdbSuccess) : Quiet g (g.masterOutN header data) :=
  .of_emitted data other (masterOutN_line header data g) (masterOutN_emitted header data g)

theorem quiet_mdbReset (g : Gate) : Quiet g g.mdbReset :=
  .of_tracks (tracks_mdbReset g) rfl

theorem quiet_mdbStartSend (ready : Bool) (g : Gate) : Quiet g (g.mdbStartSend ready) := by
  unfold mdbStartSend
  split
  · exact (quiet_masterOut2 .uartSendBusy 0 g (by simp)).trans (quiet_mdbReset _)
  · refine ⟨fun h => ?_, [], ?_, by simp⟩
    · refine tracks_of_deaf ?_ ?_ h.error <;> simp [setUdr0, timer0Set]
    · simp [setUdr0, timer0Set]

theorem quiet_mdbBusReset (data : List UInt8) (g : Gate) : Quiet g (g.mdbBusReset data) := by
  unfold mdbBusReset
  split
  · exact quiet_masterOut1 .badPacket g (by simp)
  · split
    · exact quiet_masterOut1 .mdbBusy g (by simp)
    · show Quiet g (masterOut1 .mdbStarted _)
      apply Quiet.trans _ (quiet_masterOut1 .mdbStarted _ (by simp))
      refine ⟨fun h => ?_, [], by simp [timer0Set], by simp⟩
      refine tracks_of_deaf ?_ ?_ h.error <;> simp [timer0Set]

theorem quiet_mdbTransactionSimple (ready : Bool) (data : List UInt8) (g : Gate) :
    Quiet g (g.mdbTransactionSimple ready data) := by
  unfold mdbTransactionSimple
  split
  · exact quiet_masterOut1 .mdbBusy g (by simp)
  · show Quiet g (masterOut1 .mdbStarted (mdbStartSend ready _))
    apply Quiet.trans _ (quiet_masterOut1 .mdbStarted _ (by simp))
    apply Quiet.trans _ (quiet_mdbStartSend ready _)
    exact .of_line rfl rfl

theorem quiet_dispatch (ready : Bool) (header length : UInt8) (data : List UInt8) (g : Gate) :
    Quiet g (g.dispatch ready header length data) := by
  unfold dispatch
  split
  · split
    · exact quiet_masterOut2 .badPacket 1 g (by simp)
    · exact .refl g
  · apply Quiet.trans _ (quiet_masterOut1 .notImplemented _ (by simp))
    exact .of_line rfl rfl
  · exact .of_line rfl rfl
  · exact quiet_masterOutN .debug _ g (by simp)
  · exact .of_line rfl rfl
  · exact quiet_mdbBusReset data g
  · exact quiet_mdbTransactionSimple ready data g
  · exact quiet_masterOut1 .notImplemented g (by simp)
  · exact quiet_masterOut1 .unknownCommand g (by simp)

theorem quiet_masterCommand (env : Surroundings) (src : Nat) (maxLength : UInt8) (g : Gate) :
    Quiet g (g.masterCommand env src maxLength).1 := by
  unfold masterCommand
  simp only
  split
  · exact quiet_masterOut2 .badPacket 0 g (by simp)
  · split
    · exact quiet_masterOut2 .badPacket 0 g (by simp)
    · split
      · exact quiet_masterOut2 .invalidCrc _ g (by simp)
      · exact quiet_dispatch ..

theorem quiet_packetLoop (env : Surroundings) (patience : Nat) (i : UInt8) (src : Nat) (g : Gate) :
    Quiet g (g.packetLoop env patience i src) := by
  induction patience generalizing i src g with
  | zero => exact .of_line rfl rfl
  | succ patience ih =>
    unfold packetLoop
    have one := quiet_masterCommand env src (UInt8.ofNat g.twiIn.length - i) g
    simp only
    split
    · exact one
    · split
      · exact one
      · split
        · exact one
        · exact one.trans (ih _ _ _)

theorem quiet_takeCommands (env : Surroundings) (g : Gate) : Quiet g (g.takeCommands env) := by
  have clear : ∀ g' : Gate, Quiet g g' →
      Quiet g (if g'.mode ≠ .running then g' else { g' with twiIn := g'.twiIn.clearFast }) := by
    intro g' taken
    split
    · exact taken
    · exact taken.trans (.of_line rfl rfl)
  unfold takeCommands
  split
  · exact .refl g
  · apply clear
    split
    · exact quiet_masterOut2 .twi _ g (by simp)
    · exact quiet_packetLoop ..

theorem quiet_twiStep (env : Surroundings) (g : Gate) : Quiet g (g.twiStep env) := by
  have taken := quiet_takeCommands env g
  unfold twiStep swapOut
  simp only
  split
  · exact taken
  · split
    · exact taken.trans (.of_line rfl rfl)
    · exact taken

theorem quiet_twiVect (st : TwStatus) (data : UInt8) (g : Gate) : Quiet g (g.twiVect st data) := by
  obtain ⟨_, _, _, _, _, _, same⟩ := g.twiVect_frame st data
  rw [same]
  exact .of_line rfl rfl

theorem quiet_timer0Ovf (g : Gate) : Quiet g g.timer0Ovf := by
  unfold timer0Ovf
  simp only
  split
  · exact .of_line rfl rfl
  next broken =>
    have state : g.mdbState = .busReset := broken
    refine .of_line ?_ rfl
    simp [line, timer0Stop]
  · exact .of_tracks (tracks_mdbFastError 5 _ (by simp)) rfl

theorem quiet_usartUdre (g : Gate) : Quiet g g.usartUdre := by
  unfold usartUdre
  simp only
  split
  · exact .of_tracks (tracks_mdbFastError _ _ (by simp)) rfl
  · split <;> exact .of_line rfl rfl

theorem quiet_usartTx (g : Gate) : Quiet g g.usartTx :=
  ⟨fun h => tracks_mdbStartReceive (g := { g with txcie0 := false, mdbState := .recv }) h.error,
    [], by simp [usartTx, timer0Stop], by simp⟩

theorem memsum_append (src : List UInt8) (data : UInt8) :
    memsum (src ++ [data]) = memsum src + data := by
  simp [memsum]

theorem usartRx_emitted (err data : UInt8) (bit9 : Bool) (g : Gate) :
    (g.usartRx err data bit9).history.emitted = g.history.emitted := by
  unfold usartRx
  simp only
  split
  · rfl
  · split
    · rfl
    · split
      · rfl
      · split <;> rfl

theorem tracks_usartRx (err data : UInt8) (bit9 : Bool) {g : Gate} (h : g.Tracks) :
    (g.usartRx err data bit9).Tracks := by
  unfold usartRx
  simp only
  split
  · exact tracks_mdbFastError err _ (by simp)
  · split
    · exact tracks_mdbFastError data _ (by simp)
    next state =>
      have listening : g.mdbState = .recv := not_not.mp state
      obtain ⟨heard, sum⟩ := h.recv listening
      split
      next last =>
        refine ⟨nofun, fun _ => Or.inr ⟨?_, sum⟩, h.error⟩
        simp [timer0Stop, heard, last]
      next more =>
        split
        · exact tracks_mdbFastError _ _ (by simp)
        next mdbIn stored =>
          have grown : mdbIn.stored = g.mdbIn.stored ++ [data] := Buffer.append_stored stored
          refine ⟨fun _ => ⟨?_, ?_⟩, fun ended => ?_, h.error⟩
          · simp [timer0Set, timer0Stop, heard, grown, more]
          · show g.mdbInChecksum + data = memsum mdbIn.stored
            rw [grown, memsum_append, sum]
          · have ended : g.mdbState = .recvEnd := ended
            rw [listening] at ended
            cases ended

theorem quiet_usartRx (err data : UInt8) (bit9 : Bool) (g : Gate) :
    Quiet g (g.usartRx err data bit9) :=
  ⟨fun h => tracks_usartRx err data bit9 h, [], by simp [usartRx_emitted], by simp⟩

theorem quiet_boot (mcusrSaved : UInt8) (g : Gate) : Quiet g (boot mcusrSaved g.history) := by
  unfold boot
  apply Quiet.trans _ (quiet_masterOutN .debug _ _ (by simp))
  refine .of_tracks (tracks_of_deaf ?_ ?_ ?_) rfl <;> simp

/-- What `mdb_step` does when it does not report success. -/
theorem mdbStep_cases {g : Gate} (h : g.Tracks) :
    Quiet g g.mdbStep ∨
      (g.mdbState = .recvEnd ∧ g.mdbFastErrorCode = none ∧
        ((g.mdbIn.length = 0 ∧ g.mdbInLastByte = mdbAck ∧ g.mdbStep = g.mdbFinish1 .mdbSuccess) ∨
          (g.mdbIn.length ≠ 0 ∧ g.mdbInLastByte = g.mdbInChecksum ∧
            g.mdbStep = (g.setUdr0 mdbAck).mdbFinishIn .mdbSuccess))) := by
  unfold mdbStep
  split
  next code failed =>
    have other : code ≠ .mdbSuccess := by
      rintro rfl
      exact h.error failed
    exact Or.inl ((quiet_masterOutN code _ g other).trans (quiet_mdbReset _))
  next clean =>
    split
    next state =>
      split
      next empty =>
        split
        next ack => exact Or.inr ⟨state, clean, Or.inl ⟨empty, ack, rfl⟩⟩
        next =>
          left
          split
          · exact (quiet_masterOut2 .mdbNak _ g (by simp)).trans (quiet_mdbReset _)
          · exact (quiet_masterOut2 .mdbInvalidEnd _ g (by simp)).trans (quiet_mdbReset _)
      next filled =>
        split
        next =>
          left
          split
          · apply Quiet.trans _ (quiet_mdbReset _)
            apply Quiet.trans _ (quiet_masterOut2 .mdbInvalidChk _ _ (by simp))
            exact .of_line rfl rfl
          · exact .of_tracks (tracks_mdbStartReceive h.error) rfl
        next same => exact Or.inr ⟨state, clean, Or.inr ⟨filled, not_not.mp same, rfl⟩⟩
    next => exact Or.inl (.refl g)

end Gate

/-- The receipt that a success with data `d` stands for: the bytes of `d` without the ninth
bit, then one byte with it, the checksum of `d`, or ACK where there is no data. -/
def Received (heard : List (UInt8 × Bool)) (d : List UInt8) : Prop :=
  heard = d.map (·, false) ++ [(if d = [] then mdbAck else Gate.memsum d, true)]

instance (heard : List (UInt8 × Bool)) (d : List UInt8) : Decidable (Received heard d) :=
  inferInstanceAs (Decidable (_ = _))

/-- Every success that the step emits was received since the firmware last began listening. -/
def SuccessReceived (g : Gate) (_ : Event) (g' : Gate) : Prop :=
  ∀ p ∈ g'.history.emitted.drop g.history.emitted.length,
    p.1 = Response.mdbSuccess → Received g.history.heard p.2

instance (g : Gate) (e : Event) (g' : Gate) : Decidable (SuccessReceived g e g') :=
  inferInstanceAs (Decidable (∀ p ∈ _, _))

/-- The step is an `mdb_step` in `Recv_End` with no error pending that finds nothing received
since the RET byte was sent, and `master_out` has room for its response. -/
def RetUnanswered (g : Gate) : Event → Prop
  | .mdbStep => g.mdbState = .recvEnd ∧ g.mdbFastErrorCode = none ∧ g.history.heard = [] ∧
      g.masterOut.length + 3 ≤ responseMaxLength
  | _ => False

namespace Gate

theorem Quiet.successReceived {g g' : Gate} (h : Quiet g g') (e : Event) : SuccessReceived g e g' := by
  obtain ⟨more, grown, silent⟩ := h.emits
  rintro ⟨header, data⟩ hp success
  have other : (.mdbSuccess, data) ∉ more := silent data
  rw [grown, List.drop_left, show header = .mdbSuccess from success] at hp
  exact absurd hp other

theorem quiet_step {g g' : Gate} {e : Event} (h : step g e = some g') (other : e ≠ .mdbStep) :
    Quiet g g' := by
  cases e with
  | mdbStep => exact absurd rfl other
  | twiStep env =>
    rw [(enabled_step h).2]
    exact quiet_twiStep env g
  | usartRx err data bit9 =>
    rw [(enabled_step h).2]
    exact quiet_usartRx err data bit9 g
  | usartUdre =>
    rw [(enabled_step h).2]
    exact quiet_usartUdre g
  | usartTx =>
    rw [(enabled_step h).2]
    exact quiet_usartTx g
  | timer0Ovf =>
    rw [(enabled_step h).2]
    exact quiet_timer0Ovf g
  | twi st data =>
    rw [(enabled_step h).2]
    exact quiet_twiVect st data g
  | watchdog =>
    obtain ⟨mcusrSaved, rfl⟩ := boots_of_watchdog h
    exact quiet_boot mcusrSaved g

theorem tracks_mdbStep {g : Gate} (h : g.Tracks) : g.mdbStep.Tracks := by
  rcases mdbStep_cases h with quiet | ⟨_, _, ⟨_, _, finish⟩ | ⟨_, _, finish⟩⟩
  · exact quiet.tracks h
  · rw [finish]
    exact tracks_mdbReset _
  · rw [finish]
    exact tracks_mdbReset _

theorem tracks_step {g g' : Gate} {e : Event} (h : step g e = some g') (ht : g.Tracks) :
    g'.Tracks := by
  by_cases main : e = .mdbStep
  · subst main
    rw [(enabled_step h).2]
    exact tracks_mdbStep ht
  · exact (quiet_step h main).tracks ht

theorem successReceived_of_emitted {g g' : Gate} {d : List UInt8} (e : Event)
    (h : g'.history.emitted = g.history.emitted ++ [(.mdbSuccess, d)]) :
    SuccessReceived g e g' ↔ Received g.history.heard d := by
  simp [SuccessReceived, h]

theorem successReceived_of_silent {g g' : Gate} (e : Event)
    (h : g'.history.emitted = g.history.emitted) : SuccessReceived g e g' := by
  simp [SuccessReceived, h]

theorem mdbStep_successReceived {g : Gate} (ht : g.Tracks) (answered : ¬ RetUnanswered g .mdbStep) :
    SuccessReceived g .mdbStep g.mdbStep := by
  rcases mdbStep_cases ht with quiet | ⟨state, clean, ⟨empty, ack, finish⟩ | ⟨filled, same, finish⟩⟩
  · exact quiet.successReceived .mdbStep
  · have emitted : (g.mdbFinish1 .mdbSuccess).history.emitted = _ := masterOut1_emitted .mdbSuccess g
    rw [finish]
    split at emitted
    next room =>
      rw [successReceived_of_emitted .mdbStep emitted]
      rcases ht.recvEnd state with ⟨silence, _, _⟩ | ⟨heard, _⟩
      · exact absurd ⟨state, clean, silence, room⟩ answered
      · rw [Buffer.stored_of_empty empty, ack] at heard
        exact heard
    next => exact successReceived_of_silent .mdbStep emitted
  · rw [finish]
    have emitted : ((g.setUdr0 mdbAck).mdbFinishIn .mdbSuccess).history.emitted =
          g.history.emitted ++ [(.mdbSuccess, g.mdbIn.stored)] ∨
        ((g.setUdr0 mdbAck).mdbFinishIn .mdbSuccess).history.emitted = g.history.emitted :=
      masterOutN_emitted ..
    rcases emitted with emitted | emitted
    · rw [successReceived_of_emitted .mdbStep emitted]
      rcases ht.recvEnd state with ⟨_, empty, _⟩ | ⟨heard, sum⟩
      · exact absurd empty filled
      · rw [Received, if_neg (Buffer.stored_ne_nil filled), ← sum, ← same]
        exact heard
    · exact successReceived_of_silent .mdbStep emitted

/-- After RET the receiver still stands in `Recv_End`, cleared: the next `mdb_step` takes
that for an ACK. -/
theorem mdbStep_retUnanswered {g : Gate} (ht : g.Tracks) (h : RetUnanswered g .mdbStep) :
    ¬ SuccessReceived g .mdbStep g.mdbStep := by
  obtain ⟨state, clean, silence, room⟩ := h
  have cleared : g.mdbIn.length = 0 ∧ g.mdbInLastByte = mdbAck := by
    rcases ht.recvEnd state with ⟨_, empty, ack⟩ | ⟨heard, _⟩
    · exact ⟨empty, ack⟩
    · simp [silence] at heard
  have finish : g.mdbStep = g.mdbFinish1 .mdbSuccess := by
    simp [mdbStep, clean, state, cleared]
  have emitted : (g.mdbFinish1 .mdbSuccess).history.emitted = _ := masterOut1_emitted .mdbSuccess g
  rw [if_pos room] at emitted
  rw [finish, successReceived_of_emitted .mdbStep emitted]
  simp [Received, silence]

theorem successReceived_iff {g g' : Gate} {e : Event} (h : step g e = some g') (ht : g.Tracks) :
    SuccessReceived g e g' ↔ ¬ RetUnanswered g e := by
  by_cases main : e = .mdbStep
  · subst main
    rw [(enabled_step h).2]
    exact ⟨fun sound bad => mdbStep_retUnanswered ht bad sound, mdbStep_successReceived ht⟩
  · apply iff_of_true
    · exact (quiet_step h main).successReceived e
    · intro bad
      cases e with
      | mdbStep => exact main rfl
      | _ => exact bad

theorem tracks_boot (mcusrSaved : UInt8) (history : History) : (boot mcusrSaved history).Tracks := by
  apply Tracks.congr _ (masterOutN_line ..)
  refine tracks_of_deaf ?_ ?_ ?_ <;> simp

end Gate

/-- Successes are sound along a run exactly when no `mdb_step` of it finds a RET unanswered. -/
theorem success_received_along_iff (mcusrSaved : UInt8) (es : List Event) :
    Runs.Along step SuccessReceived (.boot mcusrSaved ⟨[], [], []⟩) es ↔
      Runs.Along step (fun g e _ => ¬ RetUnanswered g e) (.boot mcusrSaved ⟨[], [], []⟩) es := by
  apply Runs.along_iff_along (I := Gate.Tracks)
  · intro g e g' h ht
    exact Gate.successReceived_iff h ht
  · intro g e g' h ht _
    exact Gate.tracks_step h ht
  · exact Gate.tracks_boot mcusrSaved _

/-- POLL is answered by one data byte with a wrong checksum; RET is sent, and two turns of
the main loop come before the peripheral answers it. -/
def unansweredRet : List Event :=
  [.twi .srSlaAck 0, .twi .srDataAck 4, .twi .srDataAck 0x08, .twi .srDataAck 0x0b,
    .twi .srDataAck 107, .twi .srStop 0, .twiStep ⟨fun _ => 0, fun _ => true, 100⟩, .usartUdre, .usartTx,
    .usartRx 0 0x41 false, .usartRx 0 0x42 true, .mdbStep, .mdbStep]

theorem success_without_reply :
    ¬ Runs.Along step SuccessReceived (.boot 0x01 ⟨[], [], []⟩) unansweredRet := by
  decide +kernel

end Vender.Firmware
