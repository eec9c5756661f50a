import Vender.Firmware.Slave

namespace Vender.Firmware

/-- The steps that empty `twi_in` whatever it holds: an address match and a reset. -/
def Event.drops : Event → Bool
  | .twi .srSlaAck _ | .twi .srGcallAck _ | .twi .srArbLostSlaAck _ | .twi .srArbLostGcallAck _ => true
  | .watchdog => true
  | _ => false

/-- The firmware and the frames the master wrote to it: the bytes of the write in progress,
the writes that are complete, and those that `twi_step` was given to process. An empty write
carries no frame. -/
structure Mailbox where
  gate : Gate
  writing : Option (List UInt8)
  received : List (List UInt8)
  executed : List (List UInt8)

/-- What becomes of the frames in `twi_in` and of the firmware: a single byte is answered, a longer frame
goes through the packet loop, and `twi_in` is emptied behind them, unless a command does not return. -/
inductive Gate.Processes (env : Surroundings) (g : Gate) : List (List UInt8) → Gate → Prop
  | nothing (empty : g.twiIn.stored = []) : Processes env g [] g
  | byte {b : UInt8} {g' : Gate} (whole : g.twiIn.stored = [b]) (answered : g' = g.masterOut2 .twi b) :
    Processes env g [[b]] (if g'.mode ≠ .running then g' else { g' with twiIn := g'.twiIn.clearFast })
  | packets {frame : List UInt8} {g' : Gate} (whole : g.twiIn.stored = frame) (more : 2 ≤ frame.length)
    (looped : g' = g.packetLoop env env.patience 0 0) :
    Processes env g [frame] (if g'.mode ≠ .running then g' else { g' with twiIn := g'.twiIn.clearFast })

namespace Mailbox

/-- The driver's receive statuses in the order of a write, of at most `COMMAND_MAX_LENGTH`
bytes; every other step comes as it may. -/
def step (s : Mailbox) : Event → Option Mailbox
  | .twi st data =>
    (Firmware.step s.gate (.twi st data)).bind fun g =>
      match st, s.writing with
      | .srSlaAck, none | .srGcallAck, none | .srArbLostSlaAck, none | .srArbLostGcallAck, none =>
        some { s with gate := g, writing := some [] }
      | .srDataAck, some bytes | .srGcallDataAck, some bytes =>
        if bytes.length < commandMaxLength then some { s with gate := g, writing := some (bytes ++ [data]) }
        else none
      | .srStop, some bytes =>
        some { s with
          gate := g, writing := none
          received := if bytes = [] then s.received else s.received ++ [bytes] }
      | _, _ => none
  | .twiStep env =>
    (Firmware.step s.gate (.twiStep env)).map fun g =>
      { s with
        gate := g
        executed := if s.gate.twiIn.length = 0 then s.executed else s.executed ++ [s.gate.twiIn.stored] }
  | .watchdog => (Firmware.step s.gate .watchdog).map fun g => { s with gate := g, writing := none }
  | e => (Firmware.step s.gate e).map fun g => { s with gate := g }

/-- The writes were executed once each and in order, but for the last one, which may still
stand in `twi_in`, whole. -/
def Once (s : Mailbox) : Prop :=
  s.received = s.executed ∨
    s.writing = none ∧ s.gate.twiIn.stored ≠ [] ∧ s.received = s.executed ++ [s.gate.twiIn.stored]

/-- The turn of the main loop hands to the processing what it is recorded to have executed. -/
def Processed (s : Mailbox) (e : Event) (t : Mailbox) : Prop :=
  match e with
  | .twiStep env =>
    ∃ frames, s.gate.Processes env frames (s.gate.takeCommands env) ∧ t.executed = s.executed ++ frames
  | _ => t.executed = s.executed

/-- The next write, or a reset, comes while a complete write waits for `twi_step`. -/
def Hurried (s : Mailbox) (e : Event) : Prop := e.drops = true ∧ s.received ≠ s.executed

end Mailbox

namespace Gate

theorem swapOut_bus (g : Gate) : g.swapOut.bus = g.bus := by
  unfold swapOut
  split <;> rfl

/-- `twi_step` empties `twi_in`, unless a command in it does not return. -/
theorem twiStep_twiIn {env : Surroundings} {g : Gate} (running : (g.twiStep env).mode = .running) :
    (g.twiStep env).twiIn.length = 0 := by
  have taken : (g.takeCommands env).mode = .running → (g.takeCommands env).twiIn.length = 0 := by
    unfold takeCommands
    split
    next empty => exact fun _ => empty
    next =>
      simp only
      generalize (if g.twiIn.length = 1 then g.masterOut2 .twi (g.twiIn.read 0 (Nat.zero_lt_succ _))
        else g.packetLoop env env.patience 0 0) = g'
      split
      next left => exact fun running => absurd running left
      next => exact fun _ => rfl
  unfold twiStep at running ⊢
  simp only at running ⊢
  split at running
  next left => exact absurd running left
  next returned =>
    rw [if_neg returned]
    have same := (g.takeCommands env).swapOut_bus
    simp only [bus, Prod.mk.injEq] at same
    obtain ⟨_, _, _, _, twiIn⟩ := same
    rw [twiIn]
    exact taken (not_not.mp returned)

theorem takeCommands_processes (env : Surroundings) (g : Gate) :
    g.Processes env (if g.twiIn.length = 0 then [] else [g.twiIn.stored]) (g.takeCommands env) := by
  have length := g.twiIn.stored_length
  unfold takeCommands
  by_cases empty : g.twiIn.length = 0
  · rw [if_pos empty, if_pos empty]
    exact .nothing (Buffer.stored_of_empty empty)
  · rw [if_neg empty, if_neg empty]
    by_cases one : g.twiIn.length = 1
    · have single : g.twiIn.stored = [g.twiIn.read 0 (Nat.zero_lt_succ _)] := by
        obtain ⟨b, stored⟩ := List.length_eq_one_iff.mp (length.trans one)
        have first : g.twiIn.stored[0]? = g.twiIn.data[0]? := List.getElem?_take_of_lt (by omega)
        rw [stored] at first
        rw [stored, Buffer.read_eq_getD, List.getD_eq_getElem?_getD, ← first]
        rfl
      rw [if_pos one]
      exact single ▸ .byte single rfl
    · rw [if_neg one]
      exact .packets rfl (by omega) rfl

theorem boot_twiIn (mcusrSaved : UInt8) (history : History) : (boot mcusrSaved history).twiIn.length = 0 := by
  have short : responseBeeBee.length ≤ 252 := by simp [responseBeeBee]
  have twiIn : (boot mcusrSaved history).twiIn = .init _ := (masterOutN_puts .debug _ short).twiIn
  rw [twiIn]
  rfl

end Gate

namespace Mailbox

/-- What holds of the frames between any two steps. -/
structure Kept (s : Mailbox) : Prop where
  once : s.Once
  writing : ∀ bytes, s.writing = some bytes →
    s.gate.twiIn.stored = bytes ∧ s.gate.twiIdle = false ∧ s.received = s.executed
  empty : s.writing = none → s.gate.mode = .running → s.received = s.executed → s.gate.twiIn.length = 0

variable {s t : Mailbox}

theorem kept_of_bus {g : Gate} (kept : s.Kept) (same : g.bus = s.gate.bus) :
    ({ s with gate := g } : Mailbox).Kept := by
  simp only [Gate.bus, Prod.mk.injEq] at same
  obtain ⟨mode, idle, _, _, twiIn⟩ := same
  obtain ⟨once, writing, empty⟩ := kept
  constructor
  · unfold Once at once ⊢
    simp only
    rw [twiIn]
    exact once
  · intro bytes inProgress
    simp only
    rw [twiIn, idle]
    exact writing bytes inProgress
  · intro between running done
    simp only at running ⊢
    rw [mode] at running
    rw [twiIn]
    exact empty between running done

theorem kept_twiStep {env : Surroundings} (kept : s.Kept) (running : s.gate.mode = .running)
    (idle : s.gate.twiIdle = true) :
    ({ s with
      gate := s.gate.twiStep env
      executed := if s.gate.twiIn.length = 0 then s.executed else s.executed ++ [s.gate.twiIn.stored] } :
        Mailbox).Kept := by
  have between : s.writing = none := by
    cases inProgress : s.writing with
    | none => rfl
    | some bytes =>
      have busy := (kept.writing bytes inProgress).2.1
      rw [idle] at busy
      cases busy
  have done : s.received = if s.gate.twiIn.length = 0 then s.executed else s.executed ++ [s.gate.twiIn.stored] := by
    rcases kept.once with done | ⟨_, some_byte, waits⟩
    · rw [if_pos (kept.empty between running done)]
      exact done
    · rw [if_neg fun empty => some_byte (Buffer.stored_of_empty empty)]
      exact waits
  refine ⟨Or.inl done, ?_, fun _ running _ => Gate.twiStep_twiIn running⟩
  intro bytes inProgress
  change s.writing = some bytes at inProgress
  rw [between] at inProgress
  cases inProgress

/-- What each step does to the frames and to `twi_in`. -/
inductive Moves (s : Mailbox) : Event → Mailbox → Prop
  | mdb {e : Event} {g : Gate} (h : e.drops = false) (same : g.bus = s.gate.bus) :
      Moves s e { s with gate := g }
  | twiStep {env : Surroundings} (running : s.gate.mode = .running) (idle : s.gate.twiIdle = true) :
      Moves s (.twiStep env) { s with
        gate := s.gate.twiStep env
        executed := if s.gate.twiIn.length = 0 then s.executed else s.executed ++ [s.gate.twiIn.stored] }
  | starts {e : Event} {g : Gate} (h : e.drops = true) (between : s.writing = none)
      (empty : g.twiIn.length = 0) (busy : g.twiIdle = false) :
      Moves s e { s with gate := g, writing := some [] }
  | byte {e : Event} {data : UInt8} {bytes : List UInt8} {g : Gate} (inProgress : s.writing = some bytes)
      (fits : bytes.length < commandMaxLength) (stored : g.twiIn = (s.gate.twiIn.append data).getD s.gate.twiIn)
      (busy : g.twiIdle = false) : Moves s e { s with gate := g, writing := some (bytes ++ [data]) }
  | stops {e : Event} {bytes : List UInt8} {g : Gate} (inProgress : s.writing = some bytes)
      (same : g.twiIn = s.gate.twiIn) :
      Moves s e { s with
        gate := g, writing := none
        received := if bytes = [] then s.received else s.received ++ [bytes] }
  | reset {g : Gate} (empty : g.twiIn.length = 0) : Moves s .watchdog { s with gate := g, writing := none }

theorem step_moves {e : Event} (h : s.step e = some t) : s.Moves e t := by
  cases e with
  | twiStep env =>
    obtain ⟨g, taken, rfl⟩ := Option.map_eq_some_iff.mp h
    obtain ⟨⟨running, idle⟩, rfl⟩ := enabled_step taken
    exact .twiStep running idle
  | mdbStep | usartRx | usartUdre | usartTx | timer0Ovf =>
    obtain ⟨g, taken, rfl⟩ := Option.map_eq_some_iff.mp h
    exact .mdb rfl (step_bus taken rfl)
  | watchdog =>
    obtain ⟨g, taken, rfl⟩ := Option.map_eq_some_iff.mp h
    obtain ⟨mcusrSaved, rfl⟩ := boots_of_watchdog taken
    exact .reset (Gate.boot_twiIn ..)
  | twi st data =>
    obtain ⟨g, taken, delivered⟩ := Option.bind_eq_some_iff.mp h
    obtain ⟨_, rfl⟩ := enabled_step taken
    clear h taken
    split at delivered
    iterate 4
      next between =>
        cases delivered
        exact .starts rfl between rfl rfl
    iterate 2
      next bytes inProgress =>
        obtain ⟨fits, delivered⟩ := Option.ite_none_right_eq_some.mp delivered
        cases delivered
        exact .byte inProgress fits rfl rfl
    next bytes inProgress =>
      cases delivered
      exact .stops inProgress rfl
    next => cases delivered

theorem Moves.kept {e : Event} (h : s.Moves e t) (kept : s.Kept) (calm : ¬ s.Hurried e) : t.Kept := by
  cases h with
  | mdb _ same => exact kept_of_bus kept same
  | twiStep running idle => exact kept_twiStep kept running idle
  | starts drops _ empty busy =>
    have done : s.received = s.executed := by
      by_contra waits
      exact calm ⟨drops, waits⟩
    refine ⟨Or.inl done, ?_, fun between => (by cases between)⟩
    intro bytes inProgress
    cases Option.some.inj inProgress
    exact ⟨Buffer.stored_of_empty empty, busy, done⟩
  | @byte _ data bytes g inProgress fits stored busy =>
    obtain ⟨same, _, done⟩ := kept.writing bytes inProgress
    have room : s.gate.twiIn.length + 1 ≤ commandMaxLength := by
      rw [← Buffer.stored_length, same]
      exact fits
    obtain ⟨twiIn, appended, grown⟩ := Buffer.append_of_room data room
    refine ⟨Or.inl done, ?_, fun between => (by cases between)⟩
    intro bytes' inProgress'
    cases Option.some.inj inProgress'
    refine ⟨?_, busy, done⟩
    change g.twiIn.stored = _
    rw [stored, appended, Option.getD_some, grown, same]
  | @stops _ bytes g inProgress twiIn =>
    obtain ⟨same, _, done⟩ := kept.writing bytes inProgress
    by_cases empty : bytes = []
    · refine ⟨Or.inl ?_, fun _ inProgress => (by cases inProgress), fun _ _ _ => ?_⟩
      · simp only [empty, ↓reduceIte]
        exact done
      · change g.twiIn.length = 0
        rw [twiIn, ← Buffer.stored_length, same, empty]
        rfl
    · refine ⟨Or.inr ⟨rfl, ?_, ?_⟩, fun _ inProgress => (by cases inProgress), fun _ _ all => ?_⟩
      · change g.twiIn.stored ≠ []
        rw [twiIn, same]
        exact empty
      · change _ = s.executed ++ [g.twiIn.stored]
        rw [if_neg empty, done, twiIn, same]
      · simp only [empty, ↓reduceIte, done] at all
        simp at all
  | reset empty =>
    have done : s.received = s.executed := by
      by_contra waits
      exact calm ⟨rfl, waits⟩
    exact ⟨Or.inl done, fun _ inProgress => (by cases inProgress), fun _ _ _ => empty⟩

/-- A frame that waited is lost. -/
theorem Moves.lost {e : Event} (h : s.Moves e t) (kept : s.Kept) (hurried : s.Hurried e) : ¬ t.Once := by
  obtain ⟨drops, waits⟩ := hurried
  cases h with
  | mdb calm =>
    rw [calm] at drops
    cases drops
  | twiStep => cases drops
  | byte inProgress | stops inProgress => exact absurd (kept.writing _ inProgress).2.2 waits
  | starts =>
    rintro (all | ⟨between, _⟩)
    · exact waits all
    · cases between
  | reset empty =>
    rintro (all | ⟨_, some_byte, _⟩)
    · exact waits all
    · exact some_byte (Buffer.stored_of_empty empty)

theorem once_iff {e : Event} (h : s.Moves e t) (kept : s.Kept) : t.Once ↔ ¬ s.Hurried e :=
  ⟨fun once hurried => h.lost kept hurried once, fun calm => (h.kept kept calm).once⟩

theorem processed_of_step {e : Event} (h : s.step e = some t) : s.Processed e t := by
  cases e with
  | twiStep env =>
    obtain ⟨g, taken, rfl⟩ := Option.map_eq_some_iff.mp h
    refine ⟨_, Gate.takeCommands_processes env s.gate, ?_⟩
    show (if s.gate.twiIn.length = 0 then s.executed else s.executed ++ [s.gate.twiIn.stored]) = _
    split
    · exact (List.append_nil _).symm
    · rfl
  | mdbStep | usartRx | usartUdre | usartTx | timer0Ovf | watchdog =>
    obtain ⟨g, _, rfl⟩ := Option.map_eq_some_iff.mp h
    rfl
  | twi st data =>
    cases step_moves h with
    | mdb | starts | byte | stops => rfl

def start (mcusrSaved : UInt8) : Mailbox := ⟨.boot mcusrSaved ⟨[], [], []⟩, none, [], []⟩

theorem kept_start (mcusrSaved : UInt8) : (start mcusrSaved).Kept :=
  ⟨Or.inl rfl, fun _ inProgress => (by cases inProgress), fun _ _ _ => Gate.boot_twiIn ..⟩

/-- Along a run every frame is executed exactly once and in order exactly when none waits for
`twi_step` at the next address match or at a reset. -/
theorem once_along_iff (mcusrSaved : UInt8) (es : List Event) :
    Runs.Along step (fun s e t => t.Once ∧ s.Processed e t) (start mcusrSaved) es ↔
      Runs.Along step (fun s e _ => ¬ s.Hurried e) (start mcusrSaved) es := by
  apply Runs.along_iff_along (I := Kept)
  · intro s e t h kept
    rw [← once_iff (step_moves h) kept]
    exact and_iff_left (processed_of_step h)
  · intro s e t h kept calm
    exact (step_moves h).kept kept calm
  · exact kept_start mcusrSaved

instance (s : Mailbox) : Decidable s.Once := inferInstanceAs (Decidable (_ ∨ _))

/-- Two writes of one byte with no turn of the main loop between them. -/
theorem secondWrite_drops_first :
    ¬ Runs.Along step (fun _ _ t => t.Once) (start 0x01)
      [.twi .srSlaAck 0, .twi .srDataAck 1, .twi .srStop 0, .twi .srSlaAck 0] := by
  decide +kernel

end Mailbox

end Vender.Firmware
