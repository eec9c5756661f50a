import Vender.GpioAnswers
import Vender.Iodin

namespace Vender

namespace GpioMdb

open Effects

/-- Calls of pigpio, reads and waves end in errors, but in no panic. -/
theorem never_admits : AdmitsReads (Never .panic) where
  toInherited := inherited_never _
  err _ := never_throw (by simp)
  starved := never_throw (by decide)
  answers _ := never_modify _ _
  sent _ := never_modify _ _
  read _ := never_modify _ _
  push _ := never_modify _ _

theorem never_mdbWaveCreate (s : List UInt8) : Never .panic (mdbWaveCreate s) :=
  never_admits.mdbWaveCreate s (never_modify _ _)

theorem never_busReset (duration : Duration) : Never .panic (busReset duration) :=
  never_bind (never_admits.micros _) fun _ => never_bind never_admits.checkCall fun _ =>
    never_bind never_admits.checkCall fun _ => never_pure _ _

/-- Only the variable `iodin_mdb_wait_step` can stop the driver from being made by a panic. -/
theorem new_panics (wait_step : Option UInt32) (buf : Vector UInt8 bufSize) (rx_pin tx_pin : UInt16) (g : Gpio) :
    Fails .panic (new wait_step buf rx_pin tx_pin) g ↔ wait_step = none := by
  cases wait_step with
  | none => exact iff_of_true (fails_throw _ g) rfl
  | some wait_step =>
    refine iff_of_false (never_bind never_admits.checkCall (fun _ => never_bind never_admits.checkCall fun _ =>
      never_bind never_admits.checkCall fun _ => never_bind never_admits.checkCall fun _ => ?_) g) (by simp)
    exact never_bind (never_mdbWaveCreate _) fun _ => never_bind (never_mdbWaveCreate _) fun _ => never_pure _ _

theorem addU32_panics {a b : UInt32} {g : Gpio} : Fails .panic (addU32 a b) g ↔ 2 ^ 32 ≤ a.toNat + b.toNat := by
  unfold addU32
  split
  next fits => exact iff_of_false (never_pure _ _ g) (by omega)
  next wraps => exact iff_of_true (fails_throw _ g) (by omega)

theorem addU32_bind_panics {α : Type} {a b : UInt32} {k : UInt32 → GpioM α}
    (rest : Never .panic (k (a + b))) {g : Gpio} :
    Fails .panic (addU32 a b >>= k) g ↔ 2 ^ 32 ≤ a.toNat + b.toNat := by
  by_cases fits : a.toNat + b.toNat < 2 ^ 32
  · rw [fails_of_ok (addU32_fits fits g)]
    exact iff_of_false (rest g) (by omega)
  · exact iff_of_true (fails_bind.mpr (Or.inl (addU32_panics.mpr (by omega)))) (by omega)

theorem answerBlock_panics {timeout_small_us : UInt32} {end_byte : UInt8} {g : Gpio} :
    Fails .panic (answerBlock timeout_small_us end_byte) g ↔
      g.response ≠ [] ∧ ∃ t g', tickSince 0 g = .ok t g' ∧ 2 ^ 32 ≤ t.toNat + timeout_small_us.toNat := by
  by_cases data : g.response = []
  · refine iff_of_false ?_ fun h => h.1 data
    rw [answerBlock, fails_of_ok (get_ok g)]
    simp only [data, ↓reduceIte]
    split
    · exact never_pure _ _ g
    · split
      · exact never_throw (by simp) g
      · exact never_throw (by simp) g
  · rw [Fails, answerBlock_data data rfl, ← Fails, (never_admits.tickSince 0).fails_bind, and_iff_right data]
    refine exists_congr fun t => exists_congr fun g' => and_congr_right fun _ => addU32_bind_panics ?_
    split
    · exact never_bind (never_admits.mdbWaveSendWait _ _ _) fun _ => never_throw (by simp)
    · exact never_admits.mdbWaveSendWait _ _ _

/-- What `tx` does up to the tick at which its first deadlines begin. -/
def untilStart (request : List UInt8) : GpioM UInt32 := do
  modify fun g => { g with buf := fillRequest g.buf request }
  let _ ← mdbWaveCreate ((← get).buf.toList.take (request.length * wordSize + wordSize))
  tickSince 0

/-- What follows up to the tick at which the deadline for the whole reply begins. -/
def dataFrom (timeout_us : UInt32) (request : List UInt8) (io_start_us : UInt32) : GpioM (Nat × UInt32) := do
  mdbWaveSendWait .request (io_start_us + timeoutCharUs * UInt32.ofNat request.length) .request
  let received_count ← waitReceive (io_start_us + timeout_us) ((← get).answers.length + 1)
  pure (received_count, ← tickSince 0)

def untilData (timeout_us : UInt32) (request : List UInt8) : GpioM (Nat × UInt32) := do
  dataFrom timeout_us request (← untilStart request)

/-- What follows up to the tick at which the deadline for the answer to the reply begins. -/
def endFrom (received : Nat × UInt32) : GpioM UInt32 := do
  let _ ← receiveLoop (received.2 + timeoutReceiveUs) ((← get).answers.length + 1) received.1
  tickSince 0

def untilEnd (timeout_us : UInt32) (request : List UInt8) : GpioM UInt32 := do
  endFrom (← untilData timeout_us request)

/-- The ticks at which the deadlines begin leave room for them. -/
structure DeadlinesBelow (timeout_us : UInt32) (request : List UInt8) (g : Gpio) : Prop where
  start : ∀ t g', untilStart request g = .ok t g' → t.toNat + timeout_us.toNat < 2 ^ 32
  data : ∀ n t g', untilData timeout_us request g = .ok (n, t) g' → t.toNat + timeoutReceiveUs.toNat < 2 ^ 32
  answer : ∀ t g', untilEnd timeout_us request g = .ok t g' → g'.response ≠ [] →
    t.toNat + (min timeout_us timeoutSmallUs).toNat < 2 ^ 32

variable {timeout_us : UInt32} {request : List UInt8} {g : Gpio}

theorem never_untilStart (request : List UInt8) : Never .panic (untilStart request) :=
  never_bind (never_modify _ _) fun _ => never_bind (never_get _) fun _ =>
    never_bind (never_mdbWaveCreate _) fun _ => never_admits.tickSince 0

theorem tx_start {capacity : Nat} {timeout : Duration} (valid : request ≠ [] ∧ request.length < blockMaxLength ∧
    blockMaxLength ≤ capacity) (duration : durationAsMicros32 timeout = .ok timeout_us) :
    tx capacity request timeout = (do
      let io_start_us ← untilStart request
      let receive_wait_deadline_us ← addU32 io_start_us timeout_us
      let send_deadline_us ← addU32 io_start_us (timeoutCharUs * UInt32.ofNat request.length)
      mdbWaveSendWait .request send_deadline_us .request
      receiveBlock receive_wait_deadline_us (min timeout_us timeoutSmallUs) io_start_us) := by
  have same : micros timeout = pure timeout_us := by rw [micros, duration]
  rw [tx, if_pos valid]
  simp only [txWave_eq, same, untilStart, bind_assoc, pure_bind]

/-- The deadline for sending at most 39 bytes is not behind the one for the first data. -/
theorem send_le_wait (short : request.length < blockMaxLength) :
    (timeoutCharUs * UInt32.ofNat request.length).toNat ≤ 300000 := by
  rw [UInt32.toNat_mul, UInt32.toNat_ofNat']
  simp only [blockMaxLength] at short
  have size : request.length % 2 ^ 32 = request.length := Nat.mod_eq_of_lt (by omega)
  have char : timeoutCharUs.toNat = 3145 := by decide
  rw [size, char]
  exact (Nat.mod_le _ _).trans (by omega)

theorem endFrom_panics {timeout_small_us io_start_us : UInt32} (received : Nat × UInt32) :
    Fails .panic (do
      let end_byte ← receiveLoop (received.2 + timeoutReceiveUs) ((← get).answers.length + 1) received.1
      answerBlock timeout_small_us end_byte
      let _ ← tickSince io_start_us
      pure () : GpioM Unit) g ↔
    ∃ t g', endFrom received g = .ok t g' ∧ g'.response ≠ [] ∧ 2 ^ 32 ≤ t.toNat + timeout_small_us.toNat := by
  have log : Never .panic (do let _ ← tickSince io_start_us; pure () : GpioM Unit) :=
    never_bind (never_admits.tickSince _) fun _ => never_pure _ _
  have same {t : UInt32} {g₁ g₂ : Gpio} (now : tickSince 0 g₁ = .ok t g₂) : g₂.response = g₁.response :=
    (heard_eq_iff.mp ((heard_admits.tickSince 0).of_ok now)).2
  rw [fails_of_ok (get_ok g), (never_admits.receiveLoop _ _ _).fails_bind]
  constructor
  · rintro ⟨end_byte, g₁, read, failed⟩
    rcases fails_bind.mp failed with failed | ⟨_, g₂, _, failed⟩
    · obtain ⟨data, t, g₂, now, wraps⟩ := answerBlock_panics.mp failed
      refine ⟨t, g₂, ?_, by rwa [same now], wraps⟩
      rw [endFrom, bind_of_ok (get_ok g), bind_of_ok read, now]
    · exact absurd failed (log g₂)
  · rintro ⟨t, g₂, ended, data, wraps⟩
    rw [endFrom, bind_of_ok (get_ok g)] at ended
    obtain ⟨end_byte, g₁, read, now⟩ := bind_eq_ok.mp ended
    rw [same now] at data
    exact ⟨end_byte, g₁, read, fails_bind.mpr (Or.inl (answerBlock_panics.mpr ⟨data, t, g₂, now, wraps⟩))⟩

theorem dataFrom_panics {io_start_us : UInt32} :
    Fails .panic (do
      mdbWaveSendWait .request (io_start_us + timeoutCharUs * UInt32.ofNat request.length) .request
      receiveBlock (io_start_us + timeout_us) (min timeout_us timeoutSmallUs) io_start_us) g ↔
    ∃ received g', dataFrom timeout_us request io_start_us g = .ok received g' ∧
      (2 ^ 32 ≤ received.2.toNat + timeoutReceiveUs.toNat ∨
        ∃ t g'', endFrom received g' = .ok t g'' ∧ g''.response ≠ [] ∧
          2 ^ 32 ≤ t.toNat + (min timeout_us timeoutSmallUs).toNat) := by
  rw [(never_admits.mdbWaveSendWait _ _ _).fails_bind]
  constructor
  · rintro ⟨_, g₁, sent, failed⟩
    rw [receiveBlock, fails_of_ok (get_ok g₁)] at failed
    obtain ⟨received_count, g₂, waited, failed⟩ := (never_admits.waitReceive _ _).fails_bind.mp failed
    obtain ⟨now, g₃, ticked, failed⟩ := (never_admits.tickSince 0).fails_bind.mp failed
    refine ⟨(received_count, now), g₃, ?_, ?_⟩
    · rw [dataFrom, bind_of_ok sent, bind_of_ok (get_ok g₁), bind_of_ok waited, bind_of_ok ticked, pure_ok]
    · by_cases fits : now.toNat + timeoutReceiveUs.toNat < 2 ^ 32
      · rw [fails_of_ok (addU32_fits fits g₃)] at failed
        exact Or.inr ((endFrom_panics (received_count, now)).mp failed)
      · exact Or.inl (Nat.not_lt.mp fits)
  · rintro ⟨received, g₃, data, wraps⟩
    rw [dataFrom] at data
    obtain ⟨_, g₁, sent, data⟩ := bind_eq_ok.mp data
    rw [bind_of_ok (get_ok g₁)] at data
    obtain ⟨received_count, g₂, waited, data⟩ := bind_eq_ok.mp data
    obtain ⟨now, g₃, ticked, data⟩ := bind_eq_ok.mp data
    obtain ⟨rfl, rfl⟩ := pure_eq_ok.mp data
    refine ⟨(), g₁, sent, ?_⟩
    rw [receiveBlock, fails_of_ok (get_ok g₁), fails_of_ok waited, fails_of_ok ticked]
    by_cases fits : now.toNat + timeoutReceiveUs.toNat < 2 ^ 32
    · rw [fails_of_ok (addU32_fits fits g₃)]
      refine (endFrom_panics (received_count, now)).mpr (wraps.resolve_left ?_)
      simpa using fits
    · exact fails_bind.mpr (Or.inl (addU32_panics.mpr (by omega)))

/-- A valid call panics where a deadline begins too late to be computed, and nowhere else. -/
theorem tx_panics {capacity : Nat} {timeout : Duration} (valid : request ≠ [] ∧ request.length < blockMaxLength ∧
    blockMaxLength ≤ capacity) (duration : durationAsMicros32 timeout = .ok timeout_us)
    (sends : (timeoutCharUs * UInt32.ofNat request.length).toNat ≤ timeout_us.toNat) :
    Fails .panic (tx capacity request timeout) g ↔ ¬ DeadlinesBelow timeout_us request g := by
  have reached : Fails .panic (tx capacity request timeout) g ↔ ∃ t g₁, untilStart request g = .ok t g₁ ∧
      (2 ^ 32 ≤ t.toNat + timeout_us.toNat ∨ Fails .panic (do
        mdbWaveSendWait .request (t + timeoutCharUs * UInt32.ofNat request.length) .request
        receiveBlock (t + timeout_us) (min timeout_us timeoutSmallUs) t) g₁) := by
    rw [tx_start valid duration, (never_untilStart request).fails_bind]
    refine exists_congr fun t => exists_congr fun g₁ => and_congr_right fun _ => ?_
    by_cases fits : t.toNat + timeout_us.toNat < 2 ^ 32
    · have sendFits : t.toNat + (timeoutCharUs * UInt32.ofNat request.length).toNat < 2 ^ 32 := by omega
      rw [fails_of_ok (addU32_fits fits g₁), fails_of_ok (addU32_fits sendFits g₁), or_iff_right (by omega)]
    · exact iff_of_true (fails_bind.mpr (Or.inl (addU32_panics.mpr (by omega)))) (Or.inl (by omega))
  rw [reached]
  constructor
  · rintro ⟨t, g₁, start, wraps⟩ below
    have fits := below.start t g₁ start
    obtain ⟨received, g₂, data, wraps⟩ := dataFrom_panics.mp (wraps.resolve_left (by omega))
    have data : untilData timeout_us request g = .ok received g₂ := (bind_of_ok start).trans data
    have fits := below.data _ _ _ data
    obtain ⟨t, g₃, ended, some, wraps⟩ := wraps.resolve_left (by omega)
    have ended : untilEnd timeout_us request g = .ok t g₃ := (bind_of_ok data).trans ended
    have fits := below.answer t g₃ ended some
    omega
  · intro above
    by_contra safe
    refine above ⟨fun t g₁ start => ?_, fun n now g₂ data => ?_, fun t g₃ ended some => ?_⟩
    · by_contra wraps
      exact safe ⟨t, g₁, start, Or.inl (by omega)⟩
    · by_contra wraps
      obtain ⟨t, g₁, start, data⟩ := bind_eq_ok.mp data
      exact safe ⟨t, g₁, start, Or.inr (dataFrom_panics.mpr ⟨_, g₂, data, Or.inl (Nat.not_lt.mp wraps)⟩)⟩
    · by_contra wraps
      obtain ⟨received, g₂, data, ended⟩ := bind_eq_ok.mp ended
      obtain ⟨io_start_us, g₁, start, data⟩ := bind_eq_ok.mp data
      exact safe ⟨io_start_us, g₁, start, Or.inr (dataFrom_panics.mpr
        ⟨received, g₂, data, Or.inr ⟨t, g₃, ended, some, by omega⟩⟩)⟩

end GpioMdb

namespace Iodin.Server

open Effects

/-- `exec` returns `Ok` or `Err` and leaves a status. -/
def Returns : Server × Response × ExecEnd → Prop
  | (_, response, ended) => (ended = .ok ∨ ended = .err) ∧ response.status ≠ .invalid

/-- The driver that the request is for stops in this way. -/
def StopsWith (stop : Stop) (env : ExecEnv) (s : Server) (request : Request) : Prop :=
  match request.command with
  | .mdbOpen => ∃ rx tx, request.arg_bytes = [rx, tx] ∧ ∃ g, openMdb env s rx tx = .error stop g
  | .mdbReset => ∃ m, s.mdb = some m ∧ ∃ g, resetMdb env m request.arg_uint = .error stop g
  | .mdbTx => ∃ m, s.mdb = some m ∧ ∃ g, txMdb env m request.arg_bytes = .error stop g
  | .invalid | .stop => False

/-- The asserts hold, and so do the assumptions that the code makes on its environment. -/
def Survives (env : ExecEnv) (s : Server) (request : Request) : Prop :=
  match request.command with
  | .mdbOpen => request.arg_bytes.length = 2 → env.wait_step ≠ none
  | .mdbTx => ∀ m, s.mdb = some m → request.arg_bytes ≠ [] ∧ request.arg_bytes.length < blockMaxLength ∧
      GpioMdb.DeadlinesBelow 300000 request.arg_bytes { buf := m.buf, response := [], answers := env.answers }
  | .invalid | .mdbReset | .stop => True

theorem returns_failed {s : Server} {response : Response} {stop : Stop} :
    Returns (failed s response stop) ↔ stop ≠ .panic ∧ stop ≠ .starved := by
  cases stop <;> simp [failed, Returns]

theorem returns_iff (env : ExecEnv) {s : Server} (real : s.mock = false) (request : Request) (response : Response) :
    Returns (s.exec env request response) ↔
      ¬ StopsWith .panic env s request ∧ ¬ StopsWith .starved env s request := by
  unfold exec StopsWith
  cases request.command with
  | invalid => simp [Returns]
  | stop => simp [Returns]
  | mdbOpen =>
    dsimp only
    split
    next rx tx two =>
      cases h : openMdb env s rx tx with
      | ok m g => simp [Returns, two, h]
      | error stop g => simp [returns_failed, two, h]
    next other =>
      simpa [Returns] using
        ⟨fun rx tx two => absurd two (other rx tx), fun rx tx two => absurd two (other rx tx)⟩
  | mdbReset =>
    dsimp only
    cases s.mdb with
    | none => simp [Returns]
    | some m =>
      dsimp only
      cases h : resetMdb env m request.arg_uint with
      | ok a g => simp [Returns, h]
      | error stop g => simp [returns_failed, h]
  | mdbTx =>
    dsimp only
    cases s.mdb with
    | none => simp [Returns]
    | some m =>
      simp only [real, Bool.false_eq_true, ↓reduceIte]
      cases h : txMdb env m request.arg_bytes with
      | ok a g => simp [Returns, h]
      | error stop g => simp [returns_failed, h]

theorem panics_iff (env : ExecEnv) (s : Server) (request : Request) :
    StopsWith .panic env s request ↔ ¬ Survives env s request := by
  unfold StopsWith Survives
  cases request.command with
  | invalid => simp
  | stop => simp
  | mdbOpen =>
    have stops (rx tx : UInt8) : (∃ g, openMdb env s rx tx = .error .panic g) ↔ env.wait_step = none :=
      GpioMdb.new_panics env.wait_step env.uninitialized rx.toUInt16 tx.toUInt16 _
    simp only [stops, Classical.not_imp, not_not, ← exists_and_right, List.length_eq_two]
  | mdbReset =>
    refine iff_of_false ?_ (not_not.mpr trivial)
    rintro ⟨m, _, panics⟩
    exact GpioMdb.never_busReset _ _ panics
  | mdbTx =>
    dsimp only
    cases s.mdb with
    | none => simp
    | some m =>
      simp only [Option.some.injEq, exists_eq_left', forall_eq']
      by_cases valid : request.arg_bytes ≠ [] ∧ request.arg_bytes.length < blockMaxLength
      · rw [and_iff_right valid.1, and_iff_right valid.2]
        exact GpioMdb.tx_panics ⟨valid.1, valid.2, le_rfl⟩ GpioMdb.durationAsMicros32_300ms
          (GpioMdb.send_le_wait valid.2)
      · refine iff_of_true ?_ fun fits => valid ⟨fits.1, fits.2.1⟩
        rw [txMdb, GpioMdb.tx, if_neg fun fits => valid ⟨fits.1, fits.2.1⟩]
        exact fails_throw _ _

/-- A request ends in a response exactly if it keeps to what the driver takes for
granted and pigpio has an answer to every call. -/
theorem exec_returns_iff (env : ExecEnv) {s : Server} (real : s.mock = false) (request : Request)
    (response : Response) :
    Returns (s.exec env request response) ↔ Survives env s request ∧ ¬ StopsWith .starved env s request := by
  rw [returns_iff env real, panics_iff, not_not]

def openServer : Server where
  mdb := some ⟨15, 14, 0, 1, 101, Vector.replicate bufSize 0⟩

/-- One second after the clock has wrapped, a device that acknowledges at once. -/
def acknowledging : ExecEnv where
  answers := [{}, {}, {}, { tick := 1000000 }, { tick := 1000040 }, {}, {}, {}, { data := [0x00, 0x01] },
    { tick := 1003000 }, { tick := 1003100 }]
  wait_step := some 101
  uninitialized := Vector.replicate bufSize 0

theorem acknowledged_survives : Survives acknowledging openServer { command := .mdbTx, arg_bytes := [0x0b] } ∧
    ¬ StopsWith .starved acknowledging openServer { command := .mdbTx, arg_bytes := [0x0b] } :=
  (exec_returns_iff acknowledging rfl _ {}).mp ⟨Or.inl (by decide +kernel), by decide +kernel⟩

/-- The longest packet of the Go side is one byte too long for the driver's assert. -/
theorem longestPacket_dies :
    ¬ Returns (openServer.exec acknowledging { command := .mdbTx, arg_bytes := List.replicate 40 0x30 } {}) := by
  rintro ⟨returned, _⟩
  exact absurd returned (by decide +kernel)

end Iodin.Server

end Vender
