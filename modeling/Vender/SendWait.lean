import Vender.ReceiveTimeout

namespace Vender

def MdbWave.timeout : MdbWave → MdbTimeout
  | .request => .request
  | .nak => .nak
  | .ack => .ack

namespace GpioMdb

open Effects

/-- One check of `mdb_wave_send_wait`: what `gpioWaveTxBusy` returns, and the tick. -/
structure WaveCheck where
  rc : Int32
  tick : UInt32

def checkAnswers : List WaveCheck → List Answer
  | [] => []
  | c :: checks => if c.rc = 1 then { rc := c.rc.toInt } :: { tick := c.tick } :: checkAnswers checks
    else [{ rc := c.rc.toInt }]

def busyTicks (checks : List WaveCheck) : List UInt32 := (checks.takeWhile fun c => c.rc = 1).map WaveCheck.tick

/-- The calls of `mdb_wave_send_wait` in `tx`: the one for the request, and the one for
the ACK or the NAK. -/
inductive SendSite
  | ofRequest (capacity : Nat) (request : List UInt8) (timeout : Duration)
  | ofReply (timeout_small_us : UInt32) (end_byte : UInt8)

namespace SendSite

def program : SendSite → GpioM Unit
  | .ofRequest capacity request timeout => tx capacity request timeout
  | .ofReply timeout_small_us end_byte => answerBlock timeout_small_us end_byte

def wave (response : List UInt8) : SendSite → MdbWave
  | .ofRequest .. => .request
  | .ofReply _ end_byte => if end_byte ≠ checksum response then .nak else .ack

def budget : SendSite → UInt32
  | .ofRequest _ request _ => timeoutCharUs * UInt32.ofNat request.length
  | .ofReply timeout_small_us _ => timeout_small_us

/-- What pigpio is asked before the first check: in `tx` the request's wave is made first,
then come the tick to which the budget is added, the one that `mdb_wave_send_wait` takes
itself, and the send. -/
def asks (now start : UInt32) : SendSite → List Ask
  | .ofRequest .. => [.accepted, .accepted, .accepted, .tick now, .tick start, .accepted]
  | .ofReply .. => [.tick now, .tick start, .accepted]

def Reached (now : UInt32) (response : List UInt8) : SendSite → Prop
  | .ofRequest capacity request timeout =>
    (request ≠ [] ∧ request.length < blockMaxLength ∧ blockMaxLength ≤ capacity) ∧
      (∃ timeout_us, durationAsMicros32 timeout = .ok timeout_us ∧ now.toNat + timeout_us.toNat < 2 ^ 32) ∧
      now.toNat + (timeoutCharUs * UInt32.ofNat request.length).toNat < 2 ^ 32
  | .ofReply timeout_small_us _ => response ≠ [] ∧ now.toNat + timeout_small_us.toNat < 2 ^ 32

/-- The check at which the call returns its timeout error, the first one being 0. -/
def gaveUpAt (site : SendSite) (checks : List WaveCheck) (g : Gpio) : Option Nat :=
  match site.program g with
  | .error (.err (.timeout t)) g' =>
    if t = (site.wave g.response).timeout then
      some (((checkAnswers checks).length - g'.answers.length) / 2 - 1)
    else none
  | _ => none

/-- The first check that finds the wave busy after the time that the caller allowed. -/
def dueAt (site : SendSite) (now : UInt32) (checks : List WaveCheck) : Option Nat :=
  (busyTicks checks).findIdx? (site.budget < · - now)

end SendSite

theorem checkAnswers_busy {c : WaveCheck} (busy : c.rc = 1) (checks : List WaveCheck) :
    checkAnswers (c :: checks) = { rc := c.rc.toInt } :: { tick := c.tick } :: checkAnswers checks := by
  rw [checkAnswers, if_pos busy]

theorem busyTicks_busy {c : WaveCheck} (busy : c.rc = 1) (checks : List WaveCheck) :
    busyTicks (c :: checks) = c.tick :: busyTicks checks := by
  simp [busyTicks, busy]

theorem busyTicks_other {c : WaveCheck} (other : c.rc ≠ 1) (checks : List WaveCheck) :
    busyTicks (c :: checks) = [] := by
  simp [busyTicks, other]

theorem checkAnswers_drop {checks : List WaveCheck} {p : UInt32 → Bool} {k : Nat}
    (found : (busyTicks checks).findIdx? p = some k) :
    (checkAnswers checks).length = 2 * (k + 1) + (checkAnswers (checks.drop (k + 1))).length := by
  induction checks generalizing k with
  | nil => simp [busyTicks] at found
  | cons c checks ih =>
    by_cases busy : c.rc = 1
    · rw [busyTicks_busy busy, List.findIdx?_cons] at found
      rw [checkAnswers_busy busy, List.length_cons, List.length_cons, List.drop_succ_cons]
      split at found
      next =>
        cases Option.some.inj found
        rw [List.drop_zero]
        omega
      next =>
        obtain ⟨j, later, rfl⟩ := Option.map_eq_some_iff.mp found
        have := ih later
        omega
    · simp [busyTicks_other busy] at found

def StopsOtherwise (m : GpioM Unit) (g : Gpio) : Prop :=
  ∃ stop g', m g = .error stop g' ∧ ∀ t, stop ≠ .err (.timeout t)

theorem StopsOtherwise.bind {m : GpioM Unit} {g : Gpio} (h : StopsOtherwise m g) (k : Unit → GpioM Unit) :
    StopsOtherwise (m >>= k) g := by
  obtain ⟨stop, g', stopped, other⟩ := h
  exact ⟨stop, g', bind_of_error stopped, other⟩

/-- The loop gives up at the first busy check that is late by its own count. -/
theorem sendWaitLoop_checks (start deadline : UInt32) (err : MdbTimeout) {checks : List WaveCheck}
    {fuel : Nat} {g : Gpio}
    (h : g.answers = checkAnswers checks) (enough : (checkAnswers checks).length < fuel) :
    match (busyTicks checks).findIdx? (deadline < · - start) with
    | none => StopsOtherwise (sendWaitLoop start deadline err fuel) g ∨
        ∃ g', sendWaitLoop start deadline err fuel g = .ok () g' ∧ g'.answers = []
    | some k => ∃ g', sendWaitLoop start deadline err fuel g = .error (.err (.timeout err)) g' ∧
        g'.answers = checkAnswers (checks.drop (k + 1)) := by
  induction checks generalizing g fuel with
  | nil =>
    obtain ⟨n, rfl⟩ : ∃ n, fuel = n + 1 := ⟨fuel - 1, by omega⟩
    refine Or.inl ⟨.starved, g, ?_, by simp⟩
    exact bind_of_error (bind_of_error (bind_of_error (call_starved h)))
  | cons c checks ih =>
    obtain ⟨n, rfl⟩ : ∃ n, fuel = n + 1 := ⟨fuel - 1, by omega⟩
    by_cases busy : c.rc = 1
    · rw [checkAnswers_busy busy] at h enough
      have less : (checkAnswers checks).length < n := by
        simp only [List.length_cons] at enough
        omega
      have seen : waveTxBusy g = .ok true { g with answers := { tick := c.tick } :: checkAnswers checks } := by
        have accepted : 0 ≤ c.rc.toInt := by rw [busy]; decide
        rw [waveTxBusy, checkCall, bind_of_ok ((bind_of_ok (call_cons h)).trans (check_of_nonneg accepted _)), busy]
        rfl
      have total : tickSince start { g with answers := { tick := c.tick } :: checkAnswers checks } =
          .ok (c.tick - start) { g with answers := checkAnswers checks } := by
        rw [tickSince, bind_of_ok (call_cons rfl)]
        rfl
      have turn : sendWaitLoop start deadline err (n + 1) g =
          (if deadline < c.tick - start then throw (.err (.timeout err)) else sendWaitLoop start deadline err n)
            { g with answers := checkAnswers checks } := by
        rw [sendWaitLoop, bind_of_ok seen, if_pos rfl, bind_of_ok total]
      rw [busyTicks_busy busy, List.findIdx?_cons]
      by_cases late : deadline < c.tick - start
      · simp only [late, decide_true, ↓reduceIte] at turn ⊢
        exact ⟨_, turn, rfl⟩
      · rw [if_neg late] at turn
        have rest := ih (g := { g with answers := checkAnswers checks }) rfl less
        simp only [late, decide_false, Bool.false_eq_true, ↓reduceIte, StopsOtherwise, turn]
        cases first : (busyTicks checks).findIdx? (deadline < · - start) with
        | none => simpa [first, StopsOtherwise] using rest
        | some k => simpa [first] using rest
    · rw [checkAnswers, if_neg busy] at h
      rw [busyTicks_other busy, List.findIdx?_nil]
      by_cases failed : c.rc.toInt < 0
      · refine Or.inl ⟨.err (.pigpio c.rc.toInt), { g with answers := [] }, ?_, by simp⟩
        have refused : checkCall g = .error (.err (.pigpio c.rc.toInt)) { g with answers := [] } := by
          rw [checkCall, bind_of_ok (call_cons h), check_of_neg failed]
        exact bind_of_error (bind_of_error refused)
      · refine Or.inr ⟨{ g with answers := [] }, ?_, rfl⟩
        have accepted : 0 ≤ c.rc.toInt := by omega
        have idle : (UInt32.ofNat c.rc.toInt.toNat == 1) = false := by
          have bound := c.rc.toInt_lt
          have other : c.rc.toInt ≠ 1 := fun one => busy (Int32.toInt_inj.mp one)
          rw [beq_eq_false_iff_ne, ne_eq, ← UInt32.toNat_inj, UInt32.toNat_ofNat']
          change ¬ _ = 1
          omega
        have seen : waveTxBusy g = .ok false { g with answers := [] } := by
          rw [waveTxBusy, checkCall, bind_of_ok ((bind_of_ok (call_cons h)).trans (check_of_nonneg accepted _)), idle]
          rfl
        rw [sendWaitLoop, bind_of_ok seen]
        rfl

theorem mdbWaveSendWait_checks (w : MdbWave) (start deadline : UInt32) (err : MdbTimeout) {checks : List WaveCheck}
    {g : Gpio} (h : Serves [.tick start, .accepted] g.answers (checkAnswers checks)) :
    match (busyTicks checks).findIdx? (deadline < · - start) with
    | none => StopsOtherwise (mdbWaveSendWait w deadline err) g
    | some k => ∃ g', mdbWaveSendWait w deadline err g = .error (.err (.timeout err)) g' ∧
        g'.answers = checkAnswers (checks.drop (k + 1)) := by
  obtain ⟨answers₁, h, started⟩ := tickSince_zero h
  obtain ⟨_, answers, h, accepted⟩ := checkCall_accepted (g := { g with answers := answers₁ }) h
  cases h
  have called : mdbWaveSendWait w deadline err g = (do
      sendWaitLoop start deadline err ((checkAnswers checks).length + 1)
      let _ ← checkCall
      pure ()) { g with answers := checkAnswers checks, sent := g.sent ++ [w] } := by
    rw [mdbWaveSendWait, bind_of_ok started, bind_of_ok accepted, bind_of_ok (modify_ok _ _), bind_of_ok (get_ok _)]
  have looped := sendWaitLoop_checks start deadline err
    (g := { g with answers := checkAnswers checks, sent := g.sent ++ [w] }) rfl (Nat.lt_succ_self _)
  cases first : (busyTicks checks).findIdx? (deadline < · - start) with
  | none =>
    rw [first] at looped
    simp only [StopsOtherwise, called]
    rcases looped with other | ⟨g', done, left⟩
    · exact other.bind _
    · refine ⟨.starved, g', ?_, by simp⟩
      rw [bind_of_ok done]
      exact bind_of_error (bind_of_error (call_starved left))
  | some k =>
    rw [first] at looped
    obtain ⟨g', late, left⟩ := looped
    exact ⟨g', by rw [called, bind_of_error late], left⟩

/-- What a call of `tx` comes to is a call of `mdb_wave_send_wait` and what follows it. -/
theorem SendSite.program_sends {site : SendSite} {now start : UInt32} {checks : List WaveCheck} {g : Gpio}
    (reached : site.Reached now g.response) (h : Serves (site.asks now start) g.answers (checkAnswers checks)) :
    ∃ g' k, Serves [.tick start, .accepted] g'.answers (checkAnswers checks) ∧ site.program g =
      (mdbWaveSendWait (site.wave g.response) (now + site.budget) (site.wave g.response).timeout >>= k) g' := by
  cases site with
  | ofRequest capacity request timeout =>
    obtain ⟨valid, ⟨timeout_us, duration, waitFits⟩, sendFits⟩ := reached
    have filled : Serves _ { g with buf := fillRequest g.buf request }.answers (checkAnswers checks) := h
    obtain ⟨_, answers₁, h, created⟩ := mdbWaveCreate_serves filled
    let block := (fillRequest g.buf request).toList.take (request.length * wordSize + wordSize)
    obtain ⟨answers, h, ticked⟩ := tickSince_zero (g := { g with
      buf := fillRequest g.buf request, answers := answers₁, handed := g.handed ++ [block] }) h
    have same : micros timeout = pure timeout_us := by rw [micros, duration]
    refine ⟨{ g with buf := fillRequest g.buf request, answers, handed := g.handed ++ [block] }, fun _ =>
      receiveBlock (now + timeout_us) (min timeout_us timeoutSmallUs) now, h, ?_⟩
    rw [program, tx, if_pos valid, bind_of_ok (modify_ok _ g), bind_of_ok (get_ok _), bind_of_ok created,
      txWave_eq, same,
      bind_of_ok (pure_ok timeout_us _), bind_of_ok ticked, bind_of_ok (addU32_fits waitFits _),
      bind_of_ok (addU32_fits sendFits _)]
    rfl
  | ofReply timeout_small_us end_byte =>
    obtain ⟨data, fits⟩ := reached
    obtain ⟨answers, h, ticked⟩ := tickSince_zero h
    refine ⟨{ g with answers }, fun _ => if end_byte ≠ checksum g.response then
      throw (.err (.checksum (checksum g.response) end_byte g.response)) else pure (), h, ?_⟩
    rw [program, answerBlock_data data rfl, bind_of_ok ticked, bind_of_ok (addU32_fits fits _), wave]
    split
    · rfl
    · exact (congrFun (bind_pure _) _).symm

theorem SendSite.gaveUpAt_eq {site : SendSite} {now start : UInt32} {checks : List WaveCheck} {g : Gpio}
    (reached : site.Reached now g.response) (h : Serves (site.asks now start) g.answers (checkAnswers checks)) :
    site.gaveUpAt checks g = (busyTicks checks).findIdx? (now + site.budget < · - start) := by
  obtain ⟨g₁, k, h, sends⟩ := site.program_sends reached h
  have waited := mdbWaveSendWait_checks (site.wave g.response) start (now + site.budget)
    (site.wave g.response).timeout h
  unfold gaveUpAt
  rw [sends]
  cases first : (busyTicks checks).findIdx? (now + site.budget < · - start) with
  | none =>
    rw [first] at waited
    obtain ⟨stop, g', stopped, other⟩ := waited.bind k
    rw [stopped]
    split
    next t _ same =>
      cases same
      exact absurd rfl (other t)
    next => rfl
  | some i =>
    rw [first] at waited
    obtain ⟨g', late, left⟩ := waited
    have taken := checkAnswers_drop first
    rw [bind_of_error late]
    dsimp only
    rw [if_pos rfl, left]
    congr 1
    omega

/-- The call gives up when the time it was allowed is over exactly if, at each busy check
up to there, the time since its own start is above the deadline, taken as a duration, just
when the time since the caller's tick is above the budget. -/
theorem SendSite.gaveUpAt_due_iff {site : SendSite} {now start : UInt32} {checks : List WaveCheck} {g : Gpio}
    (reached : site.Reached now g.response) (h : Serves (site.asks now start) g.answers (checkAnswers checks)) :
    site.gaveUpAt checks g = site.dueAt now checks ↔
      ∀ before tick after, busyTicks checks = before ++ tick :: after → (∀ t ∈ before, t - now ≤ site.budget) →
        (now + site.budget < tick - start ↔ site.budget < tick - now) := by
  rw [gaveUpAt_eq reached h, dueAt, findIdx?_eq_iff]
  simp only [decide_eq_decide, decide_eq_false_iff_not, UInt32.not_lt]

def polling (now : UInt32) (checks : List WaveCheck) : Gpio where
  buf := Vector.replicate bufSize 0
  response := []
  answers := [{}, {}, {}, { tick := now }, { tick := now + 40 }, {}] ++ checkAnswers checks

theorem polling_serves (now : UInt32) (checks : List WaveCheck) (timeout : Duration) :
    Serves ((SendSite.ofRequest blockMaxLength [0x0b] timeout).asks now (now + 40)) (polling now checks).answers
      (checkAnswers checks) :=
  .cons le_rfl (.cons le_rfl (.cons le_rfl (.cons rfl (.cons rfl (.cons le_rfl .nil)))))

theorem polling_reached {now : UInt32} (fits : now.toNat + 300000 < 2 ^ 32) :
    (SendSite.ofRequest blockMaxLength [0x0b] ⟨0, 300000000⟩).Reached now [] := by
  have sends : now.toNat + (timeoutCharUs * UInt32.ofNat [(0x0b : UInt8)].length).toNat < 2 ^ 32 := by
    have char : (timeoutCharUs * UInt32.ofNat [(0x0b : UInt8)].length).toNat = 3145 := by decide
    omega
  exact ⟨by decide, ⟨300000, durationAsMicros32_300ms, fits⟩, sends⟩

/-- At tick 0 the deadline and the budget are the same number. -/
theorem gaveUpAt_boot :
    (SendSite.ofRequest blockMaxLength [0x0b] ⟨0, 300000000⟩).gaveUpAt [⟨1, 5000⟩] (polling 0 [⟨1, 5000⟩]) =
      (SendSite.ofRequest blockMaxLength [0x0b] ⟨0, 300000000⟩).dueAt 0 [⟨1, 5000⟩] := by
  refine (SendSite.gaveUpAt_due_iff (polling_reached (by decide)) (polling_serves 0 _ _)).mpr ?_
  intro before tick after cut _
  cases before with
  | nil =>
    obtain ⟨rfl, _⟩ := List.cons.inj cut
    decide
  | cons => cases (List.append_eq_nil_iff.mp (List.cons.inj cut).2.symm).2

/-- One hour after the tick was 0 a wave that stays busy is not given up. -/
theorem gaveUpAt_hour :
    (SendSite.ofRequest blockMaxLength [0x0b] ⟨0, 300000000⟩).gaveUpAt
        [⟨1, 3600000200⟩, ⟨1, 3600003500⟩, ⟨1, 3601000000⟩]
        (polling 3600000000 [⟨1, 3600000200⟩, ⟨1, 3600003500⟩, ⟨1, 3601000000⟩]) ≠
      (SendSite.ofRequest blockMaxLength [0x0b] ⟨0, 300000000⟩).dueAt 3600000000
        [⟨1, 3600000200⟩, ⟨1, 3600003500⟩, ⟨1, 3601000000⟩] := by
  rw [SendSite.gaveUpAt_eq (polling_reached (by decide)) (polling_serves 3600000000 _ _)]
  decide

end GpioMdb

end Vender
