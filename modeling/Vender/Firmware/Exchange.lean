import Vender.Firmware.Slave
import Vender.Firmware.Success
import Vender.Firmware.Transmit

namespace Vender.Firmware

/-- Where an exchange of blocks with a peripheral stands, in terms of the bytes on the line. -/
inductive Exchange.Phase
  | sending (left : List UInt8)
  | receiving (data : List UInt8)
  | received (data : List UInt8) (last : UInt8)
  /-- RET was sent -/
  | repeating
  | failed (code : Response) (state : MdbState) (info : UInt8)

/-- An exchange as the MDB engine is to carry it out, with the bytes written to the line. -/
structure Exchange where
  phase : Exchange.Phase
  written : List (UInt8 × Bool)

namespace Exchange

def Phase.state : Phase → MdbState
  | .sending _ => .send
  | .receiving _ => .recv
  | .received .. | .repeating => .recvEnd
  | .failed .. => .error

def start (data : List UInt8) : Exchange where
  phase := .sending ((data ++ [Gate.memsum data]).drop 1)
  written := (block data).take 1

/-- What an event of the engine makes of an exchange that it does not end; `none` where it
cannot come, or ends the exchange, and for any interrupt after an error. -/
def next (x : Exchange) (e : Event) : Option Exchange :=
  match e, x.phase with
  | .usartUdre, .sending (b :: left) => some ⟨.sending left, x.written ++ [(b, false)]⟩
  | .usartTx, .sending [] => some ⟨.receiving [], x.written⟩
  | .usartRx .., .failed .. => none
  | .usartRx err data bit9, .receiving got =>
    some ⟨if err ≠ 0 then .failed .uartReadError .recv err
      else if bit9 then .received got data
      else if got.length < mdbPacketSize then .receiving (got ++ [data])
      else .failed .mdbReceiveOverflow .recv (UInt8.ofNat mdbPacketSize), x.written⟩
  | .usartRx err data _, p =>
    some ⟨if err ≠ 0 then .failed .uartReadError p.state err else .failed .uartReadUnexpected p.state data,
      x.written⟩
  | .timer0Ovf, .received .. => none
  | .timer0Ovf, .failed .. => none
  | .timer0Ovf, p => some ⟨.failed .mdbTimeout p.state 5, x.written⟩
  | .mdbStep, .sending _ => some x
  | .mdbStep, .receiving _ => some x
  | .mdbStep, .received data last =>
    if data ≠ [] ∧ last ≠ Gate.memsum data then some ⟨.repeating, x.written ++ [(mdbRet, false)]⟩ else none
  | _, _ => none

/-- What the next `mdb_step` answers the master with, if it ends the exchange. -/
def verdict (x : Exchange) : Option (Response × List UInt8) :=
  match x.phase with
  | .sending _ | .receiving _ => none
  | .received data last =>
    if data = [] then
      if last = mdbAck then some (.mdbSuccess, [])
      else if last = mdbNak then some (.mdbNak, [last])
      else some (.mdbInvalidEnd, [last])
    else if last = Gate.memsum data then some (.mdbSuccess, data)
    else none
  | .repeating => some (.mdbSuccess, [])
  | .failed code state info => some (code, [state.code, info])

/-- What that `mdb_step` writes to the line. -/
def acknowledges (x : Exchange) : List (UInt8 × Bool) :=
  match x.phase with
  | .received data _ => if data = [] then [] else [(mdbAck, false)]
  | _ => []

end Exchange

/-- What can come during an exchange: everything but a reset, and further calls of
`master_command` by the packet loop that the transaction came in. -/
def Meanwhile.during (g : Gate) : Meanwhile → Option Gate
  | .event .watchdog => none
  | .event e => Firmware.step g e
  | .call env i src => if g.mode = .running then some (Call.result env ⟨g, i, src⟩).1 else none

/-- The event of the MDB engine that it is, if any. -/
def Meanwhile.engine : Meanwhile → Option Event
  | .event e => if e.mdb then some e else none
  | .call .. => none

/-- The interrupt of the UART or the timer that it is, if any. -/
def Meanwhile.interrupt (m : Meanwhile) : Option Event :=
  match m.engine with
  | some .mdbStep => none
  | e => e

namespace Gate

/-- All that has to do with the MDB engine. -/
def mdb (g : Gate) :=
  (g.sender, g.mdbIn, g.mdbInChecksum, g.mdbInLastByte, g.mdbStateRetry, g.mdbFastErrorState,
    g.mdbFastErrorData, g.timer0)

theorem twiVect_mdb (st : TwStatus) (data : UInt8) (g : Gate) : (g.twiVect st data).mdb = g.mdb :=
  twiVect_keeps (fun _ _ _ _ _ _ => rfl) st data

end Gate

theorem Puts.mdb {header : Response} {data : List UInt8} {g g' : Gate} (h : Puts header data g g') :
    g'.mdb = g.mdb := by
  cases h <;> rfl

/-- The other steps leave a busy engine alone. -/
theorem mdb_of_unseen {g g' : Gate} {m : Meanwhile} (taken : m.during g = some g') (unseen : m.engine = none)
    (busy : g.mdbState ≠ .idle) : g'.mdb = g.mdb := by
  cases m with
  | call env i src =>
    obtain ⟨_, rfl⟩ := enabled_step taken
    exact (Call.result_commanded env ⟨g, i, src⟩).keeps busy Puts.mdb (fun _ _ => rfl) (fun _ _ => rfl)
  | event e =>
    cases e with
    | watchdog => cases taken
    | mdbStep | usartRx | usartUdre | usartTx | timer0Ovf => cases unseen
    | twiStep env =>
      obtain ⟨_, rfl⟩ := enabled_step taken
      exact Gate.twiStep_keeps busy Puts.mdb (fun _ _ => rfl) (fun _ _ => rfl) (fun _ => rfl) (fun _ _ _ => rfl)
    | twi st data =>
      obtain ⟨_, rfl⟩ := enabled_step taken
      exact g.twiVect_mdb st data

/-- The engine has received `got` after it wrote `written`, and found no fault so far. -/
structure Receiving (before written : List (UInt8 × Bool)) (got : List UInt8) (g : Gate) : Prop where
  clean : g.mdbFastErrorCode = none
  txb80 : g.txb80 = false
  udrie0 : g.udrie0 = false
  txcie0 : g.txcie0 = false
  sent : g.history.sent = before ++ written
  stored : g.mdbIn.stored = got
  sum : g.mdbInChecksum = Gate.memsum got

/-- The gate stands where the exchange does, having written `before` ahead of it. -/
inductive Represents (before : List (UInt8 × Bool)) (g : Gate) : Exchange → Prop
  | sending {out : List UInt8} (h : Sending before out g) (retry : g.mdbStateRetry = false) :
      Represents before g ⟨.sending (out.drop g.mdbOut.used), (addressed out).take g.mdbOut.used⟩
  | receiving {written : List (UInt8 × Bool)} {got : List UInt8} (state : g.mdbState = .recv)
      (retry : g.mdbStateRetry = false) (h : Receiving before written got g) :
      Represents before g ⟨.receiving got, written⟩
  | received {written : List (UInt8 × Bool)} {got : List UInt8} {last : UInt8} (state : g.mdbState = .recvEnd)
      (retry : g.mdbStateRetry = false) (timer : g.timer0 = none) (same : g.mdbInLastByte = last)
      (h : Receiving before written got g) : Represents before g ⟨.received got last, written⟩
  | repeating {written : List (UInt8 × Bool)} (state : g.mdbState = .recvEnd) (ack : g.mdbInLastByte = mdbAck)
      (h : Receiving before written [] g) : Represents before g ⟨.repeating, written⟩
  | failed {written : List (UInt8 × Bool)} {code : Response} {state : MdbState} {info : UInt8}
      (busy : g.mdbState ≠ .idle) (error : g.mdbFastErrorCode = some code) (found : g.mdbFastErrorState = state)
      (data : g.mdbFastErrorData = info) (sent : g.history.sent = before ++ written) :
      Represents before g ⟨.failed code state info, written⟩

theorem Receiving.congr {before written : List (UInt8 × Bool)} {got : List UInt8} {g g' : Gate}
    (h : Receiving before written got g) (same : g'.mdb = g.mdb) : Receiving before written got g' := by
  simp only [Gate.mdb, Gate.sender, Prod.mk.injEq] at same
  obtain ⟨⟨_, code, txb80, udrie0, txcie0, _, sent⟩, mdbIn, sum, _⟩ := same
  constructor
  · rw [code, h.clean]
  · rw [txb80, h.txb80]
  · rw [udrie0, h.udrie0]
  · rw [txcie0, h.txcie0]
  · rw [sent, h.sent]
  · rw [mdbIn, h.stored]
  · rw [sum, h.sum]

namespace Represents

variable {before : List (UInt8 × Bool)} {g g' : Gate} {x : Exchange}

theorem congr (h : Represents before g x) (same : g'.mdb = g.mdb) : Represents before g' x := by
  have fields := same
  simp only [Gate.mdb, Gate.sender, Prod.mk.injEq] at fields
  obtain ⟨⟨state, code, _, _, _, mdbOut, sent⟩, _, _, last, retry, failedIn, failedData, timer⟩ := fields
  cases h with
  | sending h again =>
    rw [← mdbOut]
    exact .sending (h.congr (Prod.mk.inj same).1) (retry.trans again)
  | receiving at_ again h => exact .receiving (state.trans at_) (retry.trans again) (h.congr same)
  | received at_ again stopped byte h =>
    exact .received (state.trans at_) (retry.trans again) (timer.trans stopped) (last.trans byte) (h.congr same)
  | repeating at_ ack h => exact .repeating (state.trans at_) (last.trans ack) (h.congr same)
  | failed busy error found data written =>
    exact .failed (by rwa [state]) (code.trans error) (failedIn.trans found) (failedData.trans data)
      (sent.trans written)

theorem busy (h : Represents before g x) : g.mdbState ≠ .idle := by
  cases h with
  | sending h => exact h.busy
  | receiving state | received state | repeating state => simp [state]
  | failed busy => exact busy

theorem usartUdre_used {g : Gate} (more : g.mdbOut.used < g.mdbOut.length) :
    g.usartUdre.mdbOut.used = g.mdbOut.used + 1 ∧ g.usartUdre.mdbStateRetry = g.mdbStateRetry := by
  have room : ¬ g.timer0Stop.mdbOut.used ≥ g.timer0Stop.mdbOut.length := by
    change ¬ g.mdbOut.length ≤ g.mdbOut.used
    omega
  unfold Gate.usartUdre
  simp only [dif_neg room]
  split <;> exact ⟨rfl, rfl⟩

theorem usartUdre (h : Represents before g x) (enabled : g.udrie0 = true) (clean : g.mdbFastErrorCode = none) :
    ∃ y, x.next .usartUdre = some y ∧ Represents before g.usartUdre y := by
  cases h with
  | @sending out h retry =>
    have more : g.mdbOut.used < out.length := h.udrie0.mp enabled
    have inside : g.mdbOut.used < g.mdbOut.length := by
      rw [h.length]
      exact more
    obtain ⟨used, again⟩ := usartUdre_used inside
    have goesOn := Represents.sending (h.udre enabled) (again.trans retry)
    rw [used, addressed_take_succ h.begun more] at goesOn
    refine ⟨_, ?_, goesOn⟩
    rw [List.drop_eq_getElem_cons more, List.getD_eq_getElem?_getD, List.getElem?_eq_getElem more]
    rfl
  | receiving _ _ h | received _ _ _ _ h | repeating _ _ h =>
    rw [h.udrie0] at enabled
    cases enabled
  | failed _ error =>
    rw [clean] at error
    cases error

theorem usartTx (h : Represents before g x) (enabled : g.txcie0 = true) (clean : g.mdbFastErrorCode = none) :
    ∃ y, x.next .usartTx = some y ∧ Represents before g.usartTx y := by
  cases h with
  | @sending out h retry =>
    have last : g.mdbOut.used = out.length := h.txcie0.mp enabled
    have off : g.udrie0 = false := by
      by_contra on
      have more := h.udrie0.mp (by simpa using on)
      omega
    refine ⟨_, ?_, .receiving rfl retry ⟨h.clean, h.txb80, off, rfl, h.sent, rfl, rfl⟩⟩
    rw [last, List.drop_length]
    rfl
  | receiving _ _ h | received _ _ _ _ h | repeating _ _ h =>
    rw [h.txcie0] at enabled
    cases enabled
  | failed _ error =>
    rw [clean] at error
    cases error

/-- An error that an interrupt finds. -/
theorem fastError {written : List (UInt8 × Bool)} (code : Response) {state : MdbState} (info : UInt8)
    (found : g.mdbState = state) (sent : g.history.sent = before ++ written) :
    Represents before (g.mdbFastError code info) ⟨.failed code state info, written⟩ :=
  .failed (by simp [Gate.mdbFastError]) rfl found rfl sent

theorem state_of_clean (h : Represents before g x) (clean : g.mdbFastErrorCode = none) :
    g.mdbState = x.phase.state ∧ g.history.sent = before ++ x.written := by
  cases h with
  | sending h => exact ⟨h.state, h.sent⟩
  | receiving state _ h | received state _ _ _ h | repeating state _ h => exact ⟨state, h.sent⟩
  | failed _ error =>
    rw [clean] at error
    cases error

theorem timer0Ovf (h : Represents before g x) (enabled : g.timer0.isSome = true)
    (clean : g.mdbFastErrorCode = none) :
    ∃ y, x.next .timer0Ovf = some y ∧ Represents before g.timer0Ovf y := by
  obtain ⟨state, sent⟩ := h.state_of_clean clean
  have failed : x.phase.state ≠ .idle → x.phase.state ≠ .busReset →
      Represents before g.timer0Ovf ⟨.failed .mdbTimeout x.phase.state 5, x.written⟩ := by
    intro idle busReset
    have broken : g.timer0Ovf = g.timer0Stop.mdbFastError .mdbTimeout 5 := by
      unfold Gate.timer0Ovf
      simp only
      split
      next at_ => exact absurd (state.symm.trans at_) idle
      next at_ => exact absurd (state.symm.trans at_) busReset
      next => rfl
    rw [broken]
    exact fastError _ _ state sent
  cases h with
  | sending | receiving | repeating =>
    exact ⟨_, rfl, failed (by simp [Exchange.Phase.state]) (by simp [Exchange.Phase.state])⟩
  | received _ _ stopped =>
    rw [stopped] at enabled
    cases enabled
  | failed _ error =>
    rw [clean] at error
    cases error

theorem usartRx (h : Represents before g x) (err data : UInt8) (bit9 : Bool) (clean : g.mdbFastErrorCode = none) :
    ∃ y, x.next (.usartRx err data bit9) = some y ∧ Represents before (g.usartRx err data bit9) y := by
  obtain ⟨state, sent⟩ := h.state_of_clean clean
  have deaf : x.phase.state ≠ .recv → Represents before (g.usartRx err data bit9)
      ⟨if err ≠ 0 then .failed .uartReadError x.phase.state err
        else .failed .uartReadUnexpected x.phase.state data, x.written⟩ := by
    intro other
    have unheard : g.mdbState ≠ .recv := by rwa [state]
    unfold Gate.usartRx
    simp only
    split
    · exact fastError _ _ state sent
    · rw [if_pos (show g.timer0Stop.mdbState ≠ .recv from unheard)]
      exact fastError _ _ state sent
  cases h with
  | sending | received | repeating => exact ⟨_, rfl, deaf (by simp [Exchange.Phase.state])⟩
  | @receiving written got at_ retry h =>
    refine ⟨_, rfl, ?_⟩
    unfold Gate.usartRx
    simp only
    split
    · exact fastError _ _ at_ sent
    · rw [if_neg (not_not.mpr (show g.timer0Stop.mdbState = .recv from at_))]
      split
      next last => exact .received rfl retry rfl rfl ⟨h.clean, h.txb80, h.udrie0, h.txcie0, h.sent, h.stored, h.sum⟩
      next more =>
        have length : g.mdbIn.length = got.length := by rw [← h.stored, Buffer.stored_length]
        by_cases room : got.length < mdbPacketSize
        · obtain ⟨mdbIn, appended, stored⟩ := Buffer.append_of_room (b := g.mdbIn) data (by omega)
          rw [if_pos room]
          have grown : g.timer0Stop.mdbIn.append data = some mdbIn := appended
          simp only [grown]
          refine .receiving at_ retry ⟨h.clean, h.txb80, h.udrie0, h.txcie0, h.sent, ?_, ?_⟩
          · rw [← h.stored]
            exact stored
          · change g.mdbInChecksum + data = _
            rw [Gate.memsum_append, h.sum]
        · have fits := g.mdbIn.fits
          have full : g.mdbIn.length = mdbPacketSize := by omega
          have refused : g.timer0Stop.mdbIn.append data = none := by
            unfold Buffer.append
            rw [dif_pos (show mdbPacketSize < g.timer0Stop.mdbIn.length + 1 by change _ < g.mdbIn.length + 1; omega)]
          rw [if_neg room]
          simp only [refused]
          have info : UInt8.ofNat mdbPacketSize = UInt8.ofNat g.mdbIn.length := by rw [full]
          rw [info]
          exact fastError _ _ at_ sent
  | failed _ error =>
    rw [clean] at error
    cases error

/-- `mdb_step` carries the exchange on, or it ends it with the verdict. -/
inductive Steps (before : List (UInt8 × Bool)) (x : Exchange) (g : Gate) : Gate → Prop
  | goesOn {g' : Gate} {y : Exchange} (next : x.next .mdbStep = some y) (h : Represents before g' y) :
      Steps before x g g'
  | ends {header : Response} {data : List UInt8} {g₀ g₁ : Gate} (verdict : x.verdict = some (header, data))
      (queues : g₀.queues = g.queues) (sent : g₀.history.sent = g.history.sent ++ x.acknowledges)
      (puts : Puts header data g₀ g₁) : Steps before x g g₁.mdbReset

theorem mdbStep_waits (clean : g.mdbFastErrorCode = none) (other : g.mdbState ≠ .recvEnd) : g.mdbStep = g := by
  unfold Gate.mdbStep
  rw [clean]
  simp only

theorem mdbStep_received {written : List (UInt8 × Bool)} {got : List UInt8} {last : UInt8}
    (state : g.mdbState = .recvEnd) (retry : g.mdbStateRetry = false) (byte : g.mdbInLastByte = last)
    (h : Receiving before written got g) : Steps before ⟨.received got last, written⟩ g g.mdbStep := by
  have length : g.mdbIn.length = 0 ↔ got = [] := by
    rw [← Buffer.stored_length, h.stored, List.length_eq_zero_iff]
  unfold Gate.mdbStep
  simp only [h.clean, state]
  split
  next empty =>
    have nothing := length.mp empty
    have silent : g.history.sent = g.history.sent ++ Exchange.acknowledges ⟨.received got last, written⟩ := by
      simp [Exchange.acknowledges, nothing]
    split
    next ack =>
      refine .ends ?_ rfl silent (Gate.masterOut1_puts .mdbSuccess g)
      simp [Exchange.verdict, nothing, ← byte, ack]
    next other =>
      split
      next nak =>
        refine .ends ?_ rfl silent (Gate.masterOut2_puts .mdbNak _ g)
        rw [byte] at other nak
        simp only [Exchange.verdict, nothing, ↓reduceIte, if_neg other, if_pos nak, byte]
      next unknown =>
        refine .ends ?_ rfl silent (Gate.masterOut2_puts .mdbInvalidEnd _ g)
        simp [Exchange.verdict, nothing, ← byte, other, unknown]
  next filled =>
    have some_data : got ≠ [] := fun nothing => filled (length.mpr nothing)
    rw [byte, h.sum]
    split
    next wrong =>
      rw [if_neg (by simp [retry])]
      have ret : g.history.sent ++ [(mdbRet, g.txb80)] = before ++ (written ++ [(mdbRet, false)]) := by
        rw [h.sent, h.txb80, List.append_assoc]
      refine .goesOn ?_ (.repeating state rfl ⟨h.clean, h.txb80, h.udrie0, h.txcie0, ret, rfl, rfl⟩)
      simp [Exchange.next, some_data, wrong]
    next right =>
      have same : last = Gate.memsum got := not_not.mp right
      have ack : (g.setUdr0 mdbAck).history.sent = g.history.sent ++
        Exchange.acknowledges ⟨.received got last, written⟩ := by
        simp [Gate.setUdr0, h.txb80, Exchange.acknowledges, some_data]
      have fits := g.mdbIn.fits
      have stored := g.mdbIn.stored_length
      simp only [mdbPacketSize] at fits
      have short : g.mdbIn.stored.length ≤ 252 := by omega
      have kept : (g.setUdr0 mdbAck).mdbIn.stored = got := h.stored
      refine @Steps.ends _ _ _ _ _ (g.setUdr0 mdbAck) _ ?_ rfl ack (Gate.masterOutN_puts .mdbSuccess _ short)
      rw [kept]
      simp [Exchange.verdict, some_data, ← same]

theorem mdbStep (h : Represents before g x) : Steps before x g g.mdbStep := by
  have whole := h
  cases h with
  | sending h =>
    rw [mdbStep_waits h.clean (by simp [h.state])]
    exact .goesOn rfl whole
  | receiving state _ h =>
    rw [mdbStep_waits h.clean (by simp [state])]
    exact .goesOn rfl whole
  | received state retry _ byte h => exact mdbStep_received state retry byte h
  | @repeating written state ack h =>
    have empty : g.mdbIn.length = 0 := by
      rw [← Buffer.stored_length, h.stored]
      rfl
    have finish : g.mdbStep = g.mdbFinish1 .mdbSuccess := by
      unfold Gate.mdbStep
      simp [h.clean, state, empty, ack]
    rw [finish]
    exact .ends rfl rfl (by simp [Exchange.acknowledges]) (Gate.masterOut1_puts .mdbSuccess g)
  | @failed _ code _ _ _ error found data =>
    have finish : g.mdbStep = g.mdbFinish3 code g.mdbFastErrorState.code g.mdbFastErrorData := by
      unfold Gate.mdbStep
      rw [error]
    have short : [g.mdbFastErrorState.code, g.mdbFastErrorData].length ≤ 252 := by simp
    rw [finish]
    refine .ends ?_ rfl (by simp [Exchange.acknowledges]) (Gate.masterOutN_puts _ g short)
    simp [Exchange.verdict, found, data]

/-- Every interrupt of the engine that comes before an error is found carries the exchange on. -/
theorem interrupt {e : Event} (h : Represents before g x) (taken : Firmware.step g e = some g')
    (engine : e.mdb = true)
    (other : e ≠ .mdbStep) (clean : g.mdbFastErrorCode = none) : ∃ y, x.next e = some y ∧ Represents before g' y := by
  cases e with
  | twiStep | twi | watchdog => cases engine
  | mdbStep => exact absurd rfl other
  | usartRx err data bit9 =>
    obtain ⟨_, rfl⟩ := enabled_step taken
    exact h.usartRx err data bit9 clean
  | usartUdre =>
    obtain ⟨⟨_, enabled⟩, rfl⟩ := enabled_step taken
    exact h.usartUdre enabled clean
  | usartTx =>
    obtain ⟨⟨_, enabled⟩, rfl⟩ := enabled_step taken
    exact h.usartTx enabled clean
  | timer0Ovf =>
    obtain ⟨⟨_, enabled⟩, rfl⟩ := enabled_step taken
    exact h.timer0Ovf enabled clean

/-- Every event of the engine that comes while the exchange lasts carries it on. -/
theorem step {e : Event} (h : Represents before g x) (taken : Firmware.step g e = some g') (engine : e.mdb = true)
    (lasts : g'.mdbState ≠ .idle) (calm : e = .mdbStep ∨ g.mdbFastErrorCode = none) :
    ∃ y, x.next e = some y ∧ Represents before g' y := by
  by_cases main : e = .mdbStep
  · subst main
    obtain ⟨_, rfl⟩ := enabled_step taken
    have steps := h.mdbStep
    generalize g.mdbStep = g' at steps lasts
    cases steps with
    | goesOn next h => exact ⟨_, next, h⟩
    | ends => exact absurd rfl lasts
  · exact h.interrupt taken engine main (calm.resolve_left main)

end Represents

/-- The exchange lasts, and no interrupt of the engine comes between an error and the
`mdb_step` that answers it. -/
def Undisturbed (g : Gate) (m : Meanwhile) (g' : Gate) : Prop :=
  g'.mdbState ≠ .idle ∧ (m.interrupt.isSome = true → g.mdbFastErrorCode = none)

instance (g : Gate) (m : Meanwhile) (g' : Gate) : Decidable (Undisturbed g m g') :=
  inferInstanceAs (Decidable (_ ∧ (_ → _)))

theorem represents_of_begins {env : Surroundings} {c : Call} (h : c.Begins env) (some_data : 1 ≤ (c.data env).length)
    (fits : (c.data env).length ≤ 35) (off : c.gate.txcie0 = false) :
    Represents c.gate.history.sent (c.result env).1 (.start (c.data env)) := by
  have stored := c.gate.mdbBlock_stored (c.data env)
  rw [if_pos fits] at stored
  have two : 2 ≤ (c.gate.mdbBlock (c.data env)).stored.length := by
    rw [stored, List.length_append, List.length_singleton]
    omega
  have sending := h.sending two off
  have sender := h.sender
  simp only [Gate.sender, Prod.mk.injEq] at sender
  have used : (c.result env).1.mdbOut.used = 1 := by rw [sender.2.2.2.2.2.1]
  have retry : (c.result env).1.mdbStateRetry = false := by
    rw [Call.result_of_accepts h.accepted, Gate.mdbTransactionSimple_of_idle _ _ h.accepted.2, h.ready]
    have same := (Gate.masterOut1_puts .mdbStarted
      (Gate.mdbStartSend true { c.gate with mdbOut := c.gate.mdbBlock (c.data env) })).mdb
    simp only [Gate.mdb, Prod.mk.injEq] at same
    exact same.2.2.2.2.1
  have begun := Represents.sending sending retry
  rw [stored, used] at begun
  exact begun

theorem step_of_engine {g g' : Gate} {m : Meanwhile} {e : Event} (taken : m.during g = some g')
    (engine : m.engine = some e) : step g e = some g' ∧ e.mdb = true := by
  cases m with
  | call => cases engine
  | event e' =>
    obtain ⟨mdb, same⟩ := Option.ite_none_right_eq_some.mp engine
    cases same
    cases e with
    | watchdog => cases mdb
    | _ => exact ⟨taken, mdb⟩

/-- As long as the exchange lasts, the gate is where the events of the engine alone take it:
TWI interrupts, turns of the main loop and other commands, in whatever order, make no difference. -/
theorem represents_along {env : Surroundings} {c : Call} {ms : List Meanwhile} {g : Gate} (h : c.Begins env)
    (some_data : 1 ≤ (c.data env).length) (fits : (c.data env).length ≤ 35) (off : c.gate.txcie0 = false)
    (run : Runs.run Meanwhile.during (c.result env).1 ms = some g)
    (undisturbed : Runs.Along Meanwhile.during Undisturbed (c.result env).1 ms) :
    ∃ x, Runs.run Exchange.next (.start (c.data env)) (ms.filterMap Meanwhile.engine) = some x ∧
      Represents c.gate.history.sent g x := by
  refine Runs.refines_run ?_ ?_ run undisturbed (represents_of_begins h some_data fits off)
  · intro g m g' x taken _ unseen represents
    exact represents.congr (mdb_of_unseen taken unseen represents.busy)
  · intro g m g' e x taken undisturbed seen represents
    obtain ⟨lasts, calm⟩ := undisturbed
    obtain ⟨stepped, mdb⟩ := step_of_engine taken seen
    refine represents.step stepped mdb lasts ?_
    by_cases main : e = .mdbStep
    · exact Or.inl main
    · refine Or.inr (calm ?_)
      rw [Meanwhile.interrupt, seen]
      cases e with
      | mdbStep => exact absurd rfl main
      | _ => rfl

/-- The response is appended to `master_out`, or where it has no room a `Buffer_Overflow`
overwrites `twi_out`. -/
def Gate.Answers (g : Gate) (r : Response × List UInt8) (g' : Gate) : Prop :=
  g.masterOut.length + (3 + r.2.length) ≤ responseMaxLength ∧
      g'.masterOut.stored = g.masterOut.stored ++ packet r.1 r.2 ∧ g'.twiOut = g.twiOut ∧
      g'.history.emitted = g.history.emitted ++ [r] ∨
    responseMaxLength < g.masterOut.length + (3 + r.2.length) ∧
      g'.masterOut = g.masterOut ∧ (∃ n, g'.twiOut.stored = packet .bufferOverflow [n]) ∧
      g'.history.emitted = g.history.emitted

/-- The response is appended to `master_out`, and what `twi_out` holds stays. -/
structure Gate.Delivers (g : Gate) (r : Response × List UInt8) (g' : Gate) : Prop where
  masterOut : g'.masterOut.stored = g.masterOut.stored ++ packet r.1 r.2
  twiOut : g'.twiOut = g.twiOut
  emitted : g'.history.emitted = g.history.emitted ++ [r]

theorem Gate.Answers.delivers {g g' : Gate} {r : Response × List UInt8} (h : g.Answers r g')
    (room : g.masterOut.length + (3 + r.2.length) ≤ responseMaxLength) : g.Delivers r g' := by
  rcases h with ⟨_, masterOut, twiOut, emitted⟩ | ⟨full, _⟩
  · exact ⟨masterOut, twiOut, emitted⟩
  · omega

theorem answers_of_puts {header : Response} {data : List UInt8} {g g₀ g' : Gate} (queues : g₀.queues = g.queues)
    (puts : Puts header data g₀ g') : g.Answers (header, data) g'.mdbReset := by
  simp only [Gate.queues, Prod.mk.injEq] at queues
  obtain ⟨masterOut, twiOut, emitted⟩ := queues
  cases puts with
  | fits room stored =>
    rw [masterOut] at room stored
    refine Or.inl ⟨room, stored, twiOut, ?_⟩
    change g₀.history.emitted ++ _ = _
    rw [emitted]
  | @overflows n full =>
    rw [masterOut] at full
    refine Or.inr ⟨full, masterOut, ⟨n, ?_⟩, emitted⟩
    change (g₀.twiOut.copy [4, Response.bufferOverflow.code, n,
      crc8P93_3b 4 Response.bufferOverflow.code n]).stored = _
    rw [Buffer.copy_stored (by simp [responseMaxLength])]
    rfl

/-- What a transaction comes to is the verdict on the events of the engine alone. -/
theorem ends_with_verdict {env : Surroundings} {c : Call} {ms : List Meanwhile} {g g' : Gate} (h : c.Begins env)
    (some_data : 1 ≤ (c.data env).length) (fits : (c.data env).length ≤ 35) (off : c.gate.txcie0 = false)
    (run : Runs.run Meanwhile.during (c.result env).1 ms = some g)
    (undisturbed : Runs.Along Meanwhile.during Undisturbed (c.result env).1 ms)
    (last : step g .mdbStep = some g') (ends : g'.mdbState = .idle) :
    ∃ x r, Runs.run Exchange.next (.start (c.data env)) (ms.filterMap Meanwhile.engine) = some x ∧
      x.verdict = some r ∧ g.Answers r g' ∧
      g'.history.sent = c.gate.history.sent ++ x.written ++ x.acknowledges := by
  obtain ⟨x, line, represents⟩ := represents_along h some_data fits off run undisturbed
  obtain ⟨_, rfl⟩ := enabled_step last
  have before : g.history.sent = c.gate.history.sent ++ x.written := by
    cases represents with
    | sending h => exact h.sent
    | receiving _ _ h | received _ _ _ _ h | repeating _ _ h => exact h.sent
    | failed _ _ _ _ sent => exact sent
  have steps := represents.mdbStep
  generalize g.mdbStep = g' at steps ends ⊢
  cases steps with
  | goesOn _ h => exact absurd ends h.busy
  | @ends header data g₀ g₁ verdict queues sent puts =>
    refine ⟨x, (header, data), line, verdict, answers_of_puts queues puts, ?_⟩
    have written : g₁.history.sent = g₀.history.sent := by cases puts <;> rfl
    change g₁.history.sent = _
    rw [written, sent, before]

/-- POLL, with an unknown command of the master while it goes out. -/
def pollSent : List Meanwhile :=
  [.event .mdbStep, .event .usartUdre, .event (.twi .srSlaAck 0), .event (.twi .srDataAck 3),
    .event (.twi .srDataAck 0x7f), .event (.twi .srDataAck 0x30), .event (.twi .srStop 0), .event .usartTx,
    .event (.twiStep ⟨fun _ => 0, fun _ => true, 100⟩)]

def pollAcknowledged : List Meanwhile :=
  pollSent ++ [.event (.usartRx 0 0 true)]

theorem ends_with_verdict_poll :
    ∃ g g' : Gate, ∃ x r,
      Runs.run Meanwhile.during (Call.result ⟨fun _ => 0, fun _ => true, 100⟩ ⟨received [4, 0x08, 0x0b, 107], 0, 0⟩).1
        pollAcknowledged = some g ∧
      step g .mdbStep = some g' ∧
      Runs.run Exchange.next (.start [0x0b]) (pollAcknowledged.filterMap Meanwhile.engine) = some x ∧
      x.verdict = some r ∧ g.Answers r g' ∧
      g'.history.sent = [] ++ x.written ++ x.acknowledges := by
  have runs : ((Runs.run Meanwhile.during (Call.result ⟨fun _ => 0, fun _ => true, 100⟩
      ⟨received [4, 0x08, 0x0b, 107], 0, 0⟩).1 pollAcknowledged).bind fun g =>
        (step g .mdbStep).bind fun g' => if g'.mdbState = .idle then some () else none).isSome := by
    decide +kernel
  obtain ⟨_, ended⟩ := Option.isSome_iff_exists.mp runs
  obtain ⟨g, run, ended⟩ := Option.bind_eq_some_iff.mp ended
  obtain ⟨g', last, ended⟩ := Option.bind_eq_some_iff.mp ended
  have idle : g'.mdbState = .idle := by
    by_contra busy
    rw [if_neg busy] at ended
    cases ended
  have begins : Call.Begins ⟨fun _ => 0, fun _ => true, 100⟩ ⟨received [4, 0x08, 0x0b, 107], 0, 0⟩ :=
    ⟨by decide +kernel, rfl, by decide +kernel, by decide +kernel⟩
  obtain ⟨x, r, line, verdict, answers, sent⟩ := ends_with_verdict begins (by decide +kernel) (by decide +kernel)
    (by decide +kernel) run (by decide +kernel) last idle
  have data : Call.data ⟨fun _ => 0, fun _ => true, 100⟩ ⟨received [4, 0x08, 0x0b, 107], 0, 0⟩ = [0x0b] :=
    by decide +kernel
  have quiet : (received [4, 0x08, 0x0b, 107]).history.sent = [] := by decide +kernel
  rw [data] at line
  rw [quiet] at sent
  exact ⟨g, g', x, r, run, last, line, verdict, answers, sent⟩

/-- The interrupts that a reply of the data `d` with the last byte `c` comes with. -/
def replying (d : List UInt8) (c : UInt8) : List Event :=
  d.map (fun b => .usartRx 0 b false) ++ [.usartRx 0 c true]

/-- Those of a block that is sent, of which `left` is not written yet, and of its reply. -/
def answering (left d : List UInt8) (c : UInt8) : List Event :=
  List.replicate left.length .usartUdre ++ .usartTx :: replying d c

/-- What an exchange still waits for to end with `total` written and the reply `d`, `c`. -/
inductive Exchange.Due (total : List (UInt8 × Bool)) (d : List UInt8) (c : UInt8) : Exchange → List Event → Prop
  | sending {left : List UInt8} {written : List (UInt8 × Bool)}
      (whole : written ++ left.map (fun b => (b, false)) = total) :
      Due total d c ⟨.sending left, written⟩ (answering left d c)
  | receiving {got more : List UInt8} (whole : got ++ more = d) :
      Due total d c ⟨.receiving got, total⟩ (replying more c)
  | received : Due total d c ⟨.received d c, total⟩ []

namespace Exchange

variable {total : List (UInt8 × Bool)} {d : List UInt8} {c : UInt8} {x : Exchange} {es : List Event}

theorem Due.next {e : Event} (h : Due total d c x (e :: es)) (short : d.length ≤ mdbPacketSize) :
    ∃ y, x.next e = some y ∧ Due total d c y es := by
  generalize whole : e :: es = script at h
  cases h with
  | @sending left written all =>
    cases left with
    | nil =>
      obtain ⟨rfl, rfl⟩ := List.cons.inj whole
      rw [List.map_nil, List.append_nil] at all
      exact ⟨_, rfl, all ▸ .receiving rfl⟩
    | cons b left =>
      rw [answering, List.length_cons, List.replicate_succ, List.cons_append] at whole
      obtain ⟨rfl, rfl⟩ := List.cons.inj whole
      refine ⟨_, rfl, .sending ?_⟩
      rw [← all, List.append_assoc]
      rfl
  | @receiving got more all =>
    cases more with
    | nil =>
      obtain ⟨rfl, rfl⟩ := List.cons.inj whole
      rw [List.append_nil] at all
      exact ⟨_, rfl, all ▸ .received⟩
    | cons b more =>
      obtain ⟨rfl, rfl⟩ := List.cons.inj whole
      have room : got.length < mdbPacketSize := by
        have size := congrArg List.length all
        simp only [List.length_append, List.length_cons] at size
        omega
      refine ⟨⟨.receiving (got ++ [b]), total⟩, ?_, .receiving (by rw [← all]; simp)⟩
      simp [Exchange.next, room]
  | received => cases whole

/-- A turn of the main loop changes nothing before the reply is there. -/
theorem Due.mdbStep {y : Exchange} (h : Due total d c x es) (faultless : d = [] ∨ c = Gate.memsum d)
    (next : x.next .mdbStep = some y) : y = x := by
  cases h with
  | sending | receiving => exact (Option.some.inj next).symm
  | received =>
    simp only [Exchange.next] at next
    split at next
    next wrong =>
      rcases faultless with empty | right
      · exact absurd empty wrong.1
      · exact absurd right wrong.2
    next => cases next

theorem Due.start (data d : List UInt8) (c : UInt8) :
    Due (block data) d c (.start data) (answering data d c) := by
  cases data with
  | nil => exact .sending rfl
  | cons b data =>
    have length : ((b :: data) ++ [Gate.memsum (b :: data)]).drop 1 = data ++ [Gate.memsum (b :: data)] := rfl
    have size : answering (b :: data) d c = answering (data ++ [Gate.memsum (b :: data)]) d c := by
      simp [answering]
    rw [size]
    exact .sending rfl

end Exchange

/-- Only the end of the reply leaves nothing to wait for. -/
theorem Exchange.Due.done {total : List (UInt8 × Bool)} {d : List UInt8} {c : UInt8} {x : Exchange}
    (h : x.Due total d c []) : x = ⟨.received d c, total⟩ := by
  generalize nothing : ([] : List Event) = script at h
  cases h with
  | sending => cases (List.append_eq_nil_iff.mp nothing.symm).2
  | receiving => cases (List.append_eq_nil_iff.mp nothing.symm).2
  | received => rfl

theorem Exchange.Due.clean {before total : List (UInt8 × Bool)} {d : List UInt8} {c : UInt8} {x : Exchange}
    {es : List Event} {g : Gate} (h : x.Due total d c es) (represents : Represents before g x) :
    g.mdbFastErrorCode = none := by
  cases h with
  | sending =>
    cases represents with
    | sending h => exact h.clean
  | receiving =>
    cases represents with
    | receiving _ _ h => exact h.clean
  | received =>
    cases represents with
    | received _ _ _ _ h => exact h.clean

theorem Exchange.Due.verdict {total : List (UInt8 × Bool)} {d : List UInt8} {c : UInt8} {x : Exchange}
    {es : List Event} {r : Response × List UInt8} (h : x.Due total d c es)
    (faultless : d = [] ∧ c = mdbAck ∨ d ≠ [] ∧ c = Gate.memsum d) (ends : x.verdict = some r) :
    es = [] ∧ r = (.mdbSuccess, d) ∧ x = ⟨.received d c, total⟩ := by
  cases h with
  | sending | receiving => cases ends
  | received =>
    refine ⟨rfl, ?_, rfl⟩
    rcases faultless with ⟨empty, ack⟩ | ⟨filled, right⟩
    · simpa [Exchange.verdict, empty, ack] using ends.symm
    · simpa [Exchange.verdict, filled, right] using ends.symm

/-- Where nothing but the interrupts of a faultless reply comes, the exchange goes on to its end. -/
theorem received_of_due {before total : List (UInt8 × Bool)} {d : List UInt8} {c : UInt8} {x : Exchange}
    {g g' : Gate} {ms : List Meanwhile} (short : d.length ≤ mdbPacketSize) (faultless : d = [] ∨ c = Gate.memsum d)
    (h : Represents before g x) (due : x.Due total d c (ms.filterMap Meanwhile.interrupt))
    (run : Runs.run Meanwhile.during g ms = some g')
    (lasts : Runs.Along Meanwhile.during (fun _ _ g' => g'.mdbState ≠ .idle) g ms) :
    Represents before g' ⟨.received d c, total⟩ := by
  induction ms generalizing g x with
  | nil =>
    cases Option.some.inj run
    rwa [due.done] at h
  | cons m ms ih =>
    obtain ⟨g₁, taken, run⟩ := Runs.run_cons.mp run
    obtain ⟨busy, lasts⟩ := lasts g₁ taken
    cases engine : m.engine with
    | none =>
      have unseen : m.interrupt = none := by rw [Meanwhile.interrupt, engine]
      rw [List.filterMap_cons_none unseen] at due
      exact ih (h.congr (mdb_of_unseen taken engine h.busy)) due run lasts
    | some e =>
      obtain ⟨stepped, mdb⟩ := step_of_engine taken engine
      obtain ⟨y, next, goesOn⟩ := h.step stepped mdb busy (Or.inr (due.clean h))
      by_cases main : e = .mdbStep
      · subst main
        have unseen : m.interrupt = none := by rw [Meanwhile.interrupt, engine]
        rw [List.filterMap_cons_none unseen] at due
        -- the exchange stands still, as it may not end yet
        rw [due.mdbStep faultless next] at goesOn
        exact ih goesOn due run lasts
      · have seen : m.interrupt = some e := by
          rw [Meanwhile.interrupt, engine]
          cases e with
          | mdbStep => exact absurd rfl main
          | _ => rfl
        rw [List.filterMap_cons_some seen] at due
        obtain ⟨z, next', due⟩ := due.next short
        cases Option.some.inj (next.symm.trans next')
        exact ih goesOn due run lasts

/-- A peripheral that answers with a faultless block has it delivered, and acknowledged, whatever
the TWI interface and the main loop do in between, if only `master_out` has room for it in the
end. -/
theorem reply_delivered {env : Surroundings} {c : Call} {ms : List Meanwhile} {d : List UInt8} {last : UInt8}
    {g g' : Gate} (h : c.Begins env) (some_data : 1 ≤ (c.data env).length) (fits : (c.data env).length ≤ 35)
    (off : c.gate.txcie0 = false) (short : d.length ≤ mdbPacketSize)
    (faultless : d = [] ∧ last = mdbAck ∨ d ≠ [] ∧ last = Gate.memsum d)
    (run : Runs.run Meanwhile.during (c.result env).1 ms = some g)
    (lasts : Runs.Along Meanwhile.during (fun _ _ g' => g'.mdbState ≠ .idle) (c.result env).1 ms)
    (reply : ms.filterMap Meanwhile.interrupt = answering (c.data env) d last)
    (room : g.masterOut.length + (3 + d.length) ≤ responseMaxLength) (turn : step g .mdbStep = some g') :
    g.Delivers (.mdbSuccess, d) g' ∧
      g'.history.sent = c.gate.history.sent ++ block (c.data env) ++ if d = [] then [] else [(mdbAck, false)] := by
  have faultless' : d = [] ∨ last = Gate.memsum d := by
    rcases faultless with ⟨empty, -⟩ | ⟨-, right⟩
    · exact Or.inl empty
    · exact Or.inr right
  have due := Exchange.Due.start (c.data env) d last
  rw [← reply] at due
  have represents := received_of_due short faultless' (represents_of_begins h some_data fits off) due run lasts
  have before : g.history.sent = c.gate.history.sent ++ block (c.data env) := by
    cases represents with
    | received _ _ _ _ h => exact h.sent
  obtain ⟨_, rfl⟩ := enabled_step turn
  have steps := represents.mdbStep
  generalize g.mdbStep = g' at steps ⊢
  cases steps with
  | goesOn next =>
    have stops := Exchange.Due.received.mdbStep faultless' next
    simp only [Exchange.next] at next
    split at next
    next wrong =>
      cases Option.some.inj next
      cases stops
    next => cases next
  | @ends header data g₀ g₁ verdict queues sent puts =>
    obtain ⟨-, success, -⟩ := Exchange.Due.received.verdict faultless verdict
    obtain ⟨rfl, rfl⟩ := Prod.mk.inj success
    refine ⟨(answers_of_puts queues puts).delivers room, ?_⟩
    have written : g₁.history.sent = g₀.history.sent := by cases puts <;> rfl
    change g₁.history.sent = _
    rw [written, sent, before]
    rfl

/-- POLL, answered with a button that was pressed. -/
def pollAnswered : List Meanwhile :=
  pollSent ++ [.event (.usartRx 0 0x21 false), .event .mdbStep, .event (.usartRx 0 0x21 true)]

theorem reply_delivered_poll :
    ∃ g g' : Gate, g.Delivers (.mdbSuccess, [0x21]) g' ∧
      g'.history.sent = [] ++ block [0x0b] ++ [(mdbAck, false)] := by
  have runs : ((Runs.run Meanwhile.during (Call.result ⟨fun _ => 0, fun _ => true, 100⟩
      ⟨received [4, 0x08, 0x0b, 107], 0, 0⟩).1 pollAnswered).bind fun g =>
        (step g .mdbStep).bind fun g' =>
          if g.masterOut.length + 4 ≤ responseMaxLength then some g' else none).isSome := by
    decide +kernel
  obtain ⟨_, ended⟩ := Option.isSome_iff_exists.mp runs
  obtain ⟨g, run, ended⟩ := Option.bind_eq_some_iff.mp ended
  obtain ⟨g', turn, ended⟩ := Option.bind_eq_some_iff.mp ended
  have room : g.masterOut.length + 4 ≤ responseMaxLength := (Option.ite_none_right_eq_some.mp ended).1
  have begins : Call.Begins ⟨fun _ => 0, fun _ => true, 100⟩ ⟨received [4, 0x08, 0x0b, 107], 0, 0⟩ :=
    ⟨by decide +kernel, rfl, by decide +kernel, by decide +kernel⟩
  have data : Call.data ⟨fun _ => 0, fun _ => true, 100⟩ ⟨received [4, 0x08, 0x0b, 107], 0, 0⟩ = [0x0b] :=
    by decide +kernel
  have quiet : (received [4, 0x08, 0x0b, 107]).history.sent = [] := by decide +kernel
  have reply : pollAnswered.filterMap Meanwhile.interrupt =
      answering (Call.data ⟨fun _ => 0, fun _ => true, 100⟩ ⟨received [4, 0x08, 0x0b, 107], 0, 0⟩) [0x21] 0x21 := by
    rw [data]
    rfl
  have filled : [0x21] ≠ ([] : List UInt8) ∧ (0x21 : UInt8) = Gate.memsum [0x21] := by decide
  obtain ⟨delivers, sent⟩ := reply_delivered begins (by decide +kernel) (by decide +kernel) (by decide +kernel)
    (by decide) (Or.inr filled) run (by decide +kernel) reply room turn
  rw [data, quiet] at sent
  exact ⟨g, g', delivers, sent⟩

end Vender.Firmware
