import Vender.Firmware.Exchange
import Vender.Firmware.Readout
import Vender.Mega.Dispatch

namespace Vender

namespace Firmware

def LinkEvent.interrupt : LinkEvent → Option Event
  | .main e => Meanwhile.interrupt (.event e)
  | _ => none

def LinkEvent.follows : LinkEvent → Bool
  | .address | .clock => true
  | .main (.twi ..) | .main .watchdog => false
  | .main _ => true
  | _ => false

theorem Gate.mdbStep_txcie0 (g : Gate) : g.mdbStep.txcie0 = g.txcie0 := by
  have stepped := g.mdbStep_stepped
  generalize g.mdbStep = g' at stepped ⊢
  cases stepped with
  | answered same puts =>
    rcases same with rfl | ⟨byte, rfl⟩
    · cases puts <;> rfl
    · cases puts <;> rfl
  | ret | wait => rfl

theorem Gate.answerLength_le (g : Gate) : g.answerLength ≤ 3 + mdbPacketSize := by
  have fits := g.mdbIn.fits
  unfold Gate.answerLength
  simp only [mdbPacketSize] at fits ⊢
  repeat' split
  all_goals omega

namespace Link

variable {s t : Link} {done front back : List (Response × List UInt8)} {e : LinkEvent}

inductive Followed (s t : Link) : LinkEvent → Prop
  | unseen {e : LinkEvent} (mdb : t.gate.mdb = s.gate.mdb) (queued : t.queued = s.queued)
      (none : e.interrupt = none) (other : e ≠ .main .mdbStep) : Followed s t e
  | interrupt {e : Event} (taken : Firmware.step s.gate e = some t.gate) (mdb : e.mdb = true)
      (queued : t.queued = s.queued) (some : LinkEvent.interrupt (.main e) = some e) : Followed s t (.main e)
  | turn {g : Gate} (taken : Firmware.step s.gate .mdbStep = some g) (same : t = s.queue s.gate.answerLength g) :
      Followed s t (.main .mdbStep)

theorem followed (h : s.Flows done front back) (moved : s.step e = some t) (follows : e.follows = true) :
    Followed s t e := by
  cases e with
  | out1 | out2 | outN | transaction | busReset => cases follows
  | address =>
    simp only [step] at moved
    split at moved
    next =>
      obtain ⟨g, taken, rfl⟩ := Option.map_eq_some_iff.mp moved
      obtain ⟨_, rfl⟩ := enabled_step taken
      exact .unseen (s.gate.twiVect_mdb ..) rfl rfl (by simp)
    next => cases moved
  | clock =>
    simp only [step] at moved
    split at moved
    next => cases moved
    next bytes reading =>
      split at moved
      · obtain ⟨g, taken, rfl⟩ := Option.map_eq_some_iff.mp moved
        obtain ⟨_, rfl⟩ := enabled_step taken
        exact .unseen (s.gate.twiVect_mdb ..) rfl rfl (by simp)
      · split at moved
        · obtain ⟨g, taken, rfl⟩ := Option.map_eq_some_iff.mp moved
          obtain ⟨_, rfl⟩ := enabled_step taken
          exact .unseen (s.gate.twiVect_mdb ..) rfl rfl (by simp)
        · obtain ⟨g, taken, rfl⟩ := Option.map_eq_some_iff.mp moved
          obtain ⟨_, rfl⟩ := enabled_step taken
          exact .unseen (s.gate.twiVect_mdb ..) rfl rfl (by simp)
  | main e =>
    cases e with
    | twi | watchdog => cases follows
    | twiStep env =>
      obtain ⟨g, taken, rfl⟩ := Option.map_eq_some_iff.mp moved
      obtain ⟨_, rfl⟩ := enabled_step taken
      have only : s.gate.twiStep env = s.gate.swapOut := by
        have none : s.gate.takeCommands env = s.gate := if_pos h.twiIn
        unfold Gate.twiStep
        simp only [none]
        exact if_neg (not_not.mpr h.running)
      have same : s.gate.swapOut.history.emitted = s.gate.history.emitted ∧ s.gate.swapOut.mdb = s.gate.mdb := by
        unfold Gate.swapOut
        split <;> exact ⟨rfl, rfl⟩
      rw [only, queue_same same.1 s.gate.masterOut.fits]
      exact .unseen same.2 rfl rfl (by simp)
    | mdbStep =>
      obtain ⟨g, taken, rfl⟩ := Option.map_eq_some_iff.mp moved
      exact .turn taken rfl
    | usartRx | usartUdre | usartTx | timer0Ovf =>
      obtain ⟨g, taken, rfl⟩ := Option.map_eq_some_iff.mp moved
      obtain ⟨_, queues⟩ := step_frame taken rfl (by simp)
      simp only [Gate.queues, Prod.mk.injEq] at queues
      rw [queue_same queues.2.2 s.gate.masterOut.fits]
      exact .interrupt taken rfl rfl rfl

def Rests (s : Link) : Prop := s.reading = none → s.gate.twiIdle = true

theorem rests_of_driver {g : Gate} {size : Nat} (rests : s.Rests) (same : g.driver = s.gate.driver) :
    (s.queue size g).Rests := by
  intro none
  simp only [Gate.driver, Prod.mk.injEq] at same
  exact same.1.trans (rests none)

theorem rests_step (rests : s.Rests) (moved : s.step e = some t) (follows : e.follows = true) : t.Rests := by
  cases e with
  | out1 | out2 | outN | transaction | busReset => cases follows
  | address =>
    simp only [step] at moved
    split at moved
    next =>
      obtain ⟨g, taken, rfl⟩ := Option.map_eq_some_iff.mp moved
      intro none
      cases none
    next => cases moved
  | clock =>
    simp only [step] at moved
    split at moved
    next => cases moved
    next bytes reading =>
      split at moved
      · obtain ⟨g, taken, rfl⟩ := Option.map_eq_some_iff.mp moved
        obtain ⟨_, rfl⟩ := enabled_step taken
        exact fun _ => rfl
      · split at moved
        · obtain ⟨g, taken, rfl⟩ := Option.map_eq_some_iff.mp moved
          intro none
          cases none
        · obtain ⟨g, taken, rfl⟩ := Option.map_eq_some_iff.mp moved
          obtain ⟨_, rfl⟩ := enabled_step taken
          exact fun _ => rfl
  | main e =>
    cases e with
    | twi | watchdog => cases follows
    | twiStep env =>
      obtain ⟨g, taken, rfl⟩ := Option.map_eq_some_iff.mp moved
      obtain ⟨_, rfl⟩ := enabled_step taken
      exact rests_of_driver rests (s.gate.twiStep_driver env)
    | mdbStep | usartRx | usartUdre | usartTx | timer0Ovf =>
      obtain ⟨g, taken, rfl⟩ := Option.map_eq_some_iff.mp moved
      exact rests_of_driver rests (Gate.bus_driver (step_bus taken rfl))

theorem Flows.masterOut_le (h : s.Flows done front back) : s.gate.masterOut.length ≤ (bytesOf s.queued).length := by
  rw [h.queued, ← Buffer.stored_length, h.back, bytesOf, bytesOf, List.flatMap_append, List.length_append]
  omega

end Link

end Firmware

namespace Mega

open Firmware

section Request

variable {env : Surroundings} {c : Call} {rq : List UInt8}

theorem command_of_stands (h : c.At) (nonempty : rq ≠ []) (stands : frame rq <+: c.rest) :
    c.command env = Command.ofByte (rq.headD 0) := by
  have short := frame_bound stands
  have header : 0 < rq.length := List.length_pos_iff.mpr nonempty
  have byte := lengthByte_toNat stands
  have length := @peek_length env c rq stands
  have crc := (congrArg (crc8P93N 0) (@peek_body env c rq stands)).trans (@peek_crc env c rq stands).symm
  have fits : ¬ UInt8.ofNat (rq.length + 2) > c.maxLength := by
    rw [gt_iff_lt, UInt8.lt_iff_toNat_lt, h.maxLength, byte]
    omega
  unfold Call.command
  simp only [h.not_short (by omega : 3 ≤ c.rest.length), Int.add_zero, length, fits, crc, ne_eq, not_true_eq_false,
    ↓reduceIte, peek_header stands nonempty]

theorem data_of_stands (nonempty : rq ≠ []) (stands : frame rq <+: c.rest) : c.data env = rq.tail := by
  unfold Call.data
  simp only [Int.add_zero, peek_length stands]
  exact peek_data stands nonempty

end Request

/-- Between two transactions: nothing to send, to receive or to read. -/
structure AtRest (g : Gate) : Prop where
  running : g.mode = .running
  idle : g.mdbState = .idle
  clean : g.mdbFastErrorCode = none
  txcie0 : g.txcie0 = false
  twiIdle : g.twiIdle = true
  listens : g.twcr &&& 0x40 ≠ 0
  masterOut : g.masterOut.length = 0
  twiOut : g.twiOut.length = 0
  used : g.twiOut.used = 0

theorem busEvents_oneWrite (sla stop : UInt8) (bs : List UInt8) :
    busEvents (oneWrite sla bs stop) = oneWrite sla bs stop := by
  unfold busEvents
  rw [List.filter_eq_self]
  intro e mem
  simp only [oneWrite, List.mem_cons, List.mem_append, List.mem_map, List.not_mem_nil, or_false] at mem
  rcases mem with rfl | ⟨_, _, rfl⟩ | rfl <;> rfl

theorem written_of_oneWrite {g g' : Gate} {bs : List UInt8} {sla stop : UInt8}
    (h : Runs.run Firmware.step g (oneWrite sla bs stop) = some g') :
    g'.mdb = g.mdb ∧ g'.queues = g.queues ∧ g'.twiIdle = true ∧ g'.twcr &&& 0x40 ≠ 0 := by
  have kept : g'.mdb = g.mdb ∧ g'.queues = g.queues := by
    refine Runs.invariant_of_run (I := fun t => t.mdb = g.mdb ∧ t.queues = g.queues)
      (C := fun _ e _ => e ∈ oneWrite sla bs stop) ?_ ⟨rfl, rfl⟩ (Runs.along_of_forall_mem (fun _ mem => mem) g) h
    intro s e t taken same mem
    simp only [oneWrite, List.mem_cons, List.mem_append, List.mem_map, List.not_mem_nil, or_false] at mem
    rcases mem with rfl | ⟨_, _, rfl⟩ | rfl
    · obtain ⟨_, rfl⟩ := enabled_step taken
      exact same
    · obtain ⟨_, rfl⟩ := enabled_step taken
      exact same
    · obtain ⟨_, rfl⟩ := enabled_step taken
      exact same
  obtain ⟨before, _, stopped⟩ := Runs.run_append.mp (show Runs.run Firmware.step g
    ((.twi .srSlaAck sla :: bs.map (Event.twi .srDataAck)) ++ [.twi .srStop stop]) = some g' from h)
  obtain ⟨_, taken, last⟩ := Runs.run_cons.mp stopped
  obtain ⟨_, rfl⟩ := enabled_step taken
  cases Option.some.inj last
  have listens : (0x80 ||| 0x40 ||| 0x04 ||| 0x01 : UInt8) &&& 0x40 ≠ 0 := by decide
  exact ⟨kept.1, kept.2, rfl, listens⟩

/-- What the turn of the main loop leaves that takes the request: the transfer has begun, and
`MDB_Started` stands in `twi_out`. -/
structure Begun (env : Surroundings) (g : Gate) (rq : List UInt8) (g' : Gate) : Prop where
  begins : Call.Begins env ⟨g, 0, 0⟩
  data : Call.data env ⟨g, 0, 0⟩ = rq
  mdb : g'.mdb = (Call.result env ⟨g, 0, 0⟩).1.mdb
  running : g'.mode = .running
  driver : g'.driver = g.driver
  twiIn : g'.twiIn.length = 0
  masterOut : g'.masterOut.length = 0
  used : g'.twiOut.used = 0
  started : g'.twiOut.stored = packet .mdbStarted []
  emitted : g'.history.emitted = g.history.emitted ++ [(.mdbStarted, [])]

theorem begun_of_stored {env : Surroundings} {g : Gate} {rq : List UInt8} (running : g.mode = .running)
    (idle : g.mdbState = .idle) (clean : g.mdbFastErrorCode = none) (masterOut : g.masterOut.length = 0)
    (twiOut : g.twiOut.length = 0) (used : g.twiOut.used = 0) (stored : g.twiIn.stored = frame (0x08 :: rq))
    (ready : env.sendReady 0 = true) (patience : 1 ≤ env.patience) : Begun env g rq (g.twiStep env) := by
  have at_ : Call.At ⟨g, 0, 0⟩ := ⟨rfl, Nat.zero_le _, running⟩
  have rest : Call.rest ⟨g, 0, 0⟩ = frame (0x08 :: rq) := stored
  have stands : frame (0x08 :: rq) <+: Call.rest ⟨g, 0, 0⟩ := by rw [rest]
  have some_header : (0x08 :: rq : List UInt8) ≠ [] := by simp
  have command : Call.command env ⟨g, 0, 0⟩ = some .mdbTransactionSimple := command_of_stands at_ some_header stands
  have begins : Call.Begins env ⟨g, 0, 0⟩ := ⟨⟨command, idle⟩, ready, running, clean⟩
  have data : Call.data env ⟨g, 0, 0⟩ = rq := data_of_stands some_header stands
  have size : g.twiIn.length = rq.length + 3 := by rw [← Buffer.stored_length, stored, frame_length, List.length_cons]
  have last : Call.Last env ⟨g, 0, 0⟩ := by
    have returns : Command.ofByte 0x08 ≠ some .reset ∧ Command.ofByte 0x08 ≠ some .flash := by decide
    refine (last_iff_of_stands at_ some_header stands returns).mpr ?_
    rw [rest, frame_length]
  obtain ⟨turns, patience⟩ : ∃ n, env.patience = n + 1 := ⟨env.patience - 1, by omega⟩
  have loop : g.packetLoop env env.patience 0 0 = (Call.result env ⟨g, 0, 0⟩).1 := by
    rw [patience]
    exact (Call.packetLoop_succ env turns ⟨g, 0, 0⟩).trans (if_pos last)
  have puts := Gate.masterOut1_puts .mdbStarted (Gate.mdbStartSend true { g with mdbOut := g.mdbBlock rq })
  have result : (Call.result env ⟨g, 0, 0⟩).1 =
      (Gate.mdbStartSend true { g with mdbOut := g.mdbBlock rq }).masterOut1 .mdbStarted := by
    rw [Call.result_of_accepts begins.accepted, Gate.mdbTransactionSimple_of_idle _ _ idle, ready, data]
  have running' : (Call.result env ⟨g, 0, 0⟩).1.mode = .running := by
    rw [result, puts.mode]
    exact running
  have taken : g.takeCommands env =
      { (Call.result env ⟨g, 0, 0⟩).1 with twiIn := (Call.result env ⟨g, 0, 0⟩).1.twiIn.clearFast } := by
    have some_bytes : ¬ g.twiIn.length = 0 := by omega
    have more_bytes : ¬ g.twiIn.length = 1 := by omega
    unfold Gate.takeCommands
    simp only [if_neg some_bytes, if_neg more_bytes, loop]
    exact if_neg (not_not.mpr running')
  have room : g.masterOut.length + (3 + ([] : List UInt8).length) ≤ Firmware.responseMaxLength := by
    rw [masterOut]
    exact Nat.le_of_ble_eq_true rfl
  have stored' : (Call.result env ⟨g, 0, 0⟩).1.masterOut.stored = packet .mdbStarted [] := by
    rw [result, puts.stored room,
      show (Gate.mdbStartSend true { g with mdbOut := g.mdbBlock rq }).masterOut.stored = _
      from Buffer.stored_of_empty masterOut, List.nil_append]
  have filled : (Call.result env ⟨g, 0, 0⟩).1.masterOut.length = 3 := by
    rw [← Buffer.stored_length, stored']
    rfl
  have twiOut' : (Call.result env ⟨g, 0, 0⟩).1.twiOut = g.twiOut := by
    rw [result, puts.twiOut_of_room room]
    rfl
  have swapped : g.twiStep env =
      { (Call.result env ⟨g, 0, 0⟩).1 with
        twiIn := (Call.result env ⟨g, 0, 0⟩).1.twiIn.clearFast
        twiOut := { (Call.result env ⟨g, 0, 0⟩).1.masterOut with used := 0 }
        masterOut := (Call.result env ⟨g, 0, 0⟩).1.twiOut.clearFull } := by
    unfold Gate.twiStep
    simp only [taken]
    rw [if_neg (not_not.mpr running')]
    refine if_pos ⟨?_, ?_⟩
    · show (Call.result env ⟨g, 0, 0⟩).1.twiOut.length ≤ (Call.result env ⟨g, 0, 0⟩).1.twiOut.used
      rw [twiOut', twiOut, used]
    · show 0 < (Call.result env ⟨g, 0, 0⟩).1.masterOut.length
      omega
  have driver : (Call.result env ⟨g, 0, 0⟩).1.driver = g.driver := by
    rw [result, puts.driver]
    rfl
  have emitted : (Call.result env ⟨g, 0, 0⟩).1.history.emitted = g.history.emitted ++ [(.mdbStarted, [])] := by
    rw [result, puts.emitted_of_room room]
    rfl
  rw [swapped]
  exact ⟨begins, data, rfl, running', driver, rfl, rfl, rfl, stored', emitted⟩

/-- The exchange goes on, and the interrupts `script` are still to come. -/
structure Underway (before total : List (UInt8 × Bool)) (d : List UInt8) (last : UInt8) (s : Link)
    (script : List Event) : Prop where
  flows : s.Inv
  queued : s.queued = [(.mdbStarted, [])]
  rests : s.Rests
  exchange : ∃ x, Represents before s.gate x ∧ x.Due total d last script

structure Answered (before total : List (UInt8 × Bool)) (d : List UInt8) (s : Link) : Prop where
  flows : s.Inv
  queued : s.queued = [(.mdbStarted, []), (.mdbSuccess, d)]
  rests : s.Rests
  idle : s.gate.mdbState = .idle
  clean : s.gate.mdbFastErrorCode = none
  txcie0 : s.gate.txcie0 = false
  sent : s.gate.history.sent = before ++ total ++ if d = [] then [] else [(mdbAck, false)]

section Run

variable {before total : List (UInt8 × Bool)} {d : List UInt8} {last : UInt8} {s t : Link} {es : List LinkEvent}

/-- With no more than `MDB_Started` before it, every answer of the engine has room. -/
theorem fits_of_follows {e : LinkEvent} (inv : s.Inv) (follows : e.follows = true)
    (short : e = .main .mdbStep → (Link.bytesOf s.queued).length ≤ 3) : s.Fits e := by
  cases e with
  | out1 | out2 | outN | transaction | busReset => cases follows
  | address | clock => exact trivial
  | main e =>
    cases e with
    | mdbStep =>
      obtain ⟨_, _, _, flows⟩ := inv
      have back := flows.masterOut_le
      have answer := s.gate.answerLength_le
      have three := short rfl
      show s.gate.masterOut.length + s.gate.answerLength ≤ 80
      simp only [mdbPacketSize] at answer
      omega
    | _ => exact trivial

theorem Answered.run (h : Answered before total d s) (follows : ∀ e ∈ es, e.follows = true)
    (quiet : es.filterMap LinkEvent.interrupt = []) (run : Runs.run Link.step s es = some t) :
    Answered before total d t := by
  induction es generalizing s with
  | nil =>
    cases Option.some.inj run
    exact h
  | cons e es ih =>
    obtain ⟨s₁, moved, run⟩ := Runs.run_cons.mp run
    obtain ⟨this, later⟩ := List.forall_mem_cons.mp follows
    obtain ⟨_, _, _, flows⟩ := h.flows
    have followed := Link.followed flows moved this
    have busy : e ≠ .main .mdbStep := by
      rintro rfl
      cases followed with
      | unseen _ _ _ other => exact other rfl
      | interrupt _ _ _ some => cases some
      | turn taken =>
        obtain ⟨⟨_, busy⟩, _⟩ := enabled_step taken
        exact busy h.idle
    have inv := Link.inv_step moved h.flows (fits_of_follows h.flows this fun main => absurd main busy)
    have rests := Link.rests_step h.rests moved this
    cases followed with
    | unseen mdb queued none =>
      rw [List.filterMap_cons_none none] at quiet
      simp only [Gate.mdb, Gate.sender, Prod.mk.injEq] at mdb
      obtain ⟨⟨state, code, _, _, txcie0, _, sent⟩, _⟩ := mdb
      exact ih ⟨inv, queued.trans h.queued, rests, state.trans h.idle, code.trans h.clean, txcie0.trans h.txcie0,
        sent.trans h.sent⟩ later quiet run
    | interrupt _ _ _ some =>
      rw [List.filterMap_cons_some some] at quiet
      cases quiet
    | turn => exact absurd rfl busy

/-- While it is under way, what comes is a step of the exchange, or leaves it alone, and in the
end `mdb_step` finds the reply complete. -/
theorem Underway.run (h : Underway before total d last s (es.filterMap LinkEvent.interrupt))
    (short : d.length ≤ mdbPacketSize) (faultless : d = [] ∧ last = mdbAck ∨ d ≠ [] ∧ last = Gate.memsum d)
    (follows : ∀ e ∈ es, e.follows = true) (run : Runs.run Link.step s es = some t) :
    Underway before total d last t [] ∨ Answered before total d t := by
  induction es generalizing s with
  | nil =>
    cases Option.some.inj run
    exact Or.inl h
  | cons e es ih =>
    obtain ⟨s₁, moved, goesOn⟩ := Runs.run_cons.mp run
    obtain ⟨this, later⟩ := List.forall_mem_cons.mp follows
    obtain ⟨_, _, _, flows⟩ := h.flows
    obtain ⟨x, represents, due⟩ := h.exchange
    have room := fits_of_follows h.flows this fun _ => by rw [h.queued]; exact Nat.le_refl 3
    have inv := Link.inv_step moved h.flows room
    have rests := Link.rests_step h.rests moved this
    cases Link.followed flows moved this with
    | unseen mdb queued none =>
      rw [List.filterMap_cons_none none] at due
      exact ih ⟨inv, queued.trans h.queued, rests, x, represents.congr mdb, due⟩ later goesOn
    | interrupt taken mdb queued some =>
      rw [List.filterMap_cons_some some] at due
      have other : ∀ e', Event.mdbStep = e' → LinkEvent.interrupt (.main e') = none := by
        rintro _ rfl
        rfl
      obtain ⟨y, next, represents⟩ := represents.interrupt taken mdb
        (fun main => by rw [other _ main.symm] at some; cases some) (due.clean represents)
      obtain ⟨z, next', due⟩ := due.next short
      cases Option.some.inj (next.symm.trans next')
      exact ih ⟨inv, queued.trans h.queued, rests, y, represents, due⟩ later goesOn
    | @turn g taken same =>
      obtain ⟨_, rfl⟩ := enabled_step taken
      rw [List.filterMap_cons_none rfl] at due
      have stepped := s.gate.mdbStep_stepped
      have steps := represents.mdbStep
      have txcie0 := s.gate.mdbStep_txcie0
      have faultless' : d = [] ∨ last = Gate.memsum d := by
        rcases faultless with ⟨empty, -⟩ | ⟨-, right⟩
        · exact Or.inl empty
        · exact Or.inr right
      generalize s.gate.mdbStep = g' at stepped steps txcie0 same
      cases steps with
      | goesOn next represents =>
        rw [due.mdbStep faultless' next] at represents
        have emitted : g'.history.emitted = s.gate.history.emitted := by
          cases stepped with
          | answered => exact absurd rfl represents.busy
          | ret | wait => rfl
        rw [Link.queue_same emitted room] at same
        subst same
        exact ih ⟨inv, h.queued, rests, x, represents, due⟩ later goesOn
      | @ends header data g₀ g₁ verdict queues sent puts =>
        obtain ⟨quiet, success, rfl⟩ := due.verdict faultless verdict
        obtain ⟨rfl, rfl⟩ := Prod.mk.inj success
        obtain ⟨off, before'⟩ : s.gate.txcie0 = false ∧ s.gate.history.sent = before ++ total := by
          cases represents with
          | received _ _ _ _ h => exact ⟨h.txcie0, h.sent⟩
        have back := flows.masterOut_le
        rw [h.queued] at back
        have few : s.gate.masterOut.length ≤ 3 := back
        have emitted : g₁.mdbReset.history.emitted = s.gate.history.emitted ++ [(.mdbSuccess, data)] := by
          refine ((answers_of_puts queues puts).delivers ?_).emitted
          simp only [mdbPacketSize, Firmware.responseMaxLength] at short ⊢
          omega
        have written : g₁.mdbReset.history.sent = g₀.history.sent := by cases puts <;> rfl
        rw [Link.queue_grown emitted room] at same
        subst same
        refine Or.inr (Answered.run ⟨inv, ?_, rests, rfl, rfl, txcie0.trans off, ?_⟩ later quiet goesOn)
        · show s.queued ++ _ = _
          rw [h.queued]
          rfl
        · show g₁.mdbReset.history.sent = _
          rw [written, sent, before']
          rfl

end Run

/-- A transaction of the host with a peripheral that answers `reply` and then `last`: what TWDR
holds at the START and the STOP of the request, what the turn of the main loop finds that takes
it, and what comes from then on. -/
structure Transaction where
  request : List UInt8
  reply : List UInt8
  last : UInt8
  sla : UInt8
  stop : UInt8
  taken : Surroundings
  events : List LinkEvent

namespace Transaction

/-- The reply is a faultless one, and no other interrupt comes than those of the block that is
sent and of the reply, in whatever order with the reads of the host and the main loop. -/
structure Proper (x : Transaction) : Prop where
  some_data : 1 ≤ x.request.length
  fits : x.request.length ≤ 35
  short : x.reply.length ≤ mdbPacketSize
  faultless : x.reply = [] ∧ x.last = mdbAck ∨ x.reply ≠ [] ∧ x.last = Gate.memsum x.reply
  ready : x.taken.sendReady 0 = true
  patience : 1 ≤ x.taken.patience
  follows : ∀ e ∈ x.events, e.follows = true
  answering : x.events.filterMap LinkEvent.interrupt = answering x.request x.reply x.last

def run (x : Transaction) (g : Gate) : Option Link :=
  (Runs.run Firmware.step g (oneWrite x.sla (frame (0x08 :: x.request)) x.stop)).bind
    fun g => Runs.run Link.step ⟨g, none, [], []⟩ (.main (.twiStep x.taken) :: x.events)

def answers (x : Transaction) : List (Response × List UInt8) := [(.mdbStarted, []), (.mdbSuccess, x.reply)]

def sends (x : Transaction) : List (UInt8 × Bool) :=
  block x.request ++ if x.reply = [] then [] else [(mdbAck, false)]

theorem underway {x : Transaction} {g : Gate} {s : Link} (rest : AtRest g) (proper : x.Proper)
    {g₁ : Gate} (written : Runs.run Firmware.step g (oneWrite x.sla (frame (0x08 :: x.request)) x.stop) = some g₁)
    (moved : Link.step ⟨g₁, none, [], []⟩ (.main (.twiStep x.taken)) = some s) :
    Underway g.history.sent (block x.request) x.reply x.last s (x.events.filterMap LinkEvent.interrupt) := by
  have size : (frame (0x08 :: x.request)).length ≤ commandMaxLength := by
    have fits := proper.fits
    rw [frame_length, List.length_cons]
    simp only [commandMaxLength]
    omega
  obtain ⟨mode, stored⟩ := received_of_oneWrite (busEvents_oneWrite ..) written size
  obtain ⟨mdb, queues, twiIdle, listens⟩ := written_of_oneWrite written
  simp only [Gate.mdb, Gate.sender, Prod.mk.injEq] at mdb
  obtain ⟨⟨state, code, _, _, txcie0, _, sent⟩, _⟩ := mdb
  simp only [Gate.queues, Prod.mk.injEq] at queues
  obtain ⟨masterOut, twiOut, _⟩ := queues
  have begun := begun_of_stored (mode.trans rest.running) (state.trans rest.idle) (code.trans rest.clean)
    (by rw [masterOut, rest.masterOut]) (by rw [twiOut, rest.twiOut]) (by rw [twiOut, rest.used]) stored
    proper.ready proper.patience
  obtain ⟨_, taken, rfl⟩ := Option.map_eq_some_iff.mp moved
  obtain ⟨_, rfl⟩ := enabled_step taken
  have queued : Link.queue ⟨g₁, none, [], []⟩ 0 (g₁.twiStep x.taken) =
      ⟨g₁.twiStep x.taken, none, [], [(.mdbStarted, [])]⟩ := Link.queue_grown begun.emitted g₁.masterOut.fits
  have driver := begun.driver
  simp only [Gate.driver, Prod.mk.injEq] at driver
  rw [queued]
  refine ⟨⟨[], [(.mdbStarted, [])], [], ?_⟩, rfl, fun _ => driver.1.trans twiIdle, .start x.request, ?_, ?_⟩
  · refine ⟨rfl, Buffer.stored_of_empty begun.masterOut, by simp, rfl, begun.twiIn, begun.running, ?_⟩
    refine .between ?_ begun.used ?_
    · show (g₁.twiStep x.taken).twcr &&& 0x40 ≠ 0
      rw [driver.2]
      exact listens
    · rw [begun.started]
      rfl
  · have data := begun.data
    have represents := represents_of_begins begun.begins (by rw [data]; exact proper.some_data)
      (by rw [data]; exact proper.fits) (txcie0.trans rest.txcie0)
    rw [data, sent] at represents
    exact represents.congr begun.mdb
  · rw [proper.answering]
    exact Exchange.Due.start ..

/-- A transaction that has come to its end, and whose answers have all been read. -/
theorem completed {x : Transaction} {g : Gate} {t : Link} (rest : AtRest g) (proper : x.Proper)
    (run : x.run g = some t)
    (idle : t.gate.mdbState = .idle) (drained : t.Drained) :
    AtRest t.gate ∧ (∀ r ∈ t.reads, (parseResponse r).outcome = .nil) ∧
      (t.reads.flatMap fun r => (parseResponse r).packets) = Link.packets x.answers ∧
      t.gate.history.sent = g.history.sent ++ x.sends := by
  obtain ⟨g₁, written, run⟩ := Option.bind_eq_some_iff.mp run
  obtain ⟨s, moved, run⟩ := Runs.run_cons.mp run
  have started := underway rest proper written moved
  obtain ended | answered := started.run proper.short proper.faultless proper.follows run
  · obtain ⟨_, represents, _⟩ := ended.exchange
    exact absurd idle represents.busy
  · obtain ⟨done, front, back, flows⟩ := answered.flows
    obtain ⟨none, master, out⟩ := drained
    obtain ⟨used, ⟨listens, stored⟩ | ⟨_, some_byte⟩⟩ := flows.phase_of_none none
    · have front_nil := Link.eq_nil_of_empty out stored
      have back_nil := Link.eq_nil_of_empty master flows.back
      have queued := flows.queued
      rw [answered.queued, front_nil, back_nil, List.append_nil, List.append_nil] at queued
      refine ⟨⟨flows.running, answered.idle, answered.clean, answered.txcie0, answered.rests none,
        listens, master, out,
        used⟩, flows.nil, ?_, ?_⟩
      · rw [flows.delivered, ← queued]
        rfl
      · rw [answered.sent, List.append_assoc]
        rfl
    · omega

/-- One transaction after another, the host reading all answers of one before the next. -/
def next (s : Gate × List (List UInt8)) (x : Transaction) : Option (Gate × List (List UInt8)) :=
  (x.run s.1).bind fun t =>
    if t.gate.mdbState = .idle ∧ t.Drained then some (t.gate, s.2 ++ t.reads) else none

/-- Along any series of transactions the host reads for each that it was started and then its
reply, each once and in order, and every block goes out whole, with an ACK for each reply. -/
theorem replies_read {xs : List Transaction} {s t : Gate × List (List UInt8)} (rest : AtRest s.1)
    (proper : ∀ x ∈ xs, x.Proper) (run : Runs.run next s xs = some t) :
    AtRest t.1 ∧ t.1.history.sent = s.1.history.sent ++ xs.flatMap sends ∧
      ∃ reads, t.2 = s.2 ++ reads ∧ (∀ r ∈ reads, (parseResponse r).outcome = .nil) ∧
        (reads.flatMap fun r => (parseResponse r).packets) = Link.packets (xs.flatMap answers) := by
  induction xs generalizing s with
  | nil =>
    cases Option.some.inj run
    exact ⟨rest, by simp, [], by simp, by simp, rfl⟩
  | cons x xs ih =>
    obtain ⟨u, moved, run⟩ := Runs.run_cons.mp run
    obtain ⟨this, later⟩ := List.forall_mem_cons.mp proper
    obtain ⟨link, ran, ended⟩ := Option.bind_eq_some_iff.mp moved
    obtain ⟨⟨idle, drained⟩, rfl⟩ := enabled_step ended
    obtain ⟨rest', nil, packets, sent⟩ := completed rest this ran idle drained
    obtain ⟨rest'', sent', reads, all, nil', packets'⟩ := ih rest' later run
    refine ⟨rest'', ?_, link.reads ++ reads, ?_, ?_, ?_⟩
    · rw [sent', sent, List.flatMap_cons, List.append_assoc]
    · rw [all, List.append_assoc]
    · exact List.forall_mem_append.mpr ⟨nil, nil'⟩
    · rw [List.flatMap_append, packets, packets', List.flatMap_cons, Link.packets, Link.packets, Link.packets,
        List.map_append]

def bootedAndRead : Gate := ((Runs.run Link.step (Link.start 0x01) Link.bootRead).map Link.gate).getD booted

/-- POLL, with a read while it goes out, and then POLL answered with a button that was pressed,
with both reads after the end. -/
def twoPolls : List Transaction :=
  [⟨[0x0b], [], mdbAck, 0x78, 0, quietSurroundings,
      [.main .usartUdre, .address, .clock, .clock, .main .usartTx, .clock, .clock, .clock, .main (.usartRx 0 0 true),
        .main .mdbStep, Link.idleLoop, .address] ++ List.replicate 5 .clock⟩,
    ⟨[0x0b], [0x21], 0x21, 0x78, 0, quietSurroundings,
      [.main .usartUdre, .main .usartTx, .main (.usartRx 0 0x21 false), Link.idleLoop, .main (.usartRx 0 0x21 true),
        .main .mdbStep, .address] ++ List.replicate 5 .clock ++ [Link.idleLoop, .address] ++ List.replicate 6 .clock⟩]

theorem replies_read_twoPolls :
    ∃ (g : Gate) (reads : List (List UInt8)), Runs.run next (bootedAndRead, []) twoPolls = some (g, reads) ∧
      (reads.flatMap fun r => (parseResponse r).packets) =
        Link.packets [(.mdbStarted, []), (.mdbSuccess, []), (.mdbStarted, []), (.mdbSuccess, [0x21])] := by
  have ended : (Runs.run next (bootedAndRead, []) twoPolls).isSome := by decide +kernel
  obtain ⟨⟨g, reads⟩, run⟩ := Option.isSome_iff_exists.mp ended
  have rest : AtRest bootedAndRead := by constructor <;> decide +kernel
  have proper : ∀ x ∈ twoPolls, x.Proper := by
    intro x mem
    simp only [twoPolls, List.mem_cons, List.not_mem_nil, or_false] at mem
    rcases mem with rfl | rfl
    · constructor
      all_goals first | decide | rfl
    · constructor
      all_goals first | decide | rfl
  obtain ⟨_, _, _, rfl, _, packets⟩ := replies_read (s := (bootedAndRead, [])) rest proper run
  exact ⟨g, _, run, packets⟩

end Transaction

end Mega

end Vender
