import Vender.Lib.Bytes
import Vender.PollLoops

namespace Vender

open Dialogue PollLoops

def WasReset (pi : PollItem) : Prop := pi.status = .wasReset

instance : DecidablePred WasReset := fun _ => inferInstanceAs (Decidable (_ = _))

/-- The bill validator behind its `Init`. A reset is answered by an `InitSequence`, whose error nobody
reads. -/
def billDevice (kind : MdbTxError → TxError) : MoneyDevice BillUnit Empty where
  poll found := found.commandPoll kind
  sends _ := true
  handle found pi :=
    match Hardware.handlePollItem (BillState.handleItem id) found.toBillValidator pi with
    | none => none
    | some _ =>
      if WasReset pi then
        some do
          let _ ← found.initSequence
          return ()
      else some (return ())
  call := nofun

/-- The range of `Dispense`, which goes on as long as the requests are accepted. -/
def CoinState.dispensing (found : CoinUnit) : List (Nominal × UInt64) → DriverM Unit
  | [] => return ()
  | (nominal, count) :: visits => do
    let _ ← CoinUnit.commandTubeStatus
    if count = 0 then dispensing found visits
    else
      let err ← found.commandDispense nominal count.toUInt8
      -- here it waits for `ready`
      let _ ← CoinUnit.commandTubeStatus
      let _ ← found.commandExpansionSendDiagStatus
      if err.isSome then return () else dispensing found visits

/-- The coin acceptor behind its `Init`, with the refunds of the main goroutine; what becomes of the credit
and the events is in `EventLoop`. The shared `handlePollResult` never sets `doRestart`, so that
`onRestart`, which would reset and set up the changer, is not called. -/
def coinDevice (kind : MdbTxError → TxError) :
    MoneyDevice (CoinUnit × NominalGroup) (CoinUnit × List (Nominal × UInt64)) where
  poll found := found.1.commandPoll kind
  sends pr := pr.error.isNone
  handle found pi :=
    match Hardware.handlePollItem CoinState.handleItem found.2 pi with
    | none => none
    | some _ =>
      if pi.status = .dispensed ∨ pi.status = .credit then
        some do
          let _ ← CoinUnit.commandTubeStatus
          let _ ← found.1.commandExpansionSendDiagStatus
          return ()
      else some (return ())
  call c := CoinState.dispensing c.1 c.2

variable {kind : MdbTxError → TxError} {s t : PollLoops}

namespace BillUnit

theorem wasReset_iff (hw : BillValidator) (b : UInt8) : WasReset (hw.parsePollItem b) ↔ b = 0x06 := by
  have switch : ∀ b, (BillValidator.pollItemCase b).map PollItem.status = some .wasReset ↔ b = 0x06 := by
    apply Bytes.forall_byte
    decide +kernel
  unfold WasReset BillValidator.parsePollItem
  rw [← switch b]
  cases BillValidator.pollItemCase b with
  | some pi => simp
  | none =>
    by_cases stacked : b &&& 0x8f = b
    · simp [stacked]
    · by_cases escrow : b &&& 0x9f = b
      · simp [stacked, escrow]
      · by_cases attempts : b &&& 0x5f = b <;> simp [stacked, escrow, attempts]

theorem resets_map (hw : BillValidator) (bs : List UInt8) :
    (bs.map hw.parsePollItem).countP (fun pi => WasReset pi) = bs.count 0x06 := by
  rw [List.countP_map, List.count]
  apply List.countP_congr
  intro b _
  simp [wasReset_iff]

/-- A result that is passed over because it is all busy has no reset in it. -/
theorem resets_itemsOf (pr : PollResult) :
    (itemsOf pr).countP (fun pi => WasReset pi) = pr.items.countP fun pi => WasReset pi := by
  unfold itemsOf PollResult.singleStatus
  split
  next pi items =>
    split
    next busy => simp [WasReset, busy, items]
    next => rfl
  next => rw [if_neg (by decide)]

/-- The bytes of an answer that brings no error. -/
def pollBytes : TxResult → List UInt8
  | some (response, none) => response.bytes
  | _ => []

theorem polled_of_answer {found : BillUnit} {q : MdbPacket} {go : TxResult → DriverM (PollResult × Bool)}
    {reply : TxResult} {pr : PollResult} {set : Bool} (asks : (billDevice kind).poll found = .ask q go)
    (answered : go reply = .done (pr, set)) :
    q = packetPoll ∧ pr.items = (pollBytes reply).map found.parsePollItem := by
  obtain ⟨rfl, rfl⟩ := Dialogue.ask.inj asks
  refine ⟨rfl, ?_⟩
  obtain _ | ⟨response, _ | err⟩ := reply
  · cases answered
  · have result := (Prod.mk.inj (Dialogue.done.inj answered)).1
    rw [← result]
    exact found.commandPoll_items response.bytes
  · have result := (Prod.mk.inj (Dialogue.done.inj answered)).1
    rw [← result]
    rfl

theorem panicked_of_poll {found : BillUnit} {q : MdbPacket} {go : TxResult → DriverM (PollResult × Bool)}
    {reply : TxResult} (asks : (billDevice kind).poll found = .ask q go) (breaks : go reply = .broken) :
    q = packetPoll ∧ reply = none := by
  obtain ⟨rfl, rfl⟩ := Dialogue.ask.inj asks
  refine ⟨rfl, ?_⟩
  obtain _ | ⟨response, _ | err⟩ := reply
  · rfl
  · cases breaks
  · cases breaks

theorem handle_cases {found : BillUnit} {pi : PollItem} {d : DriverM Unit}
    (handled : (billDevice kind).handle found pi = some d) :
    WasReset pi ∧ d = (do let _ ← found.initSequence; return ()) ∨ ¬WasReset pi ∧ d = return () := by
  dsimp only [billDevice] at handled
  split at handled
  next => cases handled
  next =>
    split at handled
    next reset => exact Or.inl ⟨reset, (Option.some.inj handled).symm⟩
    next other => exact Or.inr ⟨other, (Option.some.inj handled).symm⟩

theorem handle_eq_none {found : BillUnit} {pi : PollItem} (unhandled : (billDevice kind).handle found pi = none) :
    ¬BillState.Handled pi.status := by
  dsimp only [billDevice] at unhandled
  split at unhandled
  next none_ =>
    intro handled
    rw [← BillState.handlePollItem_isSome id found.toBillValidator, none_] at handled
    cases handled
  next =>
    split at unhandled
    · cases unhandled
    · cases unhandled

/-- The JUST RESET bytes in the answers to POLL. -/
def resetsReported (said : List (Speaker × MdbPacket × TxResult)) : Nat :=
  ((saidBy .run said).map fun x => (pollBytes x.2).count 0x06).sum

theorem resets_of_run {es : List (LoopEvent BillUnit Empty)}
    (run : Runs.run (step (billDevice kind)) {} es = some s) :
    (s.polled.flatMap itemsOf).countP (fun pi => WasReset pi) = resetsReported s.said := by
  apply Runs.invariant_of_run
    (I := fun s => (s.polled.flatMap itemsOf).countP (fun pi => WasReset pi) = resetsReported s.said)
    (C := fun _ _ _ => True) _ rfl (Runs.along_true _ _) run
  intro s e t moved same _
  cases (moves_of_step moved).2 with
  | @polls found q go reply pr set idle asks answered =>
    obtain ⟨-, items⟩ := polled_of_answer asks answered
    have now : (itemsOf pr).countP (fun pi => WasReset pi) = (pollBytes reply).count 0x06 := by
      rw [resets_itemsOf, items]
      exact resets_map _ _
    dsimp only [resetsReported]
    rw [saidBy_self, List.map_append, List.sum_append, List.flatMap_append, List.countP_append, same]
    have sent : (billDevice kind).sends pr = true := rfl
    simp [sent, now, resetsReported]
  | @pollBreaks found q go reply asks breaks =>
    obtain ⟨-, rfl⟩ := panicked_of_poll asks breaks
    dsimp only [resetsReported]
    rw [saidBy_self, List.map_append, List.sum_append, same]
    simp [pollBytes, resetsReported]
  | loopAsks at_ reply | mainAsks at_ reply =>
    dsimp only [resetsReported]
    rw [saidBy_other (by decide)]
    exact same
  | delivers has sent | takes idle empty received | panics mem unhandled | handles idle next handled
  | loopEnds at_ | loopBreaks at_
  | calls idle c | mainEnds at_ | mainBreaks at_ => exact same

theorem main_of_run {es : List (LoopEvent BillUnit Empty)} (run : Runs.run (step (billDevice kind)) {} es = some s) :
    s.main = none := by
  apply Runs.invariant_of_run (I := fun s => s.main = none) (C := fun _ _ _ => True) _ rfl (Runs.along_true _ _) run
  intro s e t moved same _
  cases (moves_of_step moved).2 with
  | calls idle c => cases c
  | mainAsks at_ reply =>
    rw [same] at at_
    cases at_
  | mainEnds at_ => rfl
  | polls idle asks answered | pollBreaks asks breaks | loopAsks at_ reply | delivers has sent
  | takes idle empty received | panics mem unhandled
  | handles idle next handled | loopEnds at_ | loopBreaks at_ | mainBreaks at_ => exact same

theorem reinit_meets (found : BillUnit) :
    (do let _ ← found.initSequence; return () : DriverM Unit).Meets Ordered Broken
    (fun said _ => ∃ r, Ended said r) [] :=
  Meets.bind found.initSequence_meets fun _ r ended => ⟨r, ended⟩

/-- The loop's talk about a reset is an `InitSequence` as far as it has come, and about any other item
there is none. -/
theorem talk_cases {x : Talk BillUnit} {e : DriverM Unit} (whole : x.At (billDevice kind) e) :
    WasReset x.item ∧ e.Meets Ordered Broken (fun said _ => ∃ r, Ended said r) x.said ∧
        (∀ before q reply after, x.said = before ++ (q, reply) :: after → Ordered before q) ∨
      ¬WasReset x.item ∧ x.said = [] ∧ e = return () := by
  obtain ⟨d, handled, reaches⟩ := whole
  rcases handle_cases handled with ⟨reset, rfl⟩ | ⟨other, rfl⟩
  · obtain ⟨rest, ordered⟩ := (reinit_meets x.found).reaches reaches
    exact Or.inl ⟨reset, rest, ordered⟩
  · exact Or.inr ⟨other, silent_of_done reaches, reaches_done reaches⟩

theorem said_of_resets {talks : List (Talk BillUnit)} (quiet : ∀ x ∈ talks, ¬WasReset x.item → x.said = []) :
    talks.flatMap Talk.said = ((talks.filter fun x => WasReset x.item).map Talk.said).flatten := by
  induction talks with
  | nil => rfl
  | cons x talks ih =>
    obtain ⟨here, later⟩ := List.forall_mem_cons.mp quiet
    by_cases reset : WasReset x.item
    · rw [List.flatMap_cons, ih later, List.filter_cons_of_pos (by simpa using reset)]
      rfl
    · rw [List.flatMap_cons, ih later, List.filter_cons_of_neg (by simpa using reset), here reset]
      rfl

/-- What the loop has said to the validator, one set-up after the other, where a panic is a stacked bill,
an overlong answer to SETUP or the panic of a `Tx`. -/
structure Reinitialised (s : PollLoops) (past now : List Said) : Prop where
  said : saidBy .loop s.said = (past ++ now).flatten
  one : now.length ≤ 1
  idle : s.loop = none → now = []
  each : (past ++ now).length + s.waiting.countP (fun pi => WasReset pi) = resetsReported s.said
  ended : ∀ said ∈ past, ∃ r, Ended said r
  ordered : ∀ said ∈ past ++ now, ∀ before q reply after, said = before ++ (q, reply) :: after → Ordered before q
  panics : s.crashed = true →
    (∃ response b, (Speaker.run, packetPoll, some (response, none)) ∈ s.said ∧ b ∈ response.bytes ∧
        BillValidator.Stacked b) ∨
      (∃ said ∈ now, Broken said) ∨ (Speaker.run, packetPoll, none) ∈ s.said

/-- An item that is on its way was a byte of some answer. -/
theorem byte_of_waiting {es : List (LoopEvent BillUnit Empty)}
    (run : Runs.run (step (billDevice kind)) {} es = some s)
    {pi : PollItem} (mem : pi ∈ s.waiting) :
    ∃ found : BillUnit, ∃ response b, (Speaker.run, packetPoll, some (response, none)) ∈ s.said ∧
      b ∈ response.bytes ∧ pi = found.parsePollItem b := by
  obtain ⟨pr, found, q, go, reply, set, asks, answered, said, item⟩ := result_of_waiting run mem
  obtain ⟨rfl, items⟩ := polled_of_answer asks answered
  rw [items] at item
  obtain ⟨b, byte, rfl⟩ := List.mem_map.mp item
  obtain _ | ⟨response, _ | err⟩ := reply
  · cases byte
  · exact ⟨found, response, b, said, byte, rfl⟩
  · cases byte

/-- Whatever the validator answers and whoever moves first: the loop sets the validator up once for each
JUST RESET in the answers to POLL, from SETUP to the bill types, one after the other and each to its end. -/
theorem resets_reinitialise {es : List (LoopEvent BillUnit Empty)}
    (run : Runs.run (step (billDevice kind)) {} es = some s) :
    ∃ past now, Reinitialised s past now := by
  obtain ⟨past, now, told⟩ := told_of_run run
  have talks : ∀ x ∈ past ++ now.toList, ∃ e, x.At (billDevice kind) e := by
    intro x mem
    rcases List.mem_append.mp mem with earlier | current
    · exact ⟨_, told.ended x earlier⟩
    · obtain ⟨-, rfl⟩ | ⟨y, e, rfl, -, whole⟩ := told.underway
      · cases current
      · cases List.mem_singleton.mp current
        exact ⟨e, whole⟩
  have quiet : ∀ x ∈ past ++ now.toList, ¬WasReset x.item → x.said = [] := by
    intro x mem other
    obtain ⟨e, whole⟩ := talks x mem
    rcases talk_cases whole with ⟨reset, -⟩ | ⟨-, nothing, -⟩
    · exact absurd reset other
    · exact nothing
  refine ⟨(past.filter fun x => WasReset x.item).map Talk.said,
    (now.toList.filter fun x => WasReset x.item).map Talk.said, ?_⟩
  constructor
  · rw [told.said, said_of_resets quiet, List.filter_append, List.map_append]
  · rw [List.length_map]
    apply (List.length_filter_le _ _).trans
    cases now with
    | none => exact Nat.zero_le 1
    | some x => exact Nat.le_refl 1
  · intro none_
    obtain ⟨-, rfl⟩ | ⟨x, e, -, busy, -⟩ := told.underway
    · rfl
    · rw [none_] at busy
      cases busy
  · rw [← resets_of_run run, told.reported, List.countP_append, told.handled, List.countP_map, ← List.map_append,
      ← List.filter_append, List.length_map, ← List.countP_eq_length_filter]
    rfl
  · intro said mem
    obtain ⟨x, kept, rfl⟩ := List.mem_map.mp mem
    obtain ⟨earlier, reset⟩ := List.mem_filter.mp kept
    rcases talk_cases (told.ended x earlier) with ⟨-, ended, -⟩ | ⟨other, -⟩
    · exact ended
    · exact absurd (by simpa using reset) other
  · intro said mem
    rw [← List.map_append, ← List.filter_append] at mem
    obtain ⟨x, kept, rfl⟩ := List.mem_map.mp mem
    obtain ⟨among, reset⟩ := List.mem_filter.mp kept
    obtain ⟨e, whole⟩ := talks x among
    rcases talk_cases whole with ⟨-, -, ordered⟩ | ⟨other, -⟩
    · exact ordered
    · exact absurd (by simpa using reset) other
  · intro crashed
    rcases (founded_of_run run).crashed crashed with
      ⟨pi, waits, found, unhandled⟩ | broken | broken | ⟨found, q, go, reply, asks, breaks, said⟩
    · obtain ⟨found', response, b, said, byte, rfl⟩ := byte_of_waiting run waits
      have stacked : BillValidator.Stacked b := by
        by_contra none_
        exact handle_eq_none unhandled ((found'.parsePollItem_handled b).mpr none_)
      exact Or.inl ⟨response, b, said, byte, stacked⟩
    · obtain ⟨idle, -⟩ | ⟨x, e, rfl, busy, whole⟩ := told.underway
      · rw [broken] at idle
        cases idle
      · cases Option.some.inj (broken.symm.trans busy)
        rcases talk_cases whole with ⟨reset, breaks, -⟩ | ⟨-, -, ends⟩
        · exact Or.inr (Or.inl ⟨x.said, by simp [reset], breaks⟩)
        · cases ends
    · rw [main_of_run run] at broken
      cases broken
    · obtain ⟨rfl, rfl⟩ := panicked_of_poll asks breaks
      exact Or.inr (Or.inr said)

/-- A validator that reports JUST RESET with a coming POLL, and does not answer the SETUP that follows. -/
def resetThenSilent : List (LoopEvent BillUnit Empty) :=
  let found : BillUnit := ⟨⟨⟨Vector.replicate 16 0⟩, 0, false, 1⟩, 0⟩
  [.poll found (some (MdbPacket.new.writeAll [0x06], none)), .deliver, .take, .handle found,
    .loopTx (some (MdbPacket.new, some (.uart .read))), .loopEnds]

theorem resets_reinitialise_once :
    ∃ s, Runs.run (step (billDevice fun _ => .other)) {} resetThenSilent = some s ∧ resetsReported s.said = 1 ∧
      ∃ past now, Reinitialised s past now := by
  obtain ⟨s, run⟩ : ∃ s, Runs.run (step (billDevice fun _ => .other)) {} resetThenSilent = some s := ⟨_, rfl⟩
  refine ⟨s, run, ?_, resets_reinitialise run⟩
  cases run
  decide +kernel

end BillUnit

namespace CoinUnit

/-- POLL, TUBE STATUS, the diagnostic status and DISPENSE: no block of a set-up. -/
def Running (q : MdbPacket) : Prop :=
  q.bytes = [0x0b] ∨ q.bytes = [0x0a] ∨ q.bytes = [0x0f, 0x05] ∨ ∃ b, q.bytes = [0x0d, b]

theorem stays_packet {R : Type} {q : MdbPacket} {k : TxReply → DriverM R} (running : Running q)
    (rest : ∀ reply, (k reply).Stays Running fun reply => reply.isSome) :
    (tx (some q) >>= k).Stays Running fun reply => reply.isSome := by
  refine ⟨running, fun result => ?_⟩
  cases result with
  | none => exact Or.inr ⟨by simp, rfl⟩
  | some reply => exact Or.inl (rest reply)

theorem commandPoll_asks_running (self : CoinUnit) (kind : MdbTxError → TxError) :
    (self.commandPoll kind).Asks Running := by
  refine ⟨Or.inl rfl, fun result => ?_⟩
  obtain _ | ⟨response, _ | err⟩ := result <;> trivial

theorem panicked_of_poll {found : CoinUnit × NominalGroup} {q : MdbPacket}
    {go : TxResult → DriverM (PollResult × Bool)} {reply : TxResult} (asks : (coinDevice kind).poll found = .ask q go)
    (breaks : go reply = .broken) : reply = none := by
  obtain ⟨rfl, rfl⟩ := Dialogue.ask.inj asks
  obtain _ | ⟨response, _ | err⟩ := reply
  · rfl
  · cases breaks
  · cases breaks

theorem commandTubeStatus_stays : commandTubeStatus.Stays Running fun reply => reply.isSome := by
  apply stays_packet (Or.inr (Or.inl rfl))
  intro reply
  obtain ⟨response, _ | err⟩ := reply <;> trivial

theorem commandExpansionSendDiagStatus_stays (self : CoinUnit) :
    self.commandExpansionSendDiagStatus.Stays Running fun reply => reply.isSome := by
  unfold commandExpansionSendDiagStatus
  split
  · trivial
  · apply stays_packet (Or.inr (Or.inr (Or.inl rfl)))
    intro reply
    obtain ⟨response, _ | err⟩ := reply
    · dsimp only
      split <;> trivial
    · trivial

theorem commandDispense_stays (self : CoinUnit) (nominal : Nominal) (count : UInt8) :
    (self.commandDispense nominal count).Stays Running fun reply => reply.isSome := by
  unfold commandDispense
  split
  · trivial
  next request _ =>
    obtain ⟨q, packet, bytes, -⟩ := MdbPacket.packetFromBytes_ok (d := [0x0d, request]) (Nat.le_of_ble_eq_true rfl)
    rw [packet]
    exact stays_packet (Or.inr (Or.inr (Or.inr ⟨request, bytes⟩))) fun _ => trivial

theorem dispensing_stays (found : CoinUnit) (visits : List (Nominal × UInt64)) :
    (CoinState.dispensing found visits).Stays Running fun reply => reply.isSome := by
  induction visits with
  | nil => trivial
  | cons visit visits ih =>
    obtain ⟨nominal, count⟩ := visit
    apply Stays.bind commandTubeStatus_stays
    intro _
    split
    · exact ih
    apply Stays.bind (found.commandDispense_stays nominal _)
    intro err
    apply Stays.bind commandTubeStatus_stays
    intro _
    apply Stays.bind found.commandExpansionSendDiagStatus_stays
    intro _
    split
    · trivial
    · exact ih

theorem handle_stays (kind : MdbTxError → TxError) (found : CoinUnit × NominalGroup) (pi : PollItem) :
    ∀ d ∈ (coinDevice kind).handle found pi, d.Stays Running fun reply => reply.isSome := by
  intro d handled
  dsimp only [coinDevice] at handled
  split at handled
  next => cases handled
  next =>
    split at handled
    · cases Option.some.inj handled
      apply Stays.bind commandTubeStatus_stays
      intro _
      exact Stays.bind found.1.commandExpansionSendDiagStatus_stays fun _ => trivial
    · cases Option.some.inj handled
      trivial

theorem handled_of_waiting {es : List (LoopEvent (CoinUnit × NominalGroup) (CoinUnit × List (Nominal × UInt64)))}
    (run : Runs.run (step (coinDevice kind)) {} es = some s) {pi : PollItem} (mem : pi ∈ s.waiting) :
    CoinState.Handled pi.status := by
  obtain ⟨pr, found, q, go, reply, set, asks, answered, -, item⟩ := result_of_waiting run mem
  obtain ⟨rfl, rfl⟩ := Dialogue.ask.inj asks
  obtain _ | ⟨response, _ | err⟩ := reply
  · cases answered
  · have result := (Prod.mk.inj (Dialogue.done.inj answered)).1
    rw [← result] at item
    exact found.1.pollItems_handled response.bytes pi (found.1.commandPoll_items response.bytes ▸ item)
  · have result := (Prod.mk.inj (Dialogue.done.inj answered)).1
    rw [← result] at item
    cases item

/-- Whatever the changer answers, resets included, and whoever moves first: nobody panics but where a `Tx`
does, and behind `Init` the changer is never set up or enabled again. -/
theorem never_set_up_again {es : List (LoopEvent (CoinUnit × NominalGroup) (CoinUnit × List (Nominal × UInt64)))}
    (run : Runs.run (step (coinDevice kind)) {} es = some s) :
    (s.crashed = true → ∃ x ∈ s.said, x.2.2 = none) ∧ ∀ x ∈ s.said, Running x.2.1 := by
  have keeps : Keeps Running s := by
    apply keeps_of_run _ (handle_stays kind) _ run
    · exact fun found => found.1.commandPoll_asks_running kind
    · exact fun c => dispensing_stays c.1 c.2
  refine ⟨fun crashed => ?_, keeps.said⟩
  rcases (founded_of_run run).crashed crashed with
    ⟨pi, waits, found, unhandled⟩ | broken | broken | ⟨found, q, go, reply, asks, breaks, said⟩
  · have handled := handled_of_waiting run waits
    rw [← CoinState.handlePollItem_isSome found.2] at handled
    obtain ⟨result, taken⟩ := Option.isSome_iff_exists.mp handled
    simp only [coinDevice, taken] at unhandled
    split at unhandled <;> cases unhandled
  · exact (keeps.loop _ broken).panicked
  · exact (keeps.main _ broken).panicked
  · exact ⟨_, said, panicked_of_poll asks breaks⟩

/-- A changer that reports JUST RESET and is then asked for a coin. -/
def resetThenRefund : List (LoopEvent (CoinUnit × NominalGroup) (CoinUnit × List (Nominal × UInt64))) :=
  let found : CoinUnit := ⟨⟨twoCoinChanger, 2, 1⟩, 0⟩
  [.poll (found, CoinState.init twoCoinChanger) (some (MdbPacket.new.writeAll [0x0b], none)), .deliver, .take,
    .handle (found, CoinState.init twoCoinChanger), .loopEnds, .call (found, [(1, 1)]),
    .mainTx (some (MdbPacket.new, none)), .mainTx (some (MdbPacket.new, none)), .mainTx (some (MdbPacket.new, none)),
    .mainEnds]

theorem never_set_up_again_resetThenRefund :
    ∃ s, Runs.run (step (coinDevice fun _ => .other)) {} resetThenRefund = some s ∧
      s.handled.countP (fun pi => WasReset pi) = 1 ∧
      s.said.length = 4 ∧ (s.crashed = true → ∃ x ∈ s.said, x.2.2 = none) ∧ ∀ x ∈ s.said, Running x.2.1 := by
  obtain ⟨s, run⟩ : ∃ s, Runs.run (step (coinDevice fun _ => .other)) {} resetThenRefund = some s := ⟨_, rfl⟩
  refine ⟨s, run, ?_, ?_, never_set_up_again run⟩
  · cases run
    decide +kernel
  · cases run
    decide +kernel

end CoinUnit

end Vender
