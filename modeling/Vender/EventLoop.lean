import Vender.AbortSteps
import Vender.PollCredit
import Vender.Lib.Channel

namespace Vender

/-- The refund path: the main loop, the coin poll loop and `CoinAcceptor.Run`,
each between two of its atomic steps. -/
structure EventLoop where
  /-- Where main is in `Abort`, `none` in its `select`. -/
  main : Option AbortPc := none
  items : List PollItem := []
  pending : Option Event := none
  runner : Option PollResult := none
  events : Channel Event := .make 2
  pch : Channel PollResult := .make 2
  credit : NominalGroup
  requests : List (UInt8 × Option TxError) := []
  /-- History: every result that `Run` got to send, every event main took. -/
  polled : List PollResult := []
  taken : List Event := []

inductive LoopStep
  | poll (response : Except TxError (List UInt8))
  | deliver
  | take
  | handle
  | announce
  | select
  | abort (e : AbortStep)
  | resume

namespace EventLoop

def start (hw : CoinAcceptor) : EventLoop where
  credit := CoinState.init hw

def aborting (s : EventLoop) (pc : AbortPc) : Aborting := ⟨pc, s.credit, s.requests⟩

def advance (s : EventLoop) (a : Aborting) : EventLoop :=
  { s with main := some a.pc, credit := a.credit, requests := a.requests }

/-- `Signal.Set` releases main from a receive it is blocked in, else it is lost. -/
def setReady (hw : CoinAcceptor) (s : EventLoop) : EventLoop :=
  match s.main with
  | none => s
  | some pc =>
    match (s.aborting pc).step hw .ready with
    | none => s
    | some a => s.advance a

def step (hw : CoinAcceptor) (s : EventLoop) : LoopStep → Option EventLoop
  | .poll response =>
    if s.runner.isSome then none
    else
      let (pr, set) := hw.commandPoll response
      let s := if set then s.setReady hw else s
      if pr.error.isSome then some s else some { s with runner := some pr, polled := s.polled ++ [pr] }
  | .deliver => do
    let pr ← s.runner
    let pch ← s.pch.send pr
    some { s with pch, runner := none }
  | .take =>
    if s.pending.isSome ∨ s.items ≠ [] then none
    else do
      let (pr, pch) ← s.pch.receive
      some { s with pch, items := if pr.singleStatus = .busy then [] else pr.items }
  | .handle =>
    if s.pending.isSome then none
    else
      match s.items with
      | [] => none
      | pi :: items => do
        let (credit, pending) ← CoinState.handlePollItem s.credit pi
        some { s with credit, pending, items }
  | .announce => do
    let e ← s.pending
    let events ← s.events.send e
    some { s with events, pending := none }
  | .select =>
    if s.main.isSome then none
    else do
      let (e, events) ← s.events.receive
      let taken := s.taken ++ [e]
      match e.name with
      | .credit => some { s with events, taken }
      | .abort => some { s with events, taken, main := some .entered }
      | .ping => none
  | .abort .ready => none
  | .abort e => do
    let pc ← s.main
    let a ← (s.aborting pc).step hw e
    some (s.advance a)
  | .resume =>
    match s.main with
    | some (.returned _ _ _) => some { s with main := none }
    | _ => none

/-- Main waits for `ready`, the poll loop for room in `m.events` and `Run` for
room in `pch`. -/
def Deadlocked (s : EventLoop) : Prop :=
  (∃ pc, s.main = some pc ∧ pc.waitsReady = true) ∧ (s.pending.isSome ∧ s.events.Full) ∧ s.runner.isSome ∧ s.pch.Full

def itemEvent (pi : PollItem) : Option Event :=
  match pi.status with
  | .returnRequest => some { name := .abort }
  | .credit => some { name := .credit, amount := pi.amount }
  | _ => none

def resultEvents (pr : PollResult) : List Event :=
  if pr.singleStatus = .busy then [] else pr.items.filterMap itemEvent

def Funds (e : Event) : Prop := e.name = .credit ∧ e.amount ≠ 0

/-- Before the last three results somebody asked for a refund and three more
events followed, the credit not being empty by then. -/
def Overrun (polled : List PollResult) : Prop :=
  ∃ before p1 p2 p3, polled = before ++ [p1, p2, p3] ∧
    ∃ xs request e1 e2 e3 rest, before.flatMap resultEvents = xs ++ request :: e1 :: e2 :: e3 :: rest ∧
      request.name = .abort ∧ ∃ e ∈ xs ++ [e1, e2, e3], Funds e

/-- A deadlock is final: nobody can move. -/
theorem stuck_of_deadlocked {hw : CoinAcceptor} {s : EventLoop} (h : Deadlocked s) (e : LoopStep) :
    step hw s e = none := by
  obtain ⟨⟨pc, hmain, waits⟩, ⟨hpending, hevents⟩, hrunner, hpch⟩ := h
  obtain ⟨pr, hpr⟩ := Option.isSome_iff_exists.mp hrunner
  obtain ⟨ev, hev⟩ := Option.isSome_iff_exists.mp hpending
  cases e with
  | poll response => simp [step, hrunner]
  | deliver => simp [step, hpr, Channel.send_of_full hpch]
  | take => simp [step, hpending]
  | handle => simp [step, hpending]
  | announce => simp [step, hev, Channel.send_of_full hevents]
  | select => simp [step, hmain]
  | abort e =>
    cases e with
    | ready => rfl
    | _ => simp [step, hmain, Aborting.step_of_waitsReady (a := s.aborting pc) waits]
  | resume =>
    simp only [step, hmain]
    split
    next hpc => cases hpc; cases waits
    next => rfl

def sent (s : EventLoop) : List Event := s.taken ++ s.events.queue ++ s.pending.toList

def OneCoin (pi : PollItem) : Prop := pi.status = .credit → pi.dataCount = 1

/-- Both channels are queues between the poll results and what main has taken,
and an abort that pays was funded by one of the events. -/
structure Fifo (hw : CoinAcceptor) (s : EventLoop) : Prop where
  capacities : s.events.capacity = 2 ∧ s.pch.capacity = 2
  queued : ∃ handled, s.polled = handled ++ s.pch.queue ++ s.runner.toList ∧
    handled.flatMap resultEvents = s.sent ++ s.items.filterMap itemEvent
  polledOneCoin : ∀ pr ∈ s.polled, ∀ pi ∈ pr.items, OneCoin pi
  itemsOneCoin : ∀ pi ∈ s.items, OneCoin pi
  nominals : s.credit.nominals = (CoinState.init hw).nominals
  requested : s.main.isSome → ∃ xs e, s.taken = xs ++ [e] ∧ e.name = .abort
  funded : (∃ n, s.credit.values n ≠ 0) → ∃ e ∈ s.sent, Funds e
  paying : ∀ pc ∈ s.main, pc.paying = true → ∃ e ∈ s.sent, Funds e

theorem fifo_start (hw : CoinAcceptor) : Fifo hw (start hw) where
  capacities := ⟨rfl, rfl⟩
  queued := ⟨[], rfl, rfl⟩
  polledOneCoin := fun _ h => nomatch h
  itemsOneCoin := fun _ h => nomatch h
  nominals := rfl
  requested := fun h => nomatch h
  funded := fun ⟨_, h⟩ => absurd rfl h
  paying := fun _ h => nomatch h

theorem commandPoll_oneCoin {hw : CoinAcceptor} {response : Except TxError (List UInt8)} {pi : PollItem}
    (h : pi ∈ (hw.commandPoll response).1.items) : OneCoin pi := by
  cases response with
  | error err => cases h
  | ok bs =>
    rw [hw.commandPoll_tokens] at h
    obtain ⟨b, _, rfl⟩ := List.mem_map.mp h
    intro status
    obtain ⟨_, _, count, _⟩ | ⟨other, _⟩ := (hw.tokenItem_spec b).2
    · exact count
    · exact absurd status other

theorem handlePollItem_event {credit credit' : NominalGroup} {pi : PollItem} {sent : Option Event}
    (h : CoinState.handlePollItem credit pi = some (credit', sent)) : sent = itemEvent pi := by
  unfold CoinState.handlePollItem CoinState.handleItem at h
  unfold itemEvent
  cases hs : pi.status with
  | credit =>
    simp only [hs] at h
    cases ha : credit.add pi.dataNominal pi.dataCount.toUInt64 <;> simp_all
  | _ => simp_all

theorem fifo_advance {hw : CoinAcceptor} {s : EventLoop} {pc : AbortPc} {a : Aborting} {e : AbortStep}
    (h : Fifo hw s) (hmain : s.main = some pc) (hs : (s.aborting pc).step hw e = some a) :
    Fifo hw (s.advance a) := by
  obtain ⟨nominals, values, takes⟩ := (Aborting.took_of_step hs).credit
  refine { h with nominals := nominals.trans h.nominals, requested := fun _ => h.requested (by simp [hmain]),
                  funded := fun ⟨n, hn⟩ => h.funded ⟨n, values n hn⟩, paying := fun pc' hpc paying => ?_ }
  cases Option.some.inj hpc
  rcases takes paying with before | nonzero
  · exact h.paying pc hmain before
  · exact h.funded nonzero

theorem fifo_setReady {hw : CoinAcceptor} {s : EventLoop} (h : Fifo hw s) : Fifo hw (s.setReady hw) := by
  unfold setReady
  split
  next => exact h
  next pc hmain =>
    split
    next => exact h
    next a hs => exact fifo_advance h hmain hs

theorem setReady_runner (hw : CoinAcceptor) (s : EventLoop) : (s.setReady hw).runner = s.runner := by
  unfold setReady
  split
  next => rfl
  next => split <;> rfl

theorem fifo_poll {hw : CoinAcceptor} {s t : EventLoop} {response : Except TxError (List UInt8)}
    (hs : step hw s (.poll response) = some t) (h : Fifo hw s) : Fifo hw t := by
  simp only [step] at hs
  split at hs
  next => cases hs
  next idle =>
    have signalled : Fifo hw (if (hw.commandPoll response).2 then s.setReady hw else s) := by
      split
      · exact fifo_setReady h
      · exact h
    have still : (if (hw.commandPoll response).2 then s.setReady hw else s).runner = none := by
      split
      · simpa [setReady_runner] using idle
      · simpa using idle
    split at hs
    next =>
      cases Option.some.inj hs
      exact signalled
    next =>
      cases Option.some.inj hs
      obtain ⟨handled, hp, he⟩ := signalled.queued
      refine { signalled with queued := ⟨handled, ?_, he⟩, polledOneCoin := ?_ }
      · simp [hp, still]
      · intro pr hpr
        rcases List.mem_append.mp hpr with old | new
        · exact signalled.polledOneCoin pr old
        · cases List.mem_singleton.mp new
          exact fun pi hpi => commandPoll_oneCoin hpi

theorem fifo_deliver {hw : CoinAcceptor} {s t : EventLoop} (hs : step hw s .deliver = some t) (h : Fifo hw s) :
    Fifo hw t := by
  simp only [step, Option.bind_eq_bind, Option.bind_eq_some_iff] at hs
  obtain ⟨pr, hpr, pch, hsend, heq⟩ := hs
  cases Option.some.inj heq
  obtain ⟨hq, hc⟩ := Channel.send_some hsend
  obtain ⟨handled, hp, he⟩ := h.queued
  refine { h with capacities := ⟨h.capacities.1, hc.trans h.capacities.2⟩, queued := ⟨handled, ?_, he⟩ }
  simp [hp, hpr, hq]

theorem fifo_take {hw : CoinAcceptor} {s t : EventLoop} (hs : step hw s .take = some t) (h : Fifo hw s) :
    Fifo hw t := by
  simp only [step] at hs
  split at hs
  next => cases hs
  next idle =>
    simp only [Option.bind_eq_bind, Option.bind_eq_some_iff] at hs
    obtain ⟨⟨pr, pch⟩, hreceive, heq⟩ := hs
    cases Option.some.inj heq
    obtain ⟨hq, hc⟩ := Channel.receive_some hreceive
    obtain ⟨handled, hp, he⟩ := h.queued
    have none_left : s.items = [] := by
      by_contra items
      exact idle (Or.inr items)
    refine { h with capacities := ⟨h.capacities.1, hc.trans h.capacities.2⟩,
                    queued := ⟨handled ++ [pr], by simp [hp, hq], ?_⟩, itemsOneCoin := ?_ }
    · rw [List.flatMap_append, he, none_left]
      simp only [List.flatMap_cons, List.flatMap_nil, List.append_nil, List.filterMap_nil, resultEvents]
      split <;> simp [sent]
    · have known : pr ∈ s.polled := by simp [hp, hq]
      dsimp only
      split
      · simp
      · exact h.polledOneCoin pr known

theorem fifo_announce {hw : CoinAcceptor} {s t : EventLoop} (hs : step hw s .announce = some t) (h : Fifo hw s) :
    Fifo hw t := by
  simp only [step, Option.bind_eq_bind, Option.bind_eq_some_iff] at hs
  obtain ⟨e, hpending, events, hsend, heq⟩ := hs
  cases Option.some.inj heq
  obtain ⟨hq, hc⟩ := Channel.send_some hsend
  have same : sent { s with events, pending := none } = s.sent := by
    simp [sent, hq, hpending]
  exact { h with capacities := ⟨hc.trans h.capacities.1, h.capacities.2⟩,
                 queued := by simpa only [same] using h.queued,
                 funded := by simpa only [same] using h.funded, paying := by simpa only [same] using h.paying }

theorem funds_of_handled {hw : CoinAcceptor} {credit credit' : NominalGroup} {pi : PollItem} {pending : Option Event}
    (handled : CoinState.handlePollItem credit pi = some (credit', pending))
    (valid : credit.nominals = (CoinState.init hw).nominals) (oneCoin : OneCoin pi) :
    credit'.nominals = credit.nominals ∧
      ((∃ n, credit'.values n ≠ 0) → (∃ n, credit.values n ≠ 0) ∨ ∃ e ∈ pending, Funds e) := by
  by_cases status : pi.status = .credit
  · obtain ⟨credit'', hh, hc⟩ := CoinState.handlePollItem_of_credit credit status
    rw [hh] at handled
    simp only [Option.some.injEq, Prod.mk.injEq] at handled
    obtain ⟨rfl, rfl⟩ := handled
    rcases hc with added | ⟨_, rfl⟩
    · obtain ⟨hm, _⟩ := NominalGroup.add_ok added
      refine ⟨NominalGroup.add_nominals added, fun _ => Or.inr ⟨_, rfl, rfl, ?_⟩⟩
      have positive : pi.dataNominal ≠ 0 := CoinState.init_positive (valid ▸ hm)
      simpa [PollItem.amount, oneCoin status] using positive
    · exact ⟨rfl, Or.inl⟩
  · have same : credit' = credit := by
      unfold CoinState.handlePollItem CoinState.handleItem at handled
      cases hs : pi.status with
      | credit => exact absurd hs status
      | _ => simp_all
    subst same
    exact ⟨rfl, Or.inl⟩

theorem fifo_handle {hw : CoinAcceptor} {s t : EventLoop} (hs : step hw s .handle = some t) (h : Fifo hw s) :
    Fifo hw t := by
  simp only [step] at hs
  split at hs
  next => cases hs
  next idle =>
    have quiet : s.pending = none := by simpa using idle
    split at hs
    next => cases hs
    next pi items hitems =>
      simp only [Option.bind_eq_bind, Option.bind_eq_some_iff] at hs
      obtain ⟨⟨credit, pending⟩, handled, heq⟩ := hs
      cases Option.some.inj heq
      obtain ⟨done, hp, he⟩ := h.queued
      have oneCoin : OneCoin pi := h.itemsOneCoin pi (by simp [hitems])
      obtain ⟨nominals, funds⟩ := funds_of_handled handled h.nominals oneCoin
      have more : sent { s with credit, pending, items } = s.sent ++ pending.toList := by simp [sent, quiet]
      have grown : ∀ e ∈ s.sent, e ∈ sent { s with credit, pending, items } := by
        intro e he
        rw [more]
        exact List.mem_append_left _ he
      refine { h with queued := ⟨done, hp, ?_⟩,
                      itemsOneCoin := fun pi hpi => h.itemsOneCoin pi (by simp [hitems, hpi]),
                      nominals := nominals.trans h.nominals, funded := fun nonzero => ?_,
                      paying := fun pc hpc paying => ?_ }
      · rw [he, more, hitems, handlePollItem_event handled]
        cases hi : itemEvent pi <;> simp [hi]
      · rcases funds nonzero with before | ⟨e, he, hf⟩
        · obtain ⟨e, he, hf⟩ := h.funded before
          exact ⟨e, grown e he, hf⟩
        · exact ⟨e, by rw [more]; simp_all, hf⟩
      · obtain ⟨e, he, hf⟩ := h.paying pc hpc paying
        exact ⟨e, grown e he, hf⟩

theorem fifo_select {hw : CoinAcceptor} {s t : EventLoop} (hs : step hw s .select = some t) (h : Fifo hw s) :
    Fifo hw t := by
  simp only [step] at hs
  split at hs
  next => cases hs
  next selecting =>
    simp only [Option.bind_eq_bind, Option.bind_eq_some_iff] at hs
    obtain ⟨⟨e, events⟩, hreceive, hs⟩ := hs
    obtain ⟨hq, hc⟩ := Channel.receive_some hreceive
    have kept : s.taken ++ [e] ++ events.queue ++ s.pending.toList = s.sent := by simp [sent, hq]
    have capacities := And.intro (hc.trans h.capacities.1) h.capacities.2
    split at hs
    next =>
      cases Option.some.inj hs
      refine { h with capacities, queued := ?_, requested := fun hm => absurd hm selecting, funded := ?_,
                      paying := ?_ }
      all_goals simp only [sent, kept]
      · exact h.queued
      · exact h.funded
      · exact h.paying
    next name =>
      cases Option.some.inj hs
      refine { h with capacities, queued := ?_, requested := fun _ => ⟨s.taken, e, rfl, name⟩,
                      funded := ?_, paying := ?_ }
      all_goals simp only [sent, kept]
      · exact h.queued
      · exact h.funded
      · intro pc hpc paying
        cases Option.some.inj hpc
        cases paying
    next => cases hs

theorem fifo_step {hw : CoinAcceptor} {s t : EventLoop} {e : LoopStep} (hs : step hw s e = some t) (h : Fifo hw s) :
    Fifo hw t := by
  cases e with
  | poll response => exact fifo_poll hs h
  | deliver => exact fifo_deliver hs h
  | take => exact fifo_take hs h
  | handle => exact fifo_handle hs h
  | announce => exact fifo_announce hs h
  | select => exact fifo_select hs h
  | abort e =>
    have moved : ∃ pc a, s.main = some pc ∧ (s.aborting pc).step hw e = some a ∧ t = s.advance a := by
      cases e with
      | ready => cases hs
      | _ =>
        simp only [step, Option.bind_eq_bind, Option.bind_eq_some_iff] at hs
        obtain ⟨pc, hmain, a, ha, heq⟩ := hs
        exact ⟨pc, a, hmain, ha, (Option.some.inj heq).symm⟩
    obtain ⟨pc, a, hmain, ha, rfl⟩ := moved
    exact fifo_advance h hmain ha
  | resume =>
    simp only [step] at hs
    split at hs
    next =>
      cases Option.some.inj hs
      exact { h with requested := (fun hm => nomatch hm), paying := (fun _ hpc => nomatch hpc) }
    next => cases hs

theorem overrun_of_deadlocked {hw : CoinAcceptor} {s : EventLoop} (h : Fifo hw s) (hd : Deadlocked s) :
    Overrun s.polled := by
  obtain ⟨⟨pc, hmain, waits⟩, ⟨hpending, fullEvents⟩, hrunner, fullPch⟩ := hd
  obtain ⟨e3, he3⟩ := Option.isSome_iff_exists.mp hpending
  obtain ⟨p3, hp3⟩ := Option.isSome_iff_exists.mp hrunner
  obtain ⟨e1, e2, hqe⟩ := List.length_eq_two.mp (fullEvents.trans h.capacities.1)
  obtain ⟨p1, p2, hqp⟩ := List.length_eq_two.mp (fullPch.trans h.capacities.2)
  obtain ⟨xs, request, htaken, name⟩ := h.requested (by simp [hmain])
  obtain ⟨before, hp, he⟩ := h.queued
  have paying : pc.paying = true := by cases pc <;> first | rfl | cases waits
  obtain ⟨e, hmem, funds⟩ := h.paying pc hmain paying
  refine ⟨before, p1, p2, p3, by simp [hp, hqp, hp3], xs, request, e1, e2, e3, s.items.filterMap itemEvent,
    by simp [he, sent, htaken, hqe, he3], name, e, ?_, funds⟩
  have notRequest : e ≠ request := by
    rintro rfl
    cases name.symm.trans funds.1
  simpa [sent, htaken, hqe, he3, notRequest] using hmem

/-- Whatever the schedule, the refund path never deadlocks before the poll
results overrun it. -/
theorem never_deadlocked {hw : CoinAcceptor} {es : List LoopStep} {s : EventLoop}
    (hr : Runs.run (step hw) (start hw) es = some s) (quiet : ¬Overrun s.polled) : ¬Deadlocked s := by
  have fifo : Fifo hw s := Runs.invariant_of_run (C := fun _ _ _ => True) (fun _ _ _ hs h _ => fifo_step hs h)
    (fifo_start hw) (Runs.along_true _ _) hr
  exact fun hd => quiet (overrun_of_deadlocked fifo hd)

/-- One coin of 2 is credited, its refund is requested and main waits to send the DISPENSE. -/
def singleRefund : List LoopStep :=
  [.poll (.ok [0x51, 0x00]), .deliver, .take, .handle, .announce, .select,
    .poll (.ok [0x01]), .deliver, .take, .handle, .announce, .select,
    .abort (.readTotal [1, 2] [1, 2]), .abort .visit, .abort .visit]

theorem never_deadlocked_singleRefund :
    ¬Deadlocked ((Runs.run (step twoCoinChanger) (start twoCoinChanger) singleRefund).get (by decide)) := by
  refine never_deadlocked (Option.some_get _).symm ?_
  rintro ⟨before, p1, p2, p3, polled, _⟩
  have few := congrArg List.length polled
  rw [List.length_append] at few
  exact absurd few (by
    change 2 ≠ before.length + 3
    omega)

/-- Three more coins in a response that ends with a busy byte, then only busy responses. -/
def busyRefund : List LoopStep :=
  singleRefund ++
    [.poll (.ok [0x51, 0x00, 0x51, 0x00, 0x51, 0x00, 0x0a]), .deliver, .take, .handle, .announce, .handle,
      .announce, .handle, .poll (.ok [0x0a]), .deliver, .poll (.ok [0x0a]), .deliver, .poll (.ok [0x0a])]

theorem busyRefund_deadlocks :
    ∃ s, Runs.run (step twoCoinChanger) (start twoCoinChanger) busyRefund = some s ∧ Deadlocked s :=
  ⟨_, (Option.some_get (by decide)).symm, ⟨_, rfl, rfl⟩, by decide, by decide, by decide⟩

end EventLoop

end Vender
