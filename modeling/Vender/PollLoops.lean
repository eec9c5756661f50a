import Vender.DeviceInit
import Vender.Lib.Channel
import Vender.PollSafety

namespace Vender

open Dialogue

/-- What a money device brings to the shared goroutines: how `Run` polls it and which results it
sends on, what its handler and the shared switch do on the bus for an item (`none` is a panic), and
what the main goroutine calls. `ι` are the fields that they find, which another one may have set
up anew. -/
structure MoneyDevice (ι κ : Type) where
  poll : ι → DriverM (PollResult × Bool)
  sends : PollResult → Bool
  handle : ι → PollItem → Option (DriverM Unit)
  call : κ → DriverM Unit

/-- Who a block on the bus is from. -/
inductive Speaker
  | run
  | loop
  | main
  deriving DecidableEq, Repr

/-- `Run`, `pollResultLoop` with the dialogue of the item it handles, and a call of the main
goroutine, each between two of its blocks on the bus. -/
structure PollLoops where
  runner : Option PollResult := none
  pch : Channel PollResult := .make 2
  items : List PollItem := []
  loop : Option (DriverM Unit) := none
  main : Option (DriverM Unit) := none
  /-- Somebody has panicked. -/
  crashed : Bool := false
  said : List (Speaker × MdbPacket × TxResult) := []
  /-- History: the results that `Run` sends, and the items that the loop took up. -/
  polled : List PollResult := []
  handled : List PollItem := []

inductive LoopEvent (ι κ : Type)
  | poll (found : ι) (reply : TxResult)
  | deliver
  | take
  | handle (found : ι)
  | loopTx (reply : TxResult)
  | loopEnds
  | call (c : κ)
  | mainTx (reply : TxResult)
  | mainEnds

namespace PollLoops

variable {ι κ : Type}

/-- The items that `handlePollResult` goes through. -/
def itemsOf (pr : PollResult) : List PollItem := if pr.singleStatus = .busy then [] else pr.items

/-- A turn of the goroutines. The devices answer as they like. -/
def step (D : MoneyDevice ι κ) (s : PollLoops) (e : LoopEvent ι κ) : Option PollLoops :=
  if s.crashed then none
  else
    match e with
    | .poll found reply =>
      match s.runner, D.poll found with
      | none, .ask q go =>
        match go reply with
        | .done (pr, _) =>
          let sent := if D.sends pr then some pr else none
          some { s with runner := sent, polled := s.polled ++ sent.toList, said := s.said ++ [(.run, q, reply)] }
        | .broken => some { s with crashed := true, said := s.said ++ [(.run, q, reply)] }
        | .ask _ _ => none
      | _, _ => none
    | .deliver => do
      let pr ← s.runner
      let pch ← s.pch.send pr
      some { s with pch, runner := none }
    | .take =>
      if s.loop.isSome ∨ s.items ≠ [] then none
      else do
        let (pr, pch) ← s.pch.receive
        some { s with pch, items := itemsOf pr }
    | .handle found =>
      match s.loop, s.items with
      | none, pi :: items =>
        match D.handle found pi with
        | none => some { s with crashed := true }
        | some d => some { s with items, loop := some d, handled := s.handled ++ [pi] }
      | _, _ => none
    | .loopTx reply =>
      match s.loop with
      | some (.ask q go) => some { s with loop := some (go reply), said := s.said ++ [(.loop, q, reply)] }
      | _ => none
    | .loopEnds =>
      match s.loop with
      | some (.done _) => some { s with loop := none }
      | some .broken => some { s with crashed := true }
      | _ => none
    | .call c => if s.main.isSome then none else some { s with main := some (D.call c) }
    | .mainTx reply =>
      match s.main with
      | some (.ask q go) => some { s with main := some (go reply), said := s.said ++ [(.main, q, reply)] }
      | _ => none
    | .mainEnds =>
      match s.main with
      | some (.done _) => some { s with main := none }
      | some .broken => some { s with crashed := true }
      | _ => none

/-- All that a turn can do. -/
inductive Moves (D : MoneyDevice ι κ) (s : PollLoops) : PollLoops → Prop
  | polls {found : ι} {q : MdbPacket} {go : TxResult → DriverM (PollResult × Bool)} {reply : TxResult}
      {pr : PollResult} {set : Bool} (idle : s.runner = none) (asks : D.poll found = .ask q go)
      (answered : go reply = .done (pr, set)) :
      Moves D s
        { s with runner := if D.sends pr then some pr else none
                 polled := s.polled ++ (if D.sends pr then some pr else none).toList
                 said := s.said ++ [(.run, q, reply)] }
  | pollBreaks {found : ι} {q : MdbPacket} {go : TxResult → DriverM (PollResult × Bool)} {reply : TxResult}
      (asks : D.poll found = .ask q go) (breaks : go reply = .broken) :
      Moves D s { s with crashed := true, said := s.said ++ [(.run, q, reply)] }
  | delivers {pr : PollResult} {pch : Channel PollResult} (has : s.runner = some pr)
    (sent : pch.queue = s.pch.queue ++ [pr]) :
      Moves D s { s with pch, runner := none }
  | takes {pr : PollResult} {pch : Channel PollResult} (idle : s.loop = none) (empty : s.items = [])
      (received : s.pch.queue = pr :: pch.queue) : Moves D s { s with pch, items := itemsOf pr }
  | panics {found : ι} {pi : PollItem} (mem : pi ∈ s.items) (unhandled : D.handle found pi = none) :
      Moves D s { s with crashed := true }
  | handles {found : ι} {pi : PollItem} {items : List PollItem} {d : DriverM Unit} (idle : s.loop = none)
      (next : s.items = pi :: items) (handled : D.handle found pi = some d) :
      Moves D s { s with items, loop := some d, handled := s.handled ++ [pi] }
  | loopAsks {q : MdbPacket} {go : TxResult → DriverM Unit} (at_ : s.loop = some (.ask q go)) (reply : TxResult) :
      Moves D s { s with loop := some (go reply), said := s.said ++ [(.loop, q, reply)] }
  | loopEnds (at_ : s.loop = some (.done ())) : Moves D s { s with loop := none }
  | loopBreaks (at_ : s.loop = some .broken) : Moves D s { s with crashed := true }
  | calls (idle : s.main = none) (c : κ) : Moves D s { s with main := some (D.call c) }
  | mainAsks {q : MdbPacket} {go : TxResult → DriverM Unit} (at_ : s.main = some (.ask q go)) (reply : TxResult) :
      Moves D s { s with main := some (go reply), said := s.said ++ [(.main, q, reply)] }
  | mainEnds (at_ : s.main = some (.done ())) : Moves D s { s with main := none }
  | mainBreaks (at_ : s.main = some .broken) : Moves D s { s with crashed := true }

variable {D : MoneyDevice ι κ} {s t : PollLoops}

theorem moves_of_step {e : LoopEvent ι κ} (h : step D s e = some t) : s.crashed = false ∧ Moves D s t := by
  unfold step at h
  split at h
  · cases h
  next alive =>
    refine ⟨by simpa using alive, ?_⟩
    cases e with
    | poll found reply =>
      dsimp only at h
      split at h
      next q go idle asks =>
        split at h
        next pr set answered =>
          cases Option.some.inj h
          exact .polls idle asks answered
        next breaks =>
          cases Option.some.inj h
          exact .pollBreaks asks breaks
        next => cases h
      next => cases h
    | deliver =>
      simp only [Option.bind_eq_bind, Option.bind_eq_some_iff] at h
      obtain ⟨pr, has, pch, sends, h⟩ := h
      cases Option.some.inj h
      exact .delivers has (Channel.send_some sends).1
    | take =>
      dsimp only at h
      split at h
      next => cases h
      next idle =>
        simp only [Option.bind_eq_bind, Option.bind_eq_some_iff] at h
        obtain ⟨⟨pr, pch⟩, receives, h⟩ := h
        cases Option.some.inj h
        obtain ⟨still, empty⟩ := not_or.mp idle
        exact .takes (by simpa using still) (by simpa using empty) (Channel.receive_some receives).1
    | handle found =>
      dsimp only at h
      split at h
      next pi items idle next =>
        split at h
        next unhandled =>
          cases Option.some.inj h
          exact .panics (by rw [next]; exact List.mem_cons_self) unhandled
        next d handled =>
          cases Option.some.inj h
          exact .handles idle next handled
      next => cases h
    | loopTx reply =>
      dsimp only at h
      split at h
      next at_ =>
        cases Option.some.inj h
        exact .loopAsks at_ reply
      next => cases h
    | loopEnds =>
      dsimp only at h
      split at h
      next at_ =>
        cases Option.some.inj h
        exact .loopEnds at_
      next at_ =>
        cases Option.some.inj h
        exact .loopBreaks at_
      next => cases h
    | call c =>
      dsimp only at h
      split at h
      next => cases h
      next idle =>
        cases Option.some.inj h
        exact .calls (by simpa using idle) c
    | mainTx reply =>
      dsimp only at h
      split at h
      next at_ =>
        cases Option.some.inj h
        exact .mainAsks at_ reply
      next => cases h
    | mainEnds =>
      dsimp only at h
      split at h
      next at_ =>
        cases Option.some.inj h
        exact .mainEnds at_
      next at_ =>
        cases Option.some.inj h
        exact .mainBreaks at_
      next => cases h

/-- The items that are on their way to the loop. -/
def waiting (s : PollLoops) : List PollItem :=
  s.items ++ s.pch.queue.flatMap itemsOf ++ s.runner.toList.flatMap itemsOf

def saidBy (who : Speaker) (said : List (Speaker × MdbPacket × TxResult)) : Said :=
  said.filterMap fun x => if x.1 = who then some x.2 else none

@[simp] theorem saidBy_self (who : Speaker) (said : List (Speaker × MdbPacket × TxResult)) (q : MdbPacket)
    (reply : TxResult) : saidBy who (said ++ [(who, q, reply)]) = saidBy who said ++ [(q, reply)] := by
  simp [saidBy]

theorem saidBy_other {who other : Speaker} (apart : other ≠ who) (said : List (Speaker × MdbPacket × TxResult))
    (q : MdbPacket) (reply : TxResult) : saidBy who (said ++ [(other, q, reply)]) = saidBy who said := by
  simp [saidBy, apart]

/-- An item taken up by the loop, and what was said then. -/
structure Talk (ι : Type) where
  found : ι
  item : PollItem
  said : Said := []

/-- The talk has come to `e` in the dialogue of its item. -/
def Talk.At (D : MoneyDevice ι κ) (x : Talk ι) (e : DriverM Unit) : Prop :=
  ∃ d, D.handle x.found x.item = some d ∧ d.Reaches x.said e

/-- The loop has a talk for each item it took up, in order, all but the one that is under way to
its end, and nothing that was reported is lost between. -/
structure Told (D : MoneyDevice ι κ) (s : PollLoops) (past : List (Talk ι)) (now : Option (Talk ι)) : Prop where
  reported : s.polled.flatMap itemsOf = s.handled ++ s.waiting
  handled : s.handled = (past ++ now.toList).map Talk.item
  said : saidBy .loop s.said = (past ++ now.toList).flatMap Talk.said
  ended : ∀ x ∈ past, x.At D (.done ())
  underway : s.loop = none ∧ now = none ∨ ∃ x e, now = some x ∧ s.loop = some e ∧ x.At D e

theorem told_start (D : MoneyDevice ι κ) : Told D {} [] none where
  reported := rfl
  handled := rfl
  said := rfl
  ended := nofun
  underway := Or.inl ⟨rfl, rfl⟩

variable {past : List (Talk ι)} {now : Option (Talk ι)}

theorem Told.moves (h : Told D s past now) (moves : Moves D s t) : ∃ past' now', Told D t past' now' := by
  cases moves with
  | @polls found q go reply pr set idle asks answered =>
    refine ⟨past, now, { h with reported := ?_, said := ?_ }⟩
    · rw [List.flatMap_append, h.reported]
      simp [waiting, idle]
    · rw [saidBy_other (by decide)]
      exact h.said
  | pollBreaks asks breaks =>
    refine ⟨past, now, { h with said := ?_ }⟩
    rw [saidBy_other (by decide)]
    exact h.said
  | delivers has sent =>
    refine ⟨past, now, { h with reported := ?_ }⟩
    rw [h.reported]
    simp [waiting, has, sent]
  | takes idle empty received =>
    refine ⟨past, now, { h with reported := ?_ }⟩
    rw [h.reported]
    simp [waiting, empty, received]
  | panics mem unhandled => exact ⟨past, now, { h with }⟩
  | @handles found pi items d idle next handled =>
    obtain ⟨-, rfl⟩ | ⟨x, e, -, busy, -⟩ := h.underway
    · refine ⟨past, some ⟨found, pi, []⟩, ?_, ?_, ?_, h.ended, Or.inr ⟨_, d, rfl, rfl, d, handled, .start⟩⟩
      · rw [h.reported]
        simp [waiting, next]
      · rw [h.handled]
        simp
      · rw [h.said]
        simp
    · rw [idle] at busy
      cases busy
  | @loopAsks q go at_ reply =>
    obtain ⟨idle, -⟩ | ⟨x, e, rfl, busy, d, handled, reaches⟩ := h.underway
    · rw [at_] at idle
      cases idle
    · cases Option.some.inj (at_.symm.trans busy)
      refine ⟨past, some { x with said := x.said ++ [(q, reply)] }, h.reported, ?_, ?_, h.ended,
        Or.inr ⟨_, _, rfl, rfl, d, handled, reaches.asked reply⟩⟩
      · rw [h.handled]
        simp
      · rw [saidBy_self, h.said]
        simp
  | loopEnds at_ =>
    obtain ⟨idle, -⟩ | ⟨x, e, rfl, busy, whole⟩ := h.underway
    · rw [at_] at idle
      cases idle
    · cases Option.some.inj (at_.symm.trans busy)
      refine ⟨past ++ [x], none, h.reported, ?_, ?_, ?_, Or.inl ⟨rfl, rfl⟩⟩
      · rw [h.handled]
        simp
      · rw [h.said]
        simp
      · intro y mem
        rcases List.mem_append.mp mem with earlier | last
        · exact h.ended y earlier
        · rw [List.mem_singleton.mp last]
          exact whole
  | loopBreaks at_ => exact ⟨past, now, { h with }⟩
  | calls idle c => exact ⟨past, now, { h with }⟩
  | mainAsks at_ reply =>
    refine ⟨past, now, { h with said := ?_ }⟩
    rw [saidBy_other (by decide)]
    exact h.said
  | mainEnds at_ => exact ⟨past, now, { h with }⟩
  | mainBreaks at_ => exact ⟨past, now, { h with }⟩

theorem told_of_run {es : List (LoopEvent ι κ)} (run : Runs.run (step D) {} es = some s) :
    ∃ past now, Told D s past now := by
  apply Runs.invariant_of_run (I := fun s => ∃ past now, Told D s past now) (C := fun _ _ _ => True) _
    ⟨[], none, told_start D⟩
    (Runs.along_true _ _) run
  rintro s e t moved ⟨past, now, h⟩ -
  exact h.moves (moves_of_step moved).2

/-- Where the results of `Run` come from, and what a panic comes from. -/
structure Founded (D : MoneyDevice ι κ) (s : PollLoops) : Prop where
  polled : ∀ pr ∈ s.polled, ∃ found q go reply set, D.poll found = .ask q go ∧ go reply = .done (pr, set) ∧
    (Speaker.run, q, reply) ∈ s.said
  crashed : s.crashed = true →
    (∃ pi ∈ s.waiting, ∃ found, D.handle found pi = none) ∨ s.loop = some .broken ∨ s.main = some .broken ∨
      ∃ found q go reply, D.poll found = .ask q go ∧ go reply = .broken ∧ (Speaker.run, q, reply) ∈ s.said

theorem founded_start (D : MoneyDevice ι κ) : Founded D {} where
  polled := nofun
  crashed := nofun

theorem Founded.moves (h : Founded D s) (alive : s.crashed = false) (moves : Moves D s t) : Founded D t := by
  have none_crashed {P : Prop} : s.crashed = true → P := fun crashed => by rw [alive] at crashed; cases crashed
  cases moves with
  | @polls found q go reply pr set idle asks answered =>
    refine ⟨?_, none_crashed⟩
    intro pr' mem
    rcases List.mem_append.mp mem with earlier | now
    · obtain ⟨found, q', go, reply', set, asks, answered, said⟩ := h.polled pr' earlier
      exact ⟨found, q', go, reply', set, asks, answered, List.mem_append_left _ said⟩
    · split at now
      · cases List.mem_singleton.mp now
        exact ⟨found, q, go, reply, set, asks, answered, List.mem_append_right _ List.mem_cons_self⟩
      · cases now
  | @pollBreaks found q go reply asks breaks =>
    refine ⟨?_, fun _ => Or.inr (Or.inr (Or.inr ⟨found, q, go, reply, asks, breaks, by simp⟩))⟩
    intro pr mem
    obtain ⟨found, q, go, reply, set, asks, answered, said⟩ := h.polled pr mem
    exact ⟨found, q, go, reply, set, asks, answered, List.mem_append_left _ said⟩
  | @panics found pi mem unhandled =>
    refine ⟨h.polled, fun _ => Or.inl ⟨pi, ?_, found, unhandled⟩⟩
    exact List.mem_append_left _ (List.mem_append_left _ mem)
  | loopBreaks at_ => exact ⟨h.polled, fun _ => Or.inr (Or.inl at_)⟩
  | mainBreaks at_ => exact ⟨h.polled, fun _ => Or.inr (Or.inr (Or.inl at_))⟩
  | loopAsks at_ reply | mainAsks at_ reply =>
    refine ⟨?_, none_crashed⟩
    intro pr mem
    obtain ⟨found, q, go, reply, set, asks, answered, said⟩ := h.polled pr mem
    exact ⟨found, q, go, reply, set, asks, answered, List.mem_append_left _ said⟩
  | delivers has sent | takes idle empty received | handles idle next handled | loopEnds at_ | calls idle c
  | mainEnds at_ => exact ⟨h.polled, none_crashed⟩

theorem founded_of_run {es : List (LoopEvent ι κ)} (run : Runs.run (step D) {} es = some s) : Founded D s := by
  apply Runs.invariant_of_run (C := fun _ _ _ => True) _ (founded_start D) (Runs.along_true _ _) run
  intro s e t moved h _
  obtain ⟨alive, moves⟩ := moves_of_step moved
  exact h.moves alive moves

/-- An item that is on its way was in a result that `Run` made of an answer. -/
theorem result_of_waiting {es : List (LoopEvent ι κ)} (run : Runs.run (step D) {} es = some s) {pi : PollItem}
    (mem : pi ∈ s.waiting) :
    ∃ pr found q go reply set, D.poll found = .ask q go ∧ go reply = .done (pr, set) ∧
      (Speaker.run, q, reply) ∈ s.said ∧ pi ∈ pr.items := by
  obtain ⟨past, now, told⟩ := told_of_run run
  obtain ⟨pr, polled, item⟩ : ∃ pr ∈ s.polled, pi ∈ itemsOf pr := by
    apply List.mem_flatMap.mp
    rw [told.reported]
    exact List.mem_append_right _ mem
  obtain ⟨found, q, go, reply, set, asks, answered, said⟩ := (founded_of_run run).polled pr polled
  refine ⟨pr, found, q, go, reply, set, asks, answered, said, ?_⟩
  unfold itemsOf at item
  split at item
  · cases item
  · exact item

/-- The dialogue keeps to some blocks and goes on, unless a `Tx` has panicked. -/
def Goes (P : MdbPacket → Prop) (s : PollLoops) (d : DriverM Unit) : Prop :=
  d.Stays P (fun reply => reply.isSome) ∨ d = .broken ∧ ∃ x ∈ s.said, x.2.2 = none

/-- Where their dialogues keep to some blocks, nothing else is said; and where they break off at a `Tx`
that panics only, nobody panics otherwise. -/
structure Keeps (P : MdbPacket → Prop) (s : PollLoops) : Prop where
  loop : ∀ d ∈ s.loop, Goes P s d
  main : ∀ d ∈ s.main, Goes P s d
  said : ∀ x ∈ s.said, P x.2.1

variable {P : MdbPacket → Prop}

theorem Goes.grown {d : DriverM Unit} (h : Goes P s d) {more : List (Speaker × MdbPacket × TxResult)}
    (said : t.said = s.said ++ more) : Goes P t d := by
  rcases h with stays | ⟨rfl, x, mem, panicked⟩
  · exact Or.inl stays
  · exact Or.inr ⟨rfl, x, said ▸ List.mem_append_left _ mem, panicked⟩

theorem Goes.asks {q : MdbPacket} {go : TxResult → DriverM Unit} (h : Goes P s (.ask q go)) : P q := by
  rcases h with ⟨asks, _⟩ | ⟨broken, _⟩
  · exact asks
  · cases broken

theorem Goes.panicked (h : Goes P s .broken) : ∃ x ∈ s.said, x.2.2 = none := by
  rcases h with stays | ⟨_, panicked⟩
  · exact stays.elim
  · exact panicked

theorem Goes.answered {who : Speaker} {q : MdbPacket} {go : TxResult → DriverM Unit} (h : Goes P s (.ask q go))
    (reply : TxResult) (said : t.said = s.said ++ [(who, q, reply)]) : Goes P t (go reply) := by
  rcases h with ⟨_, stays⟩ | ⟨broken, _⟩
  · rcases stays reply with on | ⟨panicked, breaks⟩
    · exact Or.inl on
    · exact Or.inr ⟨breaks, (who, q, reply), by simp [said], by simpa using panicked⟩
  · cases broken

theorem Keeps.moves (poll : ∀ found, (D.poll found).Asks P)
    (handle : ∀ found pi, ∀ d ∈ D.handle found pi, d.Stays P fun reply => reply.isSome)
    (call : ∀ c, (D.call c).Stays P fun reply => reply.isSome) (h : Keeps P s) (moves : Moves D s t) : Keeps P t := by
  have grown {who : Speaker} {q : MdbPacket} {reply : TxResult} (asks : P q) :
      ∀ x ∈ s.said ++ [(who, q, reply)], P x.2.1 := by
    intro x mem
    rcases List.mem_append.mp mem with earlier | now
    · exact h.said x earlier
    · rw [List.mem_singleton.mp now]
      exact asks
  have polled {found : ι} {q : MdbPacket} {go : TxResult → DriverM (PollResult × Bool)}
      (asks : D.poll found = .ask q go) :
      P q := by
    have now := poll found
    rw [asks] at now
    exact now.1
  cases moves with
  | polls idle asks answered =>
    exact ⟨fun d at_ => (h.loop d at_).grown rfl, fun d at_ => (h.main d at_).grown rfl, grown (polled asks)⟩
  | pollBreaks asks breaks =>
    exact ⟨fun d at_ => (h.loop d at_).grown rfl, fun d at_ => (h.main d at_).grown rfl, grown (polled asks)⟩
  | @handles found pi items d idle next handled =>
    refine { h with loop := ?_ }
    rintro d' ⟨⟩
    exact Or.inl (handle found pi d handled)
  | loopAsks at_ reply =>
    refine ⟨?_, fun d main => (h.main d main).grown rfl, grown (h.loop _ at_).asks⟩
    rintro d' ⟨⟩
    exact (h.loop _ at_).answered reply rfl
  | loopEnds at_ => exact { h with loop := nofun }
  | calls idle c =>
    refine { h with main := ?_ }
    rintro d' ⟨⟩
    exact Or.inl (call c)
  | mainAsks at_ reply =>
    refine ⟨fun d loop => (h.loop d loop).grown rfl, ?_, grown (h.main _ at_).asks⟩
    rintro d' ⟨⟩
    exact (h.main _ at_).answered reply rfl
  | mainEnds at_ => exact { h with main := nofun }
  | delivers has sent | takes idle empty received | panics mem unhandled | loopBreaks at_ | mainBreaks at_ =>
    exact ⟨h.loop, h.main, h.said⟩

theorem keeps_of_run (poll : ∀ found, (D.poll found).Asks P)
    (handle : ∀ found pi, ∀ d ∈ D.handle found pi, d.Stays P fun reply => reply.isSome)
    (call : ∀ c, (D.call c).Stays P fun reply => reply.isSome) {es : List (LoopEvent ι κ)}
    (run : Runs.run (step D) {} es = some s) : Keeps P s := by
  have start : Keeps P {} := ⟨nofun, nofun, nofun⟩
  apply Runs.invariant_of_run (C := fun _ _ _ => True) _ start (Runs.along_true _ _) run
  intro s e t moved h _
  exact h.moves poll handle call (moves_of_step moved).2

end PollLoops

end Vender
