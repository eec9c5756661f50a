import Vender.SerialWords

namespace Vender

open GpioMdb (TxCall callTx rawWords wordsIn wordsRead beforeEnd endByte)

/-- A word that the device has sent and the number of the request it answers. -/
structure Heard where
  word : UInt8 × UInt8
  request : Nat
  deriving DecidableEq

/-- The driver and what `gpioSerialRead` has not fetched yet. -/
structure SerialLine where
  mdb : GpioMdb
  unread : List Heard := []
  /-- How many calls of `tx` were made. -/
  calls : Nat := 0

inductive LineEvent
  | arrive (words : List Heard)
  | tx (c : TxCall) (arrivals : List (List Heard))

namespace SerialLine

/-- What a series of reads takes of the words, the oldest first, and what it
leaves; nothing is read only where nothing is there. -/
def serve : List (List UInt8) → List (List Heard) → List Heard → Option (List Heard × List Heard)
  | [], [], unread => some ([], unread)
  | data :: reads, words :: arrivals, unread =>
    let available := unread ++ words
    let n := data.length / 2
    if rawWords ((available.take n).map Heard.word) = data ∧ (data = [] → available = []) then
      (serve reads arrivals (available.drop n)).map fun (taken, left) => (available.take n ++ taken, left)
    else none
  | _, _, _ => none

/-- A call of `tx` as `Server::exec` makes it, with a response vector of its own. -/
def step (l : SerialLine) : LineEvent → Option SerialLine
  | .arrive words => some { l with unread := l.unread ++ words }
  | .tx c arrivals => do
    let mdb ← l.mdb.step c
    if c.response = [] then
      let (_, left) ← serve (callTx l.mdb c).reads arrivals l.unread
      some { mdb, unread := left, calls := l.calls + 1 }
    else none

def upToEnd : List Heard → List Heard
  | [] => []
  | w :: ws => if w.word.2 = 1 then [w] else w :: upToEnd ws

def returnsOk (m : GpioMdb) (c : TxCall) : Bool :=
  match GpioMdb.tx c.capacity c.request c.timeout { buf := m.buf, response := c.response, answers := c.answers } with
  | .ok _ _ => true
  | .error _ _ => false

/-- The response of a call that returns Ok and its end byte are words that
were sent in answer to its request. -/
def OwnResponse (l : SerialLine) (e : LineEvent) (_ : SerialLine) : Prop :=
  match e with
  | .arrive _ => True
  | .tx c arrivals => returnsOk l.mdb c → ∀ taken ∈ (serve (callTx l.mdb c).reads arrivals l.unread).map Prod.fst,
      (callTx l.mdb c).response = (upToEnd taken).dropLast.map (·.word.1) ∧ ∀ w ∈ upToEnd taken, w.request = l.calls

/-- Of what is unread and what arrives during the call, nothing that answers
another request stands ahead of the first end flag. -/
def InTurn (l : SerialLine) (e : LineEvent) (_ : SerialLine) : Prop :=
  match e with
  | .arrive _ => True
  | .tx _ arrivals => ∀ w ∈ upToEnd (l.unread ++ arrivals.flatten), w.request = l.calls

instance (l l' : SerialLine) (e : LineEvent) : Decidable (OwnResponse l e l') :=
  match e with
  | .arrive _ => isTrue trivial
  | .tx c arrivals => inferInstanceAs (Decidable (returnsOk l.mdb c →
      ∀ taken ∈ (serve (callTx l.mdb c).reads arrivals l.unread).map Prod.fst, _ ∧ ∀ w ∈ upToEnd taken, _))

instance (l l' : SerialLine) (e : LineEvent) : Decidable (InTurn l e l') :=
  match e with
  | .arrive _ => isTrue trivial
  | .tx _ arrivals => inferInstanceAs (Decidable (∀ w ∈ upToEnd (l.unread ++ arrivals.flatten), w.request = l.calls))

theorem serve_order {reads : List (List UInt8)} {arrivals : List (List Heard)} {unread taken left : List Heard}
    (h : serve reads arrivals unread = some (taken, left)) :
    taken ++ left = unread ++ arrivals.flatten ∧ (∀ data ∈ reads, data.length % 2 = 0) ∧
      wordsRead reads = taken.map Heard.word := by
  induction reads generalizing arrivals unread taken left with
  | nil =>
    cases arrivals with
    | nil =>
      cases Option.some.inj h
      simp [wordsRead]
    | cons words arrivals => cases h
  | cons data reads ih =>
    cases arrivals with
    | nil => cases h
    | cons words arrivals =>
      simp only [serve] at h
      split at h
      next fits =>
        obtain ⟨⟨taken', left'⟩, hrest, heq⟩ := Option.map_eq_some_iff.mp h
        cases heq
        obtain ⟨order, even, words'⟩ := ih hrest
        obtain ⟨whole, -⟩ := fits
        refine ⟨?_, ?_, ?_⟩
        · rw [List.append_assoc, order, ← List.append_assoc, List.take_append_drop, List.flatten_cons,
            List.append_assoc]
        · intro data' mem
          rcases List.mem_cons.mp mem with rfl | mem
          · rw [← whole, GpioMdb.rawWords_length]
            omega
          · exact even data' mem
        · have first : wordsIn data = ((unread ++ words).take (data.length / 2)).map Heard.word := by
            rw [← GpioMdb.wordsIn_rawWords (List.map Heard.word _), whole]
          rw [List.map_append, ← first, ← words']
          simp [wordsRead]
      next => cases h

theorem upToEnd_append {ws : List Heard} (found : (endByte (ws.map Heard.word)).isSome) (ws' : List Heard) :
    upToEnd (ws ++ ws') = upToEnd ws := by
  induction ws with
  | nil => cases found
  | cons w ws ih =>
    by_cases flag : w.word.2 = 1
    · simp [upToEnd, flag]
    · have later : (endByte (ws.map Heard.word)).isSome := by simpa [endByte, flag] using found
      simp [upToEnd, flag, ih later]

theorem upToEnd_dropLast {ws : List Heard} (found : (endByte (ws.map Heard.word)).isSome) :
    (upToEnd ws).dropLast.map Heard.word = beforeEnd (ws.map Heard.word) := by
  induction ws with
  | nil => rfl
  | cons w ws ih =>
    by_cases flag : w.word.2 = 1
    · simp [upToEnd, beforeEnd, flag]
    · have later : (endByte (ws.map Heard.word)).isSome := by simpa [endByte, flag] using found
      have more : upToEnd ws ≠ [] := by
        cases ws with
        | nil => cases later
        | cons v vs => unfold upToEnd; split <;> simp
      have skip : upToEnd (w :: ws) = w :: upToEnd ws := by simp [upToEnd, flag]
      rw [skip, List.dropLast_cons_of_ne_nil more, List.map_cons, ih later]
      simp [beforeEnd, flag]

theorem returnsOk_taken {m : GpioMdb} {c : TxCall} {arrivals : List (List Heard)} {unread taken left : List Heard}
    (fresh : c.response = []) (ok : returnsOk m c)
    (h : serve (callTx m c).reads arrivals unread = some (taken, left)) :
    (endByte (taken.map Heard.word)).isSome ∧ (callTx m c).response = (upToEnd taken).dropLast.map (·.word.1) := by
  obtain ⟨-, even, words⟩ := serve_order h
  unfold returnsOk at ok
  split at ok
  next g hg =>
    have result : callTx m c = g := by simp [callTx, Effects.after, hg]
    obtain ⟨more, reads, spec⟩ := GpioMdb.tx_ok hg
    rw [List.nil_append] at reads
    rw [result, reads] at even words
    obtain ⟨found, response⟩ := spec even
    rw [words] at found response
    refine ⟨found, ?_⟩
    rw [result, response, fresh, List.nil_append, ← upToEnd_dropLast found, List.map_map]
    rfl
  next => cases ok

/-- A call that returns Ok was answered in its own response exactly if it was its turn. -/
theorem ownResponse_iff_inTurn {l l' : SerialLine} {c : TxCall} {arrivals : List (List Heard)}
    (h : l.step (.tx c arrivals) = some l') (ok : returnsOk l.mdb c) :
    OwnResponse l (.tx c arrivals) l' ↔ InTurn l (.tx c arrivals) l' := by
  obtain ⟨mdb, -, h⟩ := Option.bind_eq_some_iff.mp h
  split at h
  next fresh =>
    obtain ⟨⟨taken, left⟩, served, -⟩ := Option.bind_eq_some_iff.mp h
    obtain ⟨found, response⟩ := returnsOk_taken fresh ok served
    have order := (serve_order served).1
    simp only [OwnResponse, InTurn, ← order, upToEnd_append found, served, ok, forall_const, Option.map_some,
      Option.mem_some_iff, forall_eq', response, true_and]
  next => cases h

/-- In every run in which each call finds only words in answer to its own
request up to the end flag, a response that is returned belongs to its request. -/
theorem ownResponse_along {l : SerialLine} {es : List LineEvent} (inTurn : Runs.Along step InTurn l es) :
    Runs.Along step OwnResponse l es := by
  refine Runs.along_of_invariant (I := fun _ => True) (C := InTurn) ?_ trivial inTurn
  intro l e l' h _ turn
  refine ⟨?_, trivial⟩
  cases e with
  | arrive words => trivial
  | tx c arrivals =>
    by_cases ok : returnsOk l.mdb c
    · exact (ownResponse_iff_inTurn h ok).mpr turn
    · exact fun h => absurd h ok

def idle : SerialLine where
  mdb := GpioMdb.cleared

def poll (answers : List Answer) : TxCall where
  request := [0x0b]
  timeout := ⟨0, 300000000⟩
  answers := List.replicate 8 {} ++ answers

def answered : List Answer := { data := [0x41, 0, 0x41, 1] } :: List.replicate 7 {}

def coinReport (request : Nat) : List Heard := [⟨(0x41, 0), request⟩, ⟨(0x41, 1), request⟩]

def pollTwice : List LineEvent :=
  [.tx (poll [{}, { tick := 300001 }]) [[]], .tx (poll answered) [coinReport 1]]

theorem pollTwice_ownResponse :
    (Runs.run step idle pollTwice).isSome ∧ Runs.Along step OwnResponse idle pollTwice :=
  ⟨by decide +kernel, ownResponse_along (by decide +kernel)⟩

def lateReply : List LineEvent :=
  [.tx (poll [{}, { tick := 300001 }]) [[]], .arrive (coinReport 0), .tx (poll answered) [[]]]

/-- The late reply to the first poll is returned for the second one. -/
theorem lateReply_not_ownResponse : ¬ Runs.Along step OwnResponse idle lateReply := by
  decide +kernel

end SerialLine

end Vender
