import Vender.GpioMdb
import Vender.Lib.Runs

namespace Vender

namespace GpioMdb

open Effects

/-- A block as pigpio takes it: a byte and a flag byte for each word. -/
def wordBytes (block : List (UInt8 × Bool)) : List UInt8 :=
  block.flatMap fun w => [w.1, if w.2 then 1 else 0]

theorem wordBytes_getElem? (block : List (UInt8 × Bool)) (j : Nat) :
    (wordBytes block)[j]? = block[j / 2]?.map fun w => if j % 2 = 0 then w.1 else if w.2 then 1 else 0 := by
  induction block generalizing j with
  | nil => simp [wordBytes]
  | cons w block ih =>
    match j with
    | 0 => simp [wordBytes]
    | 1 => simp [wordBytes]
    | j + 2 =>
      have half : (j + 2) / 2 = j / 2 + 1 := by omega
      have parity : (j + 2) % 2 = j % 2 := by omega
      rw [half, parity, List.getElem?_cons_succ, ← ih]
      simp [wordBytes]

theorem mdbBlock_getElem? {request : List UInt8} (nonempty : request ≠ []) (i : Nat) :
    (mdbBlock request)[i]? = (request ++ [checksum request])[i]?.map fun b => (b, decide (i = 0)) := by
  cases request with
  | nil => exact absurd rfl nonempty
  | cons b rest =>
    cases i with
    | zero => simp [mdbBlock]
    | succ i =>
      simp only [mdbBlock, List.getElem?_cons_succ, List.cons_append, List.getElem?_map]
      rfl

theorem store_getElem (request : List UInt8) (k : Nat) (buf : Vector UInt8 bufSize) (j : Nat) (hj : j < bufSize) :
    ((request.zipIdx k).foldl (fun buf (b, i) => buf.setIfInBounds (i * wordSize) b) buf)[j] =
      if j % 2 = 0 ∧ k ≤ j / 2 ∧ j / 2 < k + request.length then request.getD (j / 2 - k) 0 else buf[j] := by
  induction request generalizing k buf with
  | nil =>
    rw [if_neg (by simp only [List.length_nil]; omega)]
    rfl
  | cons b rest ih =>
    simp only [List.zipIdx_cons, List.foldl_cons, List.length_cons]
    rw [ih, Vector.getElem_setIfInBounds]
    have words : k * wordSize = k * 2 := rfl
    by_cases here : k * wordSize = j
    · have half : j / 2 = k := by omega
      rw [if_neg (by omega), if_pos here, if_pos (by omega), half, Nat.sub_self]
      rfl
    · by_cases later : j % 2 = 0 ∧ k + 1 ≤ j / 2 ∧ j / 2 < k + 1 + rest.length
      · have next : j / 2 - k = j / 2 - (k + 1) + 1 := by omega
        rw [if_pos later, if_pos (by omega), next]
        rfl
      · rw [if_neg later, if_neg here, if_neg (by omega)]

theorem fillRequest_getElem (request : List UInt8) (buf : Vector UInt8 bufSize) (j : Nat) (hj : j < bufSize) :
    (fillRequest buf request)[j] =
      if j % 2 = 0 ∧ j / 2 ≤ request.length then (request ++ [checksum request]).getD (j / 2) 0
      else if j = 1 then 1 else buf[j] := by
  unfold fillRequest
  rw [Vector.getElem_setIfInBounds, store_getElem, Vector.getElem_setIfInBounds]
  have words : request.length * wordSize = request.length * 2 := rfl
  have flag : wordSize - 1 = 1 := rfl
  by_cases last : request.length * wordSize = j
  · have half : j / 2 = request.length := by omega
    rw [if_pos last, if_pos (by omega), half]
    simp
  · rw [if_neg last]
    by_cases byte : j % 2 = 0 ∧ 0 ≤ j / 2 ∧ j / 2 < 0 + request.length
    · rw [if_pos byte, if_pos (by omega)]
      simp only [Nat.sub_zero, List.getD_eq_getElem?_getD]
      rw [List.getElem?_append_left (by omega)]
    · rw [if_neg byte]
      by_cases first : j = 1
      · rw [if_pos (by omega), if_neg (by omega), if_pos first]
      · rw [if_neg (by omega), if_neg (by omega), if_neg first]

/-- The words that `tx` hands over are its own block exactly when the flag
bytes after the first one are clear. -/
theorem fillRequest_block_iff {request : List UInt8} (nonempty : request ≠ [])
    (short : request.length < blockMaxLength)
    (buf : Vector UInt8 bufSize) :
    (fillRequest buf request).toList.take (request.length * wordSize + wordSize) = wordBytes (mdbBlock request) ↔
      ∀ i : Fin blockMaxLength, 1 ≤ i.val → i.val ≤ request.length → (word buf i).2 = 0 := by
  have words : request.length * wordSize + wordSize = request.length * 2 + 2 := rfl
  have size : bufSize = 80 := rfl
  have block : blockMaxLength = 40 := rfl
  have expected : ∀ j, (wordBytes (mdbBlock request))[j]? = ((request ++ [checksum request])[j / 2]?).map fun b =>
      if j % 2 = 0 then b else if j / 2 = 0 then 1 else 0 := by
    intro j
    rw [wordBytes_getElem?, mdbBlock_getElem? nonempty, Option.map_map]
    cases (request ++ [checksum request])[j / 2]? <;> simp
  have handed : ∀ j, ((fillRequest buf request).toList.take (request.length * wordSize + wordSize))[j]? =
      if j < request.length * 2 + 2 then (fillRequest buf request)[j]? else none := by
    intro j
    rw [words, List.getElem?_take, Vector.getElem?_toList]
  constructor
  · intro same i low high
    have at_flag := congrArg (fun l => l[2 * i.val + 1]?) same
    simp only [handed, expected] at at_flag
    rw [if_pos (by omega), Vector.getElem?_eq_getElem (by omega), fillRequest_getElem, if_neg (by omega),
      if_neg (by omega),
      List.getElem?_eq_getElem (by simp only [List.length_append, List.length_singleton]; omega)] at at_flag
    rw [Option.map_some, if_neg (by omega), if_neg (by omega)] at at_flag
    exact Option.some.inj at_flag
  · intro clear
    apply List.ext_getElem?
    intro j
    rw [handed, expected]
    by_cases h : j < request.length * 2 + 2
    · have inside : j / 2 < (request ++ [checksum request]).length := by
        simp only [List.length_append, List.length_singleton]
        omega
      rw [if_pos h, Vector.getElem?_eq_getElem (by omega), fillRequest_getElem,
        List.getElem?_eq_getElem inside, Option.map_some]
      congr 1
      by_cases even : j % 2 = 0
      · rw [if_pos (by omega), if_pos even, List.getD_eq_getElem?_getD, List.getElem?_eq_getElem inside]
        rfl
      · rw [if_neg (by omega), if_neg even]
        by_cases first : j = 1
        · rw [if_pos first, if_pos (by omega)]
        · have flag := clear ⟨j / 2, by omega⟩ (by dsimp only; omega) (by dsimp only; omega)
          have odd : 2 * (j / 2) + 1 = j := by omega
          rw [if_neg first, if_neg (by omega), ← flag]
          simp only [word, wordSize, odd]
    · rw [if_neg h, List.getElem?_eq_none (by simp only [List.length_append, List.length_singleton]; omega)]
      rfl

/-- An aspect of the state that pigpio's answers and the waves sent leave alone. -/
structure Untouched {γ : Type} (f : Gpio → γ) : Prop where
  answers : ∀ g answers, f { g with answers } = f g
  sent : ∀ g sent, f { g with sent } = f g

theorem untouched_handed : Untouched Gpio.handed := ⟨fun _ _ => rfl, fun _ _ => rfl⟩

/-- A property of programs that calls of pigpio and sending a wave do not break. -/
structure Admits (P : ∀ {α : Type}, GpioM α → Prop) : Prop extends Inherited P where
  err : ∀ {α : Type} (e : MdbError), P (throw (.err e) : GpioM α)
  starved : ∀ {α : Type}, P (throw .starved : GpioM α)
  answers : ∀ answers, P (modify fun g => { g with answers } : GpioM Unit)
  sent : ∀ w, P (modify fun g => { g with sent := g.sent ++ [w] } : GpioM Unit)

/-- A property that reading and collecting a response do not break either. -/
structure AdmitsReads (P : ∀ {α : Type}, GpioM α → Prop) : Prop extends Admits P where
  read : ∀ data, P (modify fun g =>
    { g with buf := overwrite g.buf data, reads := g.reads ++ [data.take bufSize] } : GpioM Unit)
  push : ∀ b, P (modify fun g => { g with response := g.response ++ [b] } : GpioM Unit)

theorem admits_keeps {γ : Type} {f : Gpio → γ} (hf : Untouched f) : Admits (Keeps f) where
  toInherited := inherited_keeps f
  err _ := keeps_throw f _
  starved := keeps_throw f _
  answers answers := keeps_modify fun g => hf.answers g answers
  sent _ := keeps_modify fun g => hf.sent g _

namespace Admits

variable {P : ∀ {α : Type}, GpioM α → Prop} (h : Admits P)
include h

theorem call : P call := by
  refine h.bind h.get fun g => ?_
  split
  · exact h.starved
  · exact h.bind (h.answers _) fun _ => h.pure _

theorem check (rc : Int) : P (check rc) := by
  unfold GpioMdb.check
  split
  · exact h.err _
  · exact h.pure _

theorem checkCall : P checkCall := h.bind h.call fun a => h.check a.rc

theorem tickSince (start : UInt32) : P (tickSince start) := h.bind h.call fun _ => h.pure _

theorem micros (d : Duration) : P (micros d) := by
  unfold GpioMdb.micros
  cases durationAsMicros32 d with
  | ok us => exact h.pure _
  | error e => exact h.err e

theorem mdbWaveCreate (s : List UInt8)
    (hand : P (modify fun g => { g with handed := g.handed ++ [s] } : GpioM Unit)) :
    P (mdbWaveCreate s) :=
  h.bind hand fun _ => h.bind h.checkCall fun _ => h.bind h.checkCall fun _ => h.checkCall

theorem sendWaitLoop (start deadline : UInt32) (err : MdbTimeout) (fuel : Nat) :
    P (sendWaitLoop start deadline err fuel) := by
  induction fuel with
  | zero => exact h.starved
  | succ fuel ih =>
    refine h.bind (h.bind h.checkCall fun _ => h.pure _) fun busy => ?_
    split
    · refine h.bind (h.tickSince start) fun total => ?_
      split
      · exact h.err _
      · exact ih
    · exact h.pure _

theorem mdbWaveSendWait (w : MdbWave) (deadline : UInt32) (err : MdbTimeout) :
    P (mdbWaveSendWait w deadline err) := by
  refine h.bind (h.tickSince 0) fun start => ?_
  refine h.bind h.checkCall fun _ => ?_
  refine h.bind (h.sent w) fun _ => ?_
  refine h.bind h.get fun g => ?_
  refine h.bind (h.sendWaitLoop start deadline err _) fun _ => ?_
  exact h.bind h.checkCall fun _ => h.pure _

theorem addU32 (panic : ∀ {α : Type}, P (throw .panic : GpioM α)) (a b : UInt32) : P (addU32 a b) := by
  unfold GpioMdb.addU32
  split
  · exact h.pure _
  · exact panic

theorem answerBlock (panic : ∀ {α : Type}, P (throw .panic : GpioM α)) (timeout_small_us : UInt32)
    (end_byte : UInt8) :
    P (answerBlock timeout_small_us end_byte) := by
  refine h.bind h.get fun g => ?_
  dsimp only
  split
  · split
    · exact h.pure _
    · split
      · exact h.err _
      · exact h.err _
  · refine h.bind (h.tickSince 0) fun now => ?_
    refine h.bind (h.addU32 panic _ _) fun deadline_us => ?_
    split
    · exact h.bind (h.mdbWaveSendWait _ _ _) fun _ => h.err _
    · exact h.mdbWaveSendWait _ _ _

end Admits

namespace AdmitsReads

variable {P : ∀ {α : Type}, GpioM α → Prop} (h : AdmitsReads P)
include h

theorem serialRead : P serialRead :=
  h.bind h.call fun a => h.bind (h.check a.rc) fun _ => h.bind (h.read a.data) fun _ => h.pure _

theorem waitReceive (deadline : UInt32) (fuel : Nat) : P (waitReceive deadline fuel) := by
  induction fuel with
  | zero => exact h.starved
  | succ fuel ih =>
    refine h.bind h.serialRead fun n => ?_
    split
    · exact h.pure _
    · refine h.bind (h.tickSince 0) fun now => ?_
      split
      · exact h.err _
      · exact ih

theorem takeWords (ws : List (UInt8 × UInt8)) : P (takeWords ws) := by
  induction ws with
  | nil => exact h.pure _
  | cons w ws ih =>
    unfold GpioMdb.takeWords
    split
    · exact h.pure _
    · exact h.bind (h.push _) fun _ => ih

theorem receiveLoop (deadline : UInt32) (fuel n : Nat) : P (receiveLoop deadline fuel n) := by
  induction fuel generalizing n with
  | zero => exact h.starved
  | succ fuel ih =>
    refine h.bind h.get fun g => ?_
    refine h.bind (h.takeWords _) fun end_byte => ?_
    cases end_byte with
    | some end_byte => exact h.pure _
    | none =>
      refine h.bind h.get fun g' => ?_
      exact h.bind (h.waitReceive deadline _) fun n => ih n

end AdmitsReads

theorem handed_admits : AdmitsReads (Keeps Gpio.handed) where
  toAdmits := admits_keeps untouched_handed
  read _ := keeps_modify fun _ => rfl
  push _ := keeps_modify fun _ => rfl

theorem keeps_txWave (request : List UInt8) (timeout : Duration) : Keeps Gpio.handed (txWave request timeout) := by
  have h := handed_admits
  have panic {α : Type} : Keeps Gpio.handed (throw .panic : GpioM α) := keeps_throw _ _
  refine h.bind (h.micros _) fun timeout_us => ?_
  refine h.bind (h.tickSince 0) fun io_start_us => ?_
  refine h.bind (h.addU32 panic _ _) fun receive_wait_deadline_us => ?_
  refine h.bind (h.addU32 panic _ _) fun send_deadline_us => ?_
  refine h.bind (h.mdbWaveSendWait _ _ _) fun _ => ?_
  refine h.bind h.get fun g => ?_
  refine h.bind (h.waitReceive _ _) fun received_count => ?_
  refine h.bind (h.tickSince 0) fun now => ?_
  refine h.bind (h.addU32 panic _ _) fun receive_deadline => ?_
  refine h.bind h.get fun g' => ?_
  refine h.bind (h.receiveLoop _ _ _) fun end_byte => ?_
  refine h.bind (h.answerBlock panic _ _) fun _ => ?_
  exact h.bind (h.tickSince _) fun _ => h.pure _

/-- One call of `tx` as its caller makes it, with what pigpio answers during it. -/
structure TxCall where
  request : List UInt8
  response : List UInt8 := []
  capacity : Nat := blockMaxLength
  timeout : Duration
  answers : List Answer

def TxCall.Valid (c : TxCall) : Prop :=
  c.request ≠ [] ∧ c.request.length < blockMaxLength ∧ blockMaxLength ≤ c.capacity

instance (c : TxCall) : Decidable c.Valid := inferInstanceAs (Decidable (_ ∧ _))

def callTx (m : GpioMdb) (c : TxCall) : Gpio :=
  after (tx c.capacity c.request c.timeout) { buf := m.buf, response := c.response, answers := c.answers }

def step (m : GpioMdb) (c : TxCall) : Option GpioMdb :=
  if c.Valid then some { m with buf := (callTx m c).buf } else none

/-- A valid call hands over one buffer of words, before pigpio has answered anything. -/
theorem callTx_handed {m : GpioMdb} {c : TxCall} (valid : c.Valid) :
    (callTx m c).handed =
      [(fillRequest m.buf c.request).toList.take (c.request.length * wordSize + wordSize)] := by
  have later : ∀ wave : List UInt8, ∀ g,
      (after (mdbWaveCreate wave >>= fun _ => txWave c.request c.timeout) g).handed = g.handed ++ [wave] := by
    intro wave g
    have create : Keeps Gpio.handed (do let _ ← checkCall; let _ ← checkCall; checkCall : GpioM UInt32) :=
      keeps_bind handed_admits.checkCall fun _ => keeps_bind handed_admits.checkCall fun _ => handed_admits.checkCall
    exact keeps_bind create (fun _ => keeps_txWave c.request c.timeout) { g with handed := g.handed ++ [wave] }
  obtain ⟨nonempty, short, room⟩ := valid
  unfold callTx tx
  rw [if_pos ⟨nonempty, short, room⟩]
  exact later _ _

def HandsOwnBlock (m : GpioMdb) (c : TxCall) (_ : GpioMdb) : Prop :=
  (callTx m c).handed = [wordBytes (mdbBlock c.request)]

instance (m : GpioMdb) (c : TxCall) (m' : GpioMdb) : Decidable (HandsOwnBlock m c m') :=
  inferInstanceAs (Decidable (_ = _))

/-- What earlier reads, or uninitialised memory, left in the flag bytes of the
words behind the first one. -/
def FlagsClear (m : GpioMdb) (c : TxCall) (_ : GpioMdb) : Prop :=
  ∀ i : Fin blockMaxLength, 1 ≤ i.val → i.val ≤ c.request.length → (word m.buf i).2 = 0

theorem handsOwnBlock_iff {m m' : GpioMdb} {c : TxCall} (h : step m c = some m') :
    HandsOwnBlock m c m' ↔ FlagsClear m c m' := by
  have valid : c.Valid := by
    by_contra invalid
    simp [step, invalid] at h
  rw [HandsOwnBlock, callTx_handed valid, List.singleton_inj]
  exact fillRequest_block_iff valid.1 valid.2.1 m.buf

/-- Over every history of calls, from any content of the buffer, the requests
go out as they should exactly when no stale flag byte is in the way. -/
theorem own_request_along_iff (m : GpioMdb) (calls : List TxCall) :
    Runs.Along step HandsOwnBlock m calls ↔ Runs.Along step FlagsClear m calls :=
  Runs.along_iff_along (I := fun _ => True) (C := FlagsClear) (Q := HandsOwnBlock)
    (fun _ _ _ hs _ => handsOwnBlock_iff hs) (fun _ _ _ _ _ _ => trivial) trivial

def cleared : GpioMdb where
  rx_pin := 15
  tx_pin := 14
  wave_ack := 0
  wave_nak := 1
  wait_step := 101
  buf := Vector.replicate bufSize 0

def pollThenIdentification : List TxCall :=
  let reply : Answer := { data := [0x41, 0, 0x41, 1] }
  [{ request := [0x0b], timeout := ⟨0, 300000000⟩, answers := List.replicate 8 {} ++ [reply] ++ List.replicate 7 {} },
    { request := [0x0f, 0x00], timeout := ⟨0, 300000000⟩, answers := [] }]

/-- The flag of the reply's end byte goes out with the second byte of the next request. -/
theorem stale_flag_goes_out : ¬Runs.Along step HandsOwnBlock cleared pollThenIdentification := by
  intro h
  have second := ((h _ rfl).2 _ rfl).1
  have flag := (handsOwnBlock_iff rfl).mp second ⟨1, by decide⟩ (by decide) (by decide)
  exact absurd flag (by decide +kernel)

end GpioMdb

end Vender
