import Vender.GpioAnswers
import Vender.PacketReader

namespace Vender

namespace FileUart

def incomingReply (d : List UInt8) (c : UInt8) : List UInt8 := escape d ++ [0xff, 0x00, c]

/-- What a call does from the reset of its reader on. -/
def afterReset (ops : List UartOp) : List UartOp := ops.dropWhile (· ≠ .resetRead)

/-- The reader puts the data and the last byte of a reply together again. -/
theorem bufferReadPacket_reply {cap : Nat} {d dst : List UInt8} (c : UInt8) (room : dst.length + d.length < cap)
    (small : cap ≤ 4096) : bufferReadPacket cap dst (incomingReply d c) = some (dst ++ d ++ [c], none) := by
  have scans : Scans d (incomingReply d c) [0x00, c] := scans_escape (by omega) _
  rw [bufferReadPacket_eq, readPacket_of_scans scans room]
  rfl

theorem tx_reads {dev : UartDevice} (succeed : ∀ k, dev.fails k = none) (u : FileUart) {request : List UInt8}
    (nonempty : request ≠ []) (cap : Nat) :
    ∃ v before after, tx dev u request cap = receive dev v cap ∧ v.ops = u.ops ++ (before ++ .resetRead :: after) ∧
      .resetRead ∉ before ∧ wire after = [] := by
  obtain ⟨b, rest, rfl⟩ := List.exists_cons_of_ne_nil nonempty
  obtain ⟨v₁, n₁, ops₁, sent₁, grown₁, _, noReset₁⟩ := write9_ok succeed u b rest true
  obtain ⟨v₂, n₂, ops₂, sent₂, grown₂, _, noReset₂⟩ := write9_ok succeed v₁ (checksum (b :: rest)) [] false
  obtain ⟨v, ops, set, _, grown, silent, _⟩ := set9_ok succeed { v₂ with ops := v₂.ops ++ [.resetRead] } false
  refine ⟨v, ops₁ ++ ops₂, ops, ?_, by simp [grown, grown₂, grown₁], by simp [noReset₁, noReset₂], silent⟩
  have reset : resetRead dev v₂ = (v, none) := set
  simp [tx, sent₁, sent₂, reset]

/-- `Tx` returns nil and this block. -/
def Accepts (dev : UartDevice) (u : FileUart) (request d : List UInt8) : Prop :=
  ∃ r ∈ (tx dev u request packetMaxLength).2, r.err = none ∧ r.response.take r.n = d

/-- What `Tx` writes once it has begun to read. -/
def writesAfterReset (dev : UartDevice) (u : FileUart) (request : List UInt8) : List (UInt8 × Bool) :=
  wire (afterReset ((tx dev u request packetMaxLength).1.ops.drop u.ops.length))

theorem afterReset_append {before : List UartOp} (noReset : .resetRead ∉ before) (ops : List UartOp) :
    afterReset (before ++ .resetRead :: ops) = .resetRead :: ops := by
  rw [afterReset, List.dropWhile_append_of_pos]
  · simp
  · intro op mem
    simpa using fun same : op = .resetRead => noReset (same ▸ mem)

theorem receive_refuses {dev : UartDevice} {d : List UInt8} {c : UInt8} (incoming : dev.incoming = incomingReply d c)
    (short : d.length < packetMaxLength) (other : c ≠ checksum d) (u : FileUart) :
    receive dev u packetMaxLength =
      (u, some { n := d.length, response := d ++ [c], err := some (.invalidChecksum c (checksum d)) }) := by
  have read : bufferReadPacket packetMaxLength [] (incomingReply d c) = some (d ++ [c], none) :=
    bufferReadPacket_reply c (by simpa using short) (by decide)
  simp [receive, incoming, read, other]

theorem receive_accepts {dev : UartDevice} (succeed : ∀ k, dev.fails k = none) {d : List UInt8}
    (incoming : dev.incoming = incomingReply d (checksum d)) (short : d.length < packetMaxLength) (u : FileUart) :
    ∃ v ops, receive dev u packetMaxLength =
        (v, some { n := d.length, response := d ++ [checksum d], err := none }) ∧
      v.ops = u.ops ++ ops ∧ wire ops = if d = [] then [] else [(0x00, false)] := by
  have read : bufferReadPacket packetMaxLength [] (incomingReply d (checksum d)) = some (d ++ [checksum d], none) :=
    bufferReadPacket_reply (checksum d) (by simpa using short) (by decide)
  by_cases data : d = []
  · subst data
    exact ⟨u, [], by simp [receive, incoming, read], by simp, rfl⟩
  · obtain ⟨v, n, ops, written, grown, sent, _⟩ := write9_ok succeed u 0x00 [] false
    refine ⟨v, ops, ?_, grown, by rw [sent, if_pos rfl, if_neg data]⟩
    simp [receive, incoming, read, data, written]

variable {dev : UartDevice} {u : FileUart} {request d : List UInt8} {c : UInt8}

theorem accepts_iff (succeed : ∀ k, dev.fails k = none) (incoming : dev.incoming = incomingReply d c)
    (short : d.length < packetMaxLength) (nonempty : request ≠ []) :
    Accepts dev u request d ↔ c = checksum d := by
  obtain ⟨v, before, after, asked, _, _, _⟩ := tx_reads succeed u nonempty packetMaxLength
  rw [Accepts, asked]
  constructor
  · rintro ⟨r, returned, succeeded, _⟩
    by_contra other
    rw [receive_refuses incoming short other] at returned
    obtain rfl := Option.some.inj returned
    cases succeeded
  · rintro rfl
    obtain ⟨w, ops, received, _, _⟩ := receive_accepts succeed incoming short v
    exact ⟨_, by rw [received]; rfl, rfl, by simp⟩

theorem writesAfterReset_of_accepts (succeed : ∀ k, dev.fails k = none) (incoming : dev.incoming = incomingReply d c)
    (short : d.length < packetMaxLength) (nonempty : request ≠ []) (same : c = checksum d) :
    writesAfterReset dev u request = if d = [] then [] else [(0x00, false)] := by
  subst same
  obtain ⟨v, before, after, asked, ops, noReset, silent⟩ := tx_reads succeed u nonempty packetMaxLength
  obtain ⟨w, more, received, grown, sent⟩ := receive_accepts succeed incoming short v
  have whole : (tx dev u request packetMaxLength).1.ops.drop u.ops.length =
      before ++ .resetRead :: (after ++ more) := by
    rw [asked, received]
    simp [grown, ops]
  have reset : wire (.resetRead :: (after ++ more)) = wire (after ++ more) := rfl
  rw [writesAfterReset, whole, afterReset_append noReset, reset, wire_append, silent, sent, List.nil_append]

end FileUart

namespace GpioMdb

def Accepts (m : GpioMdb) (call : TxCall) (d : List UInt8) : Prop :=
  ∃ g, tx call.capacity call.request call.timeout
    { buf := m.buf, response := call.response, answers := call.answers } = .ok () g ∧ g.response = d

def Ask.answer : Ask → Answer
  | .accepted => {}
  | .busy => { rc := 1 }
  | .idle => {}
  | .tick t => { tick := t }
  | .read ws => { rc := (rawWords ws).length, data := rawWords ws }

theorem Ask.met_answer (ask : Ask) : ask.Met ask.answer := by
  cases ask with
  | accepted => exact Int.le_refl 0
  | busy => rfl
  | idle => rfl
  | tick t => rfl
  | read ws => exact ⟨Int.natCast_nonneg _, rfl⟩

theorem serves_answers (asks : List Ask) : Serves asks (asks.map Ask.answer) [] := by
  induction asks with
  | nil => exact .nil
  | cons ask asks ih => exact .cons ask.met_answer ih

end GpioMdb

open GpioMdb (TxCall Exchange Serves callTx)

/-- What the two drivers make of one reply: both return its data if its last
byte is the checksum, and then both acknowledge it if there is data. -/
structure SameReply (dev : UartDevice) (u : FileUart) (m : GpioMdb) (call : TxCall) (d : List UInt8) (c : UInt8) :
    Prop where
  together : FileUart.Accepts dev u call.request d ↔ GpioMdb.Accepts m call d
  uart : FileUart.Accepts dev u call.request d ↔ c = checksum d
  gpio : GpioMdb.Accepts m call d ↔ c = checksum d
  uartAck : FileUart.Accepts dev u call.request d →
    FileUart.writesAfterReset dev u call.request = if d = [] then [] else [(0x00, false)]
  gpioAck : GpioMdb.Accepts m call d → (callTx m call).sent = .request :: if d = [] then [] else [.ack]

/-- One reply on its way to both drivers: the line discipline escapes it for the
one, pigpio delivers it to the other in chunks and in time. -/
structure OneReply (dev : UartDevice) (call : TxCall) (x : Exchange) (timeout_us : UInt32)
    (d : List UInt8) (c : UInt8) :
    Prop where
  short : d.length ≤ 39
  works : ∀ k, dev.fails k = none
  escaped : dev.incoming = FileUart.incomingReply d c
  valid : call.Valid
  fresh : call.response = []
  timeout : GpioMdb.durationAsMicros32 call.timeout = .ok timeout_us
  carries : x.Carries d c
  served : ∃ left, Serves (x.asks d) call.answers left
  inTime : x.InTime timeout_us call.request

variable {dev : UartDevice} {u : FileUart} {m : GpioMdb} {call : TxCall} {x : Exchange} {timeout_us : UInt32}
  {d : List UInt8} {c : UInt8}

theorem OneReply.gpio_accepts (reply : OneReply dev call x timeout_us d c) (same : c = checksum d)
    (fits : x.DeadlinesFit timeout_us d) (m : GpioMdb) :
    GpioMdb.Accepts m call d ∧ (callTx m call).sent = .request :: if d = [] then [] else [.ack] := by
  subst same
  have short : d.length < blockMaxLength := Nat.lt_succ_of_le reply.short
  obtain ⟨left, served⟩ := reply.served
  obtain ⟨g, returned, response, sent⟩ := GpioMdb.tx_accepts (g := {
    buf := m.buf, response := call.response, answers := call.answers })
    reply.valid reply.timeout served reply.carries short reply.inTime fits reply.fresh
  refine ⟨⟨g, returned, response⟩, ?_⟩
  rw [callTx, Effects.after, returned]
  exact sent

theorem OneReply.gpio_refuses (reply : OneReply dev call x timeout_us d c)
    (refused : c = checksum d → ¬ x.DeadlinesFit timeout_us d) (m : GpioMdb) : ¬ GpioMdb.Accepts m call d := by
  have short : d.length < blockMaxLength := Nat.lt_succ_of_le reply.short
  obtain ⟨left, served⟩ := reply.served
  rintro ⟨g, returned, _⟩
  exact GpioMdb.tx_refuses reply.valid reply.timeout served reply.carries short reply.inTime reply.fresh
    refused g returned

/-- The two drivers accept the same replies exactly as far as `tx` can compute
the deadlines of those that it should accept. -/
theorem sameReply_iff (reply : OneReply dev call x timeout_us d c) (u : FileUart) (m : GpioMdb) :
    SameReply dev u m call d c ↔ (c = checksum d → x.DeadlinesFit timeout_us d) := by
  have short : d.length < packetMaxLength := Nat.lt_succ_of_le reply.short
  have uart : FileUart.Accepts dev u call.request d ↔ c = checksum d :=
    FileUart.accepts_iff reply.works reply.escaped short reply.valid.1
  constructor
  · intro agree same
    by_contra wraps
    exact reply.gpio_refuses (fun _ => wraps) m (agree.gpio.mpr same)
  · intro fits
    have gpio : GpioMdb.Accepts m call d ↔ c = checksum d := by
      constructor
      · intro accepted
        by_contra other
        exact reply.gpio_refuses (fun same => absurd same other) m accepted
      · exact fun same => (reply.gpio_accepts same (fits same) m).1
    refine ⟨uart.trans gpio.symm, uart, gpio, fun accepted => ?_, fun accepted => ?_⟩
    · exact FileUart.writesAfterReset_of_accepts reply.works reply.escaped short reply.valid.1 (uart.mp accepted)
    · have same := gpio.mp accepted
      exact (reply.gpio_accepts same (fits same) m).2

/-- A poll at a tick, whose reply begins to come after a delay and in two chunks. -/
def pollExchange (now delay : UInt32) : Exchange where
  start := now
  request := { start := now + 40, busy := [now + 1000, now + 2000] }
  first := { idle := [now + delay], words := [(0x02, 0), (0x16, 0)] }
  firstTick := now + delay + 200
  more := [{ words := [(0x41, 0), (0x59, 1)] }]
  answerTick := now + delay + 2400
  answer := { start := now + delay + 2440, busy := [now + delay + 3500] }
  last := now + delay + 4600

def pollDevice : UartDevice where
  fails := fun _ => none
  incoming := FileUart.incomingReply [0x02, 0x16, 0x41] 0x59

def pollCall (x : Exchange) : TxCall where
  request := [0x0b]
  timeout := ⟨0, 300000000⟩
  answers := (x.asks [0x02, 0x16, 0x41]).map GpioMdb.Ask.answer

theorem pollReply {now delay : UInt32} (inTime : (pollExchange now delay).InTime 300000 [0x0b]) :
    OneReply pollDevice (pollCall (pollExchange now delay)) (pollExchange now delay) 300000
    [0x02, 0x16, 0x41] 0x59 where
  short := by decide
  works := fun _ => rfl
  escaped := rfl
  valid := by simp [TxCall.Valid, pollCall, blockMaxLength]
  fresh := rfl
  timeout := GpioMdb.durationAsMicros32_300ms
  carries := ⟨rfl, by simp [pollExchange], by simp [pollExchange]⟩
  served := ⟨[], GpioMdb.serves_answers _⟩
  inTime := inTime

/-- A reply after 2.5 ms, the clock at one second. -/
theorem earlyPoll_inTime : (pollExchange 1000000 2500).InTime 300000 [0x0b] where
  waitFits := by decide
  sendFits := by decide
  request := by decide
  first := List.forall_mem_singleton.mpr (by decide)
  more := by simp [pollExchange]
  answer := List.forall_mem_singleton.mpr (by decide)

theorem earlyPoll_sameReply :
    SameReply pollDevice ⟨0, true, []⟩ .cleared (pollCall (pollExchange 1000000 2500)) [0x02, 0x16, 0x41] 0x59 :=
  (sameReply_iff (pollReply earlyPoll_inTime) ⟨0, true, []⟩ .cleared).mpr fun _ =>
    ⟨by decide, fun _ => by decide⟩

/-- A reply after 0.25 s, the clock 0.35 s before it wraps. -/
theorem latePoll_inTime : (pollExchange 4294617296 250000).InTime 300000 [0x0b] where
  waitFits := by decide
  sendFits := by decide
  request := by decide
  first := List.forall_mem_singleton.mpr (by decide)
  more := by simp [pollExchange]
  answer := List.forall_mem_singleton.mpr (by decide)

/-- The data and its checksum come in time, but `tx` panics on its next deadline. -/
theorem latePoll_not_sameReply :
    ¬ SameReply pollDevice ⟨0, true, []⟩ .cleared (pollCall (pollExchange 4294617296 250000))
    [0x02, 0x16, 0x41] 0x59 := by
  intro agree
  have wraps : ¬ (pollExchange 4294617296 250000).DeadlinesFit 300000 [0x02, 0x16, 0x41] := fun fits => by
    exact absurd fits.1 (by decide)
  exact (pollReply latePoll_inTime).gpio_refuses (fun _ => wraps) .cleared (agree.gpio.mpr (by decide))

end Vender
