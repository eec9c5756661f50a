import Vender.Firmware.Slave
import Vender.Mega.RoundTrip

namespace Vender.Firmware

open Mega (Packet parseResponse)

/-- The firmware and a master that reads `RESPONSE_MAX_LENGTH + 1` bytes at a time: the bytes
of the read in progress, the reads that are complete, and the responses queued so far, with a
`Buffer_Overflow` in the place of each that did not fit. -/
structure Link where
  gate : Gate
  reading : Option (List UInt8)
  reads : List (List UInt8)
  queued : List (Response × List UInt8)

/-- The calls of `master_out_*`, the MDB transfers that commands begin, the other steps of the
firmware, and the two things a master does in a read: it sends the address, or clocks out one
byte. -/
inductive LinkEvent
  | out1 (header : Response)
  | out2 (header : Response) (data : UInt8)
  | outN (header : Response) (data : List UInt8)
  | transaction (data : List UInt8)
  | busReset (duration : UInt8)
  | main (e : Event)
  | address
  | clock

namespace Link

/-- A step that queues one response of `size` bytes, or none. -/
def queue (s : Link) (size : Nat) (g : Gate) : Link :=
  { s with
    gate := g
    queued := s.queued ++ g.history.emitted.drop s.gate.history.emitted.length ++
      if s.gate.masterOut.length + size ≤ responseMaxLength then [] else [(.bufferOverflow, [UInt8.ofNat size])] }

/-- The master acknowledges every byte but the last it wants. The status that the slave sees
also depends on TWEA, and after `ST_LAST_DATA` the bus stays high. -/
def step (s : Link) : LinkEvent → Option Link
  | .out1 header => some (s.queue 3 (s.gate.masterOut1 header))
  | .out2 header data => some (s.queue 4 (s.gate.masterOut2 header data))
  | .outN header data =>
    if data.length ≤ 255 then
      some (s.queue (3 + UInt8.ofNat data.length).toNat (s.gate.masterOutN header data))
    else none
  | .transaction data =>
    if s.gate.mdbState = .idle then
      some (s.queue 0 (Gate.mdbStartSend true { s.gate with mdbOut := s.gate.mdbBlock data }))
    else none
  | .busReset duration =>
    if s.gate.mdbState = .idle then
      some (s.queue 0 (Gate.timer0Set duration { s.gate with mdbState := .busReset, txen0 := false }))
    else none
  | .main (.twi ..) => none
  | .main .watchdog => none
  | .main .mdbStep => (Firmware.step s.gate .mdbStep).map (s.queue s.gate.answerLength)
  | .main e => (Firmware.step s.gate e).map (s.queue 0)
  | .address =>
    if s.reading = none ∧ s.gate.twcr &&& 0x40 ≠ 0 then
      (Firmware.step s.gate (.twi .stSlaAck s.gate.twdr)).map fun g => { s with gate := g, reading := some [] }
    else none
  | .clock =>
    match s.reading with
    | none => none
    | some bytes =>
      let bytes := bytes ++ [s.gate.twdr]
      if bytes.length = responseMaxLength + 1 then
        (Firmware.step s.gate (.twi .stDataNack s.gate.twdr)).map fun g =>
          { s with gate := g, reading := none, reads := s.reads ++ [bytes] }
      else if s.gate.twcr &&& 0x40 ≠ 0 then
        (Firmware.step s.gate (.twi .stDataAck s.gate.twdr)).map fun g =>
          { s with gate := g, reading := some bytes }
      else
        (Firmware.step s.gate (.twi .stLastData s.gate.twdr)).map fun g =>
          { s with
            gate := g, reading := none
            reads := s.reads ++ [bytes ++ List.replicate (responseMaxLength + 1 - bytes.length) 0xff] }

/-- The packets that responses are sent as. -/
def packets (rs : List (Response × List UInt8)) : List Packet :=
  rs.map fun r => ⟨3 + UInt8.ofNat r.2.length, r.1.code, r.2⟩

/-- Each read is a length byte and as many bytes of whole, valid packets, and all the packets
read so far are the first ones of those queued, in order. -/
def Delivers (s : Link) : Prop :=
  (∀ r ∈ s.reads, (parseResponse r).outcome = .nil) ∧
    (s.reads.flatMap fun r => (parseResponse r).packets) <+: packets s.queued

/-- Nothing is on its way to the master. -/
def Drained (s : Link) : Prop :=
  s.reading = none ∧ s.gate.masterOut.length = 0 ∧ s.gate.twiOut.length = 0

/-- The response that the step puts into `master_out`, if any, has room there; or it is longer
than the buffer, but not than its length byte can say, and nothing is before it. -/
def Fits (s : Link) : LinkEvent → Prop
  | .out1 _ => s.gate.masterOut.length + 3 ≤ responseMaxLength
  | .out2 .. => s.gate.masterOut.length + 4 ≤ responseMaxLength
  | .outN _ data =>
    s.gate.masterOut.length + (3 + data.length) ≤ responseMaxLength ∨ data.length ≤ 252 ∧ s.Drained
  | .main .mdbStep => s.gate.masterOut.length + s.gate.answerLength ≤ responseMaxLength
  | _ => True

def start (mcusrSaved : UInt8) : Link :=
  ⟨.boot mcusrSaved ⟨[], [], []⟩, none, [], [(.debug, responseBeeBee)]⟩

/-- The bytes of the packets. -/
def bytesOf (rs : List (Response × List UInt8)) : List UInt8 := rs.flatMap fun r => packet r.1 r.2

theorem bytesOf_length (rs : List (Response × List UInt8)) :
    (bytesOf rs).length = (rs.map fun r => 3 + r.2.length).sum := by
  induction rs with
  | nil => rfl
  | cons r rs ih =>
    rw [bytesOf, List.flatMap_cons, List.length_append, packet_length, List.map_cons, List.sum_cons, ← ih]
    rfl

theorem eq_nil_of_bytesOf {rs : List (Response × List UInt8)} (h : (bytesOf rs).length = 0) : rs = [] := by
  cases rs with
  | nil => rfl
  | cons r rs =>
    rw [bytesOf_length, List.map_cons, List.sum_cons] at h
    omega

/-- What the driver sends in one read: the length of `twi_out` and its bytes. -/
def stream (b : Buffer responseMaxLength) : List UInt8 := UInt8.ofNat b.length :: b.stored

theorem stream_length (b : Buffer responseMaxLength) : (stream b).length = b.length + 1 := by
  rw [stream, List.length_cons, Buffer.stored_length]

theorem parse_stream {b : Buffer responseMaxLength} {rs : List (Response × List UInt8)}
    (stored : b.stored = bytesOf rs) (filler : List UInt8) :
    parseResponse (stream b ++ filler) = ⟨packets rs, .nil⟩ := by
  have length : b.length = (rs.map fun r => 3 + r.2.length).sum := by
    rw [← Buffer.stored_length, stored, bytesOf_length]
  have fits := b.fits
  simp only [responseMaxLength] at fits
  obtain ⟨as, bytes, same, size⟩ := @Mega.written_answers rs (by omega)
  have byte : (UInt8.ofNat b.length).toNat = b.length := by
    rw [UInt8.toNat_ofNat']
    exact Nat.mod_eq_of_lt (by omega)
  have max : UInt8.ofNat b.length ≤ Mega.responseMaxLength := by
    rw [UInt8.le_iff_toNat_le, byte]
    exact fits
  have whole : b.stored = as.flatMap Answer.encode := stored.trans bytes
  rw [stream, whole, List.cons_append, packets, same]
  exact Mega.parseResponse_packets filler max (by omega)

/-- Where a read stands, `front` being the responses in `twi_out` that are not delivered. -/
inductive Phase (front : List (Response × List UInt8)) :
    Option (List UInt8) → Bool × UInt8 × UInt8 × Buffer responseMaxLength → Prop
  | between {idle : Bool} {twea twdr : UInt8} {out : Buffer responseMaxLength} (listens : twea ≠ 0)
      (unread : out.used = 0) (stored : out.stored = bytesOf front) : Phase front none (idle, twea, twdr, out)
  | sending {twea twdr : UInt8} {out : Buffer responseMaxLength} (listens : twea ≠ 0)
      (within : out.used ≤ out.length) (byte : twdr = (stream out).getD out.used 0)
      (stored : out.stored = bytesOf front) :
      Phase front (some ((stream out).take out.used)) (false, twea, twdr, out)
  /-- the byte that goes out now is the last one for the slave -/
  | last {twdr : UInt8} {out : Buffer responseMaxLength} {bytes extra : List UInt8}
      (whole : bytes ++ [twdr] = stream out ++ extra) (short : extra.length ≤ 1)
      (stored : out.stored = bytesOf front) : Phase front (some bytes) (false, 0, twdr, out)
  /-- the last read took every byte of a full buffer; the slave is not addressed again -/
  | deaf {idle : Bool} {twdr : UInt8} {out : Buffer responseMaxLength} (unread : out.used = 0)
      (full : 0 < out.length) (nothing : front = []) : Phase front none (idle, 0, twdr, out)

end Link

namespace Gate

/-- What the driver answers a read with: whether it is idle, TWEA, TWDR and `twi_out`. -/
def reply (g : Gate) := (g.twiIdle, g.twcr &&& 0x40, g.twdr, g.twiOut)

/-- What a read leaves alone. -/
def unread (g : Gate) := (g.mode, g.twiIn, g.masterOut)

variable (data : UInt8) (g : Gate)

theorem stSlaAck_reply : (g.twiVect .stSlaAck data).reply =
    if g.twiOut.length = 0 then (false, 0, 0, g.twiOut)
    else (false, 0x40, UInt8.ofNat g.twiOut.length, { g.twiOut with used := 0 }) := by
  unfold twiVect
  simp only
  split
  · simp only [reply, setTwcr, Slave.twea]
    rfl
  · simp only [reply, setTwcr]
    rfl

theorem stDataAck_reply : (g.twiVect .stDataAck data).reply =
    if more : g.twiOut.used < g.twiOut.length then
      (false, 0x40, g.twiOut.read g.twiOut.used (g.twiOut.lt_size_of_lt_length more),
        { g.twiOut with used := g.twiOut.used + 1 })
    else (false, 0, 0, g.twiOut) := by
  unfold twiVect
  simp only
  split
  · simp only [reply, setTwcr]
    rfl
  · simp only [reply, setTwcr, Slave.twea]
    rfl

theorem stLastData_reply : (g.twiVect .stLastData data).reply = (true, 0x40, data, g.twiOut.clearFast) := by
  simp only [twiVect, reply, setTwcr]
  rfl

theorem stDataNack_reply :
    (g.twiVect .stDataNack data).reply = (true, 0, data, { g.twiOut with used := 0 }) := by
  simp only [twiVect, reply, setTwcr]
  rfl

theorem twiVect_unread {st : TwStatus}
    (read : st = .stSlaAck ∨ st = .stDataAck ∨ st = .stLastData ∨ st = .stDataNack) :
    (g.twiVect st data).unread = g.unread := by
  rcases read with rfl | rfl | rfl | rfl
  · unfold twiVect
    simp only
    split <;> rfl
  · unfold twiVect
    simp only
    split <;> rfl
  · rfl
  · rfl

end Gate

namespace Link

/-- The responses queued are those delivered, those in `twi_out` and those in `master_out`. -/
structure Flows (s : Link) (done front back : List (Response × List UInt8)) : Prop where
  queued : s.queued = done ++ front ++ back
  back : s.gate.masterOut.stored = bytesOf back
  nil : ∀ r ∈ s.reads, (parseResponse r).outcome = .nil
  delivered : (s.reads.flatMap fun r => (parseResponse r).packets) = packets done
  twiIn : s.gate.twiIn.length = 0
  running : s.gate.mode = .running
  phase : Phase front s.reading s.gate.reply

variable {s t : Link} {done front back : List (Response × List UInt8)} {g : Gate}

theorem Flows.delivers (h : s.Flows done front back) : s.Delivers := by
  refine ⟨h.nil, ?_⟩
  rw [h.delivered, h.queued, List.append_assoc, packets, packets, List.map_append]
  exact List.prefix_append _ _

theorem reply_of_bus (bus : g.bus = s.gate.bus) (out : g.twiOut = s.gate.twiOut) : g.reply = s.gate.reply := by
  simp only [Gate.bus, Prod.mk.injEq] at bus
  obtain ⟨_, idle, twcr, twdr, _⟩ := bus
  rw [Gate.reply, Gate.reply, idle, twcr, twdr, out]

theorem unread_of_bus (bus : g.bus = s.gate.bus) (master : g.masterOut = s.gate.masterOut) :
    g.unread = s.gate.unread := by
  simp only [Gate.bus, Prod.mk.injEq] at bus
  obtain ⟨mode, _, _, _, twiIn⟩ := bus
  rw [Gate.unread, Gate.unread, mode, twiIn, master]

/-- A step of a read that does not end it. -/
theorem Flows.reads_on {reading : Option (List UInt8)} (h : s.Flows done front back)
    (unread : g.unread = s.gate.unread) (phase : Phase front reading g.reply) :
    ({ s with gate := g, reading := reading } : Link).Flows done front back := by
  simp only [Gate.unread, Prod.mk.injEq] at unread
  obtain ⟨mode, twiIn, master⟩ := unread
  refine ⟨h.queued, ?_, h.nil, h.delivered, ?_, mode.trans h.running, phase⟩
  · change g.masterOut.stored = _
    rw [master, h.back]
  · change g.twiIn.length = 0
    rw [twiIn, h.twiIn]

/-- A read that ends delivers what stood in `twi_out`. -/
theorem Flows.reads_out {read : List UInt8} (h : s.Flows done front back) (unread : g.unread = s.gate.unread)
    (parsed : parseResponse read = ⟨packets front, .nil⟩) (phase : Phase [] none g.reply) :
    ({ s with gate := g, reading := none, reads := s.reads ++ [read] } : Link).Flows (done ++ front) [] back := by
  simp only [Gate.unread, Prod.mk.injEq] at unread
  obtain ⟨mode, twiIn, master⟩ := unread
  refine ⟨?_, ?_, ?_, ?_, ?_, mode.trans h.running, phase⟩
  · rw [List.append_nil]
    exact h.queued
  · change g.masterOut.stored = _
    rw [master, h.back]
  · intro r hr
    rcases List.mem_append.mp hr with before | now
    · exact h.nil r before
    · rw [List.mem_singleton.mp now, parsed]
  · change (s.reads ++ [read]).flatMap _ = _
    rw [List.flatMap_append, h.delivered, List.flatMap_singleton, parsed, packets, packets, packets, List.map_append]
  · change g.twiIn.length = 0
    rw [twiIn, h.twiIn]

theorem queue_same {size : Nat} (same : g.history.emitted = s.gate.history.emitted)
    (room : s.gate.masterOut.length + size ≤ responseMaxLength) : s.queue size g = { s with gate := g } := by
  rw [queue, if_pos room, same, List.drop_length, List.append_nil, List.append_nil]

theorem queue_grown {size : Nat} {header : Response} {data : List UInt8}
    (grown : g.history.emitted = s.gate.history.emitted ++ [(header, data)])
    (room : s.gate.masterOut.length + size ≤ responseMaxLength) :
    s.queue size g = { s with gate := g, queued := s.queued ++ [(header, data)] } := by
  rw [queue, if_pos room, grown, List.drop_left, List.append_nil]

theorem queue_refused {size : Nat} (same : g.history.emitted = s.gate.history.emitted)
    (full : responseMaxLength < s.gate.masterOut.length + size) :
    s.queue size g = { s with gate := g, queued := s.queued ++ [(.bufferOverflow, [UInt8.ofNat size])] } := by
  rw [queue, if_neg (Nat.not_le.mpr full), same, List.drop_length, List.append_nil]

/-- A step that leaves the driver and the responses alone. -/
theorem Flows.quiet {size : Nat} (h : s.Flows done front back) (bus : g.bus = s.gate.bus)
    (queues : g.queues = s.gate.queues) (room : s.gate.masterOut.length + size ≤ responseMaxLength) :
    (s.queue size g).Flows done front back := by
  simp only [Gate.queues, Prod.mk.injEq] at queues
  obtain ⟨master, out, emitted⟩ := queues
  rw [queue_same emitted room]
  refine h.reads_on (unread_of_bus bus master) ?_
  rw [reply_of_bus bus out]
  exact h.phase

/-- A response that is appended to `master_out` goes to the end of the queue. -/
theorem Flows.grown {header : Response} {data : List UInt8} (h : s.Flows done front back)
    (bus : g.bus = s.gate.bus) (out : g.twiOut = s.gate.twiOut)
    (stored : g.masterOut.stored = s.gate.masterOut.stored ++ packet header data)
    (emitted : g.history.emitted = s.gate.history.emitted ++ [(header, data)])
    (room : s.gate.masterOut.length + (3 + data.length) ≤ responseMaxLength) :
    (s.queue (3 + data.length) g).Flows done front (back ++ [(header, data)]) := by
  rw [queue_grown emitted room]
  have reply := reply_of_bus bus out
  simp only [Gate.bus, Prod.mk.injEq] at bus
  obtain ⟨mode, _, _, _, twiIn⟩ := bus
  refine ⟨?_, ?_, h.nil, h.delivered, ?_, mode.trans h.running, ?_⟩
  · change s.queued ++ _ = _
    rw [h.queued, List.append_assoc]
  · change g.masterOut.stored = _
    rw [stored, h.back, bytesOf, bytesOf, List.flatMap_append]
    simp
  · change g.twiIn.length = 0
    rw [twiIn, h.twiIn]
  · change Phase front s.reading g.reply
    rw [reply]
    exact h.phase

theorem Flows.puts {header : Response} {data : List UInt8} (h : s.Flows done front back)
    (puts : Puts header data s.gate g)
    (room : s.gate.masterOut.length + (3 + data.length) ≤ responseMaxLength) :
    (s.queue (3 + data.length) g).Flows done front (back ++ [(header, data)]) :=
  h.grown puts.bus (puts.twiOut_of_room room) (puts.stored room) (puts.emitted_of_room room) room

/-- The length of a packet as `master_out_n` computes it. -/
theorem packetLength_toNat {data : List UInt8} (small : data.length ≤ 252) :
    (3 + UInt8.ofNat data.length).toNat = 3 + data.length :=
  Answer.lengthByte_toNat ⟨.status, data, small⟩

theorem masterOutN_of_full {header : Response} {data : List UInt8} (small : data.length ≤ 252)
    (full : responseMaxLength < g.masterOut.length + (3 + data.length)) :
    g.masterOutN header data = g.twiOutSet2 .bufferOverflow (UInt8.ofNat (3 + data.length)) := by
  have length := packetLength_toNat small
  have sum : 3 + UInt8.ofNat data.length = UInt8.ofNat (3 + data.length) := by
    rw [UInt8.ofNat_add]
    rfl
  unfold Gate.masterOutN
  simp only [length]
  rw [if_pos full, sum]

/-- Where the driver stands between two reads. -/
theorem Flows.phase_of_none (h : s.Flows done front back) (none : s.reading = none) :
    s.gate.twiOut.used = 0 ∧ (s.gate.twcr &&& 0x40 ≠ 0 ∧ s.gate.twiOut.stored = bytesOf front ∨
      s.gate.twcr &&& 0x40 = 0 ∧ 0 < s.gate.twiOut.length) := by
  have phase := h.phase
  rw [none, Gate.reply] at phase
  generalize s.gate.twcr &&& 0x40 = twea at phase ⊢
  cases phase with
  | between listens unread stored => exact ⟨unread, Or.inl ⟨listens, stored⟩⟩
  | deaf unread full => exact ⟨unread, Or.inr ⟨rfl, full⟩⟩

theorem eq_nil_of_empty {rs : List (Response × List UInt8)} {b : Buffer responseMaxLength} (empty : b.length = 0)
    (stored : b.stored = bytesOf rs) : rs = [] := by
  apply eq_nil_of_bytesOf
  rw [← stored, Buffer.stored_length, empty]

/-- With nothing before it the `Buffer_Overflow` stands where the response would have. -/
theorem Flows.overflows {header : Response} {data : List UInt8} (h : s.Flows done front back)
    (small : data.length ≤ 252) (full : responseMaxLength < s.gate.masterOut.length + (3 + data.length))
    (drained : s.Drained) :
    (s.queue (3 + data.length) (s.gate.masterOutN header data)).Flows done
      [(.bufferOverflow, [UInt8.ofNat (3 + data.length)])] [] := by
  obtain ⟨none, master, out⟩ := drained
  obtain ⟨unread, ⟨listens, stored⟩ | ⟨_, some_byte⟩⟩ := h.phase_of_none none
  · have front_nil := eq_nil_of_empty out stored
    have back_nil := eq_nil_of_empty master h.back
    have same : (Gate.twiOutSet2 .bufferOverflow (UInt8.ofNat (3 + data.length)) s.gate).history.emitted =
        s.gate.history.emitted := rfl
    have bytes : bytesOf [(.bufferOverflow, [UInt8.ofNat (3 + data.length)])] =
        packet .bufferOverflow [UInt8.ofNat (3 + data.length)] := List.append_nil _
    rw [masterOutN_of_full small full, queue_refused same full]
    refine ⟨?_, ?_, h.nil, h.delivered, h.twiIn, h.running, ?_⟩
    · change s.queued ++ _ = _
      rw [h.queued, front_nil, back_nil, List.append_nil, List.append_nil, List.append_nil]
    · rw [← back_nil]
      exact h.back
    · change Phase _ s.reading _
      rw [none]
      refine .between listens unread ?_
      rw [bytes]
      exact Buffer.copy_stored (by simp [responseMaxLength])
  · omega

theorem flows_mdbStep {g' : Gate} (h : s.Flows done front back) (stepped : s.gate.MdbStepped g')
    (room : s.gate.masterOut.length + s.gate.answerLength ≤ responseMaxLength) :
    ∃ back', (s.queue s.gate.answerLength g').Flows done front back' := by
  cases stepped with
  | ret => exact ⟨back, h.quiet rfl rfl room⟩
  | wait => exact ⟨back, h.quiet rfl rfl room⟩
  | @answered header data g₀ g₁ same puts length _ =>
    rw [← length] at room ⊢
    have before : g₀.bus = s.gate.bus ∧ g₀.queues = s.gate.queues := by
      rcases same with rfl | ⟨byte, rfl⟩
      · exact ⟨rfl, rfl⟩
      · exact ⟨rfl, rfl⟩
    obtain ⟨bus, queues⟩ := before
    simp only [Gate.queues, Prod.mk.injEq] at queues
    obtain ⟨masterOut, twiOut, emitted⟩ := queues
    have room₀ : g₀.masterOut.length + (3 + data.length) ≤ responseMaxLength := by rwa [masterOut]
    refine ⟨back ++ [(header, data)], h.grown (puts.bus.trans bus) ?_ ?_ ?_ room⟩
    · exact (puts.twiOut_of_room room₀).trans twiOut
    · rw [← masterOut]
      exact puts.stored room₀
    · rw [← emitted]
      exact puts.emitted_of_room room₀

theorem Flows.swapOut (h : s.Flows done front back) (idle : s.gate.twiIdle = true) :
    ∃ front' back', ({ s with gate := s.gate.swapOut } : Link).Flows done front' back' := by
  have between : s.reading = none := by
    have phase := h.phase
    rw [Gate.reply, idle] at phase
    generalize s.reading = reading, s.gate.twcr &&& 0x40 = twea at phase ⊢
    cases phase <;> rfl
  unfold Gate.swapOut
  split
  next ready =>
    obtain ⟨drained, _⟩ := ready
    obtain ⟨unread, ⟨listens, stored⟩ | ⟨_, some_byte⟩⟩ := h.phase_of_none between
    · have nothing := eq_nil_of_empty (show s.gate.twiOut.length = 0 by omega) stored
      refine ⟨back, [], ?_, rfl, h.nil, h.delivered, h.twiIn, h.running, ?_⟩
      · rw [h.queued, nothing, List.append_nil, List.append_nil]
      · change Phase back s.reading _
        rw [between]
        exact .between listens rfl h.back
    · omega
  next => exact ⟨front, back, h⟩

theorem flows_twiStep {env : Surroundings} (h : s.Flows done front back) (idle : s.gate.twiIdle = true) :
    ∃ front' back', (s.queue 0 (s.gate.twiStep env)).Flows done front' back' := by
  have taken : s.gate.twiStep env = s.gate.swapOut := by
    have none : s.gate.takeCommands env = s.gate := if_pos h.twiIn
    unfold Gate.twiStep
    simp only [none]
    exact if_neg (not_not.mpr h.running)
  have same : s.gate.swapOut.history.emitted = s.gate.history.emitted := by
    unfold Gate.swapOut
    split <;> rfl
  rw [taken, queue_same same s.gate.masterOut.fits]
  exact h.swapOut idle

/-- The address match sends the length byte, and nothing more after a 0. -/
theorem flows_address (h : s.Flows done front back) (between : s.reading = none)
    (listens : s.gate.twcr &&& 0x40 ≠ 0) :
    ({ s with gate := s.gate.twiVect .stSlaAck s.gate.twdr, reading := some [] } : Link).Flows done front back := by
  obtain ⟨unread, ⟨_, stored⟩ | ⟨deaf, _⟩⟩ := h.phase_of_none between
  · refine h.reads_on (Gate.twiVect_unread _ _ (Or.inl rfl)) ?_
    rw [Gate.stSlaAck_reply]
    split
    next empty =>
      have whole : [] ++ [0] = stream s.gate.twiOut ++ [] := by
        rw [stream, empty, Buffer.stored_of_empty empty]
        rfl
      exact .last whole (Nat.zero_le _) stored
    next =>
      exact @Phase.sending _ _ _ { s.gate.twiOut with used := 0 } (by simp) (Nat.zero_le _) rfl stored
  · exact absurd deaf listens

theorem stream_getD {b : Buffer responseMaxLength} {n : Nat} (more : n < b.length) :
    (stream b).getD (n + 1) 0 = b.read n (b.lt_size_of_lt_length more) := by
  rw [stream, List.getD_cons_succ, Buffer.read_eq_getD, Buffer.stored, List.getD_eq_getElem?_getD,
    List.getD_eq_getElem?_getD, List.getElem?_take_of_lt more]

theorem stream_take_succ {b : Buffer responseMaxLength} {n : Nat} (within : n ≤ b.length) :
    (stream b).take n ++ [(stream b).getD n 0] = (stream b).take (n + 1) := by
  have inside : n < (stream b).length := by
    rw [stream_length]
    omega
  rw [List.getD_eq_getElem?_getD, List.getElem?_eq_getElem inside, Option.getD_some,
    List.take_succ_eq_append_getElem inside]

/-- What has gone out after the byte in TWDR: the beginning of what `twi_out` holds, or all of
that with at most one byte after it, and then TWEA tells whether the driver wants to go on. -/
theorem Flows.bytes {bytes : List UInt8} (h : s.Flows done front back) (reading : s.reading = some bytes) :
    s.gate.twiOut.stored = bytesOf front ∧
      (s.gate.twcr &&& 0x40 ≠ 0 ∧ s.gate.twiOut.used ≤ s.gate.twiOut.length ∧
          bytes ++ [s.gate.twdr] = (stream s.gate.twiOut).take (s.gate.twiOut.used + 1) ∨
        s.gate.twcr &&& 0x40 = 0 ∧
          ∃ extra, extra.length ≤ 1 ∧ bytes ++ [s.gate.twdr] = stream s.gate.twiOut ++ extra) := by
  have phase := h.phase
  rw [reading, Gate.reply] at phase
  generalize s.gate.twiIdle = idle, s.gate.twcr &&& 0x40 = twea at phase ⊢
  cases phase with
  | sending listens within byte stored =>
    refine ⟨stored, Or.inl ⟨listens, within, ?_⟩⟩
    rw [byte, stream_take_succ within]
  | last whole short stored => exact ⟨stored, Or.inr ⟨rfl, _, short, whole⟩⟩

/-- The master acknowledges a byte, and there are more to come. -/
theorem flows_dataAck {bytes : List UInt8} (h : s.Flows done front back) (reading : s.reading = some bytes)
    (listens : s.gate.twcr &&& 0x40 ≠ 0) :
    ({ s with
      gate := s.gate.twiVect .stDataAck s.gate.twdr, reading := some (bytes ++ [s.gate.twdr]) } :
        Link).Flows done front back := by
  obtain ⟨stored, ⟨_, within, sent⟩ | ⟨deaf, _⟩⟩ := h.bytes reading
  · refine h.reads_on (Gate.twiVect_unread _ _ (Or.inr (Or.inl rfl))) ?_
    rw [Gate.stDataAck_reply, sent]
    split
    next more =>
      exact @Phase.sending _ _ _ { s.gate.twiOut with used := s.gate.twiOut.used + 1 } (by simp) more
        (stream_getD more).symm stored
    next all =>
      have length := stream_length s.gate.twiOut
      have whole : (stream s.gate.twiOut).take (s.gate.twiOut.used + 1) = stream s.gate.twiOut :=
        List.take_of_length_le (by omega)
      rw [whole]
      exact @Phase.last _ _ _ _ [0] rfl (Nat.le_refl 1) stored
  · exact absurd deaf listens

/-- The master acknowledges the byte after which the driver does not listen. -/
theorem flows_lastData {bytes : List UInt8} (h : s.Flows done front back) (reading : s.reading = some bytes)
    (deaf : s.gate.twcr &&& 0x40 = 0) (filler : List UInt8) :
    ({ s with
      gate := s.gate.twiVect .stLastData s.gate.twdr, reading := none
      reads := s.reads ++ [bytes ++ [s.gate.twdr] ++ filler] } : Link).Flows (done ++ front) [] back := by
  obtain ⟨stored, ⟨listens, _⟩ | ⟨_, extra, _, whole⟩⟩ := h.bytes reading
  · exact absurd deaf listens
  · refine h.reads_out (Gate.twiVect_unread _ _ (Or.inr (Or.inr (Or.inl rfl)))) ?_ ?_
    · rw [whole, List.append_assoc]
      exact parse_stream stored _
    · rw [Gate.stLastData_reply]
      exact .between (by simp) rfl rfl

/-- The master does not acknowledge the last byte it wants, which only the longest responses
reach. -/
theorem flows_dataNack {bytes : List UInt8} (h : s.Flows done front back) (reading : s.reading = some bytes)
    (all : (bytes ++ [s.gate.twdr]).length = responseMaxLength + 1) :
    ({ s with
      gate := s.gate.twiVect .stDataNack s.gate.twdr, reading := none
      reads := s.reads ++ [bytes ++ [s.gate.twdr]] } : Link).Flows (done ++ front) [] back := by
  obtain ⟨stored, sent⟩ := h.bytes reading
  have fits := s.gate.twiOut.fits
  have length := stream_length s.gate.twiOut
  simp only [responseMaxLength] at all fits
  have whole : ∃ extra, bytes ++ [s.gate.twdr] = stream s.gate.twiOut ++ extra ∧ 0 < s.gate.twiOut.length := by
    rcases sent with ⟨_, within, sent⟩ | ⟨_, extra, short, sent⟩
    · have cut := congrArg List.length sent
      rw [all, List.length_take] at cut
      refine ⟨[], ?_, by omega⟩
      rw [sent, List.append_nil]
      exact List.take_of_length_le (by omega)
    · have cut := congrArg List.length sent
      rw [all, List.length_append] at cut
      exact ⟨extra, sent, by omega⟩
  obtain ⟨extra, whole, some_byte⟩ := whole
  refine h.reads_out (Gate.twiVect_unread _ _ (Or.inr (Or.inr (Or.inr rfl)))) ?_ ?_
  · rw [whole]
    exact parse_stream stored extra
  · rw [Gate.stDataNack_reply]
    exact .deaf rfl some_byte rfl

/-- Some responses have been delivered, some stand in `twi_out`, the rest in `master_out`. -/
def Inv (s : Link) : Prop := ∃ done front back, s.Flows done front back

theorem Flows.main {e : Event} (h : s.Flows done front back) (moved : s.step (.main e) = some t)
    (fits : s.Fits (.main e)) : t.Inv := by
  cases e with
  | twi | watchdog => cases moved
  | twiStep env =>
    obtain ⟨g, taken, rfl⟩ := Option.map_eq_some_iff.mp moved
    obtain ⟨⟨_, idle⟩, rfl⟩ := enabled_step taken
    obtain ⟨front', back', flows⟩ := @flows_twiStep _ _ _ _ env h idle
    exact ⟨done, front', back', flows⟩
  | mdbStep =>
    obtain ⟨g, taken, rfl⟩ := Option.map_eq_some_iff.mp moved
    obtain ⟨_, rfl⟩ := enabled_step taken
    obtain ⟨back', flows⟩ := flows_mdbStep h s.gate.mdbStep_stepped fits
    exact ⟨done, front, back', flows⟩
  | usartRx | usartUdre | usartTx | timer0Ovf =>
    obtain ⟨g, taken, rfl⟩ := Option.map_eq_some_iff.mp moved
    obtain ⟨bus, queues⟩ := step_frame taken rfl (by simp)
    exact ⟨done, front, back, h.quiet bus queues s.gate.masterOut.fits⟩

theorem Flows.clock (h : s.Flows done front back) (moved : s.step .clock = some t) : t.Inv := by
  simp only [step] at moved
  split at moved
  next => cases moved
  next bytes reading =>
    split at moved
    next all =>
      obtain ⟨g, taken, rfl⟩ := Option.map_eq_some_iff.mp moved
      obtain ⟨_, rfl⟩ := enabled_step taken
      exact ⟨_, _, _, flows_dataNack h reading all⟩
    next =>
      split at moved
      next listens =>
        obtain ⟨g, taken, rfl⟩ := Option.map_eq_some_iff.mp moved
        obtain ⟨_, rfl⟩ := enabled_step taken
        exact ⟨_, _, _, flows_dataAck h reading listens⟩
      next deaf =>
        obtain ⟨g, taken, rfl⟩ := Option.map_eq_some_iff.mp moved
        obtain ⟨_, rfl⟩ := enabled_step taken
        exact ⟨_, _, _, flows_lastData h reading (not_not.mp deaf) _⟩

theorem inv_step {e : LinkEvent} (moved : s.step e = some t) (inv : s.Inv) (fits : s.Fits e) : t.Inv := by
  obtain ⟨done, front, back, h⟩ := inv
  cases e with
  | out1 header =>
    cases moved
    exact ⟨done, front, _, h.puts (Gate.masterOut1_puts header s.gate) fits⟩
  | out2 header data =>
    cases moved
    exact ⟨done, front, _, h.puts (Gate.masterOut2_puts header data s.gate) fits⟩
  | outN header data =>
    obtain ⟨_, rfl⟩ := enabled_step moved
    have small : data.length ≤ 252 := by
      rcases fits with room | ⟨small, _⟩
      · simp only [responseMaxLength] at room
        omega
      · exact small
    rw [packetLength_toNat small]
    by_cases room : s.gate.masterOut.length + (3 + data.length) ≤ responseMaxLength
    · exact ⟨done, front, _, h.puts (Gate.masterOutN_puts header s.gate small) room⟩
    · have drained := (fits.resolve_left room).2
      exact ⟨done, _, _, h.overflows small (Nat.not_le.mp room) drained⟩
  | transaction data =>
    obtain ⟨_, rfl⟩ := enabled_step moved
    exact ⟨done, front, back, h.quiet rfl rfl s.gate.masterOut.fits⟩
  | busReset duration =>
    obtain ⟨_, rfl⟩ := enabled_step moved
    exact ⟨done, front, back, h.quiet rfl rfl s.gate.masterOut.fits⟩
  | main e => exact h.main moved fits
  | address =>
    simp only [step] at moved
    split at moved
    next ready =>
      obtain ⟨between, listens⟩ := ready
      obtain ⟨g, taken, rfl⟩ := Option.map_eq_some_iff.mp moved
      obtain ⟨_, rfl⟩ := enabled_step taken
      exact ⟨done, front, back, flows_address h between listens⟩
    next => cases moved
  | clock => exact h.clock moved

theorem inv_start (mcusrSaved : UInt8) : (start mcusrSaved).Inv := by
  have short : responseBeeBee.length ≤ 252 := by simp [responseBeeBee]
  have room : 0 + (3 + responseBeeBee.length) ≤ responseMaxLength := by decide
  have bus : (start mcusrSaved).gate.bus = (.running, true, 0x80 ||| 0x40 ||| 0x04 ||| 0x01, 0, .init _) :=
    (Gate.masterOutN_puts .debug _ short).bus
  have out : (start mcusrSaved).gate.twiOut = .init _ :=
    (Gate.masterOutN_puts .debug _ short).twiOut_of_room room
  have stored : (start mcusrSaved).gate.masterOut.stored = [] ++ packet .debug responseBeeBee :=
    (Gate.masterOutN_puts .debug _ short).stored room
  simp only [Gate.bus, Prod.mk.injEq] at bus
  obtain ⟨mode, idle, twcr, twdr, twiIn⟩ := bus
  refine ⟨[], [], [(.debug, responseBeeBee)], rfl, ?_, by simp [start], rfl, ?_, mode, ?_⟩
  · rw [stored, bytesOf, List.flatMap_singleton]
    rfl
  · rw [twiIn]
    rfl
  · rw [Gate.reply, idle, twcr, twdr, out]
    exact .between (by decide) rfl rfl

/-- Along every run in which no response comes that does not fit behind another one, each read
delivers whole packets, and all of them together the first ones of those queued. -/
theorem delivers_along (mcusrSaved : UInt8) (es : List LinkEvent)
    (fits : Runs.Along step (fun s e _ => s.Fits e) (start mcusrSaved) es) :
    Runs.Along step (fun _ _ t => t.Delivers) (start mcusrSaved) es := by
  refine Runs.along_of_invariant (fun s e t taken inv fits => ?_) (inv_start mcusrSaved) fits
  obtain ⟨done, front, back, flows⟩ := inv_step taken inv fits
  exact ⟨flows.delivers, done, front, back, flows⟩

instance (s : Link) : Decidable s.Drained := inferInstanceAs (Decidable (_ ∧ _))

instance (s : Link) (e : LinkEvent) : Decidable (s.Fits e) :=
  match e with
  | .out1 _ => inferInstanceAs (Decidable (_ ≤ _))
  | .out2 .. => inferInstanceAs (Decidable (_ ≤ _))
  | .outN .. => inferInstanceAs (Decidable (_ ∨ _))
  | .main .mdbStep => inferInstanceAs (Decidable (_ ≤ _))
  | .main (.twiStep _) => isTrue trivial
  | .main (.usartRx ..) => isTrue trivial
  | .main .usartUdre => isTrue trivial
  | .main .usartTx => isTrue trivial
  | .main .timer0Ovf => isTrue trivial
  | .main (.twi ..) => isTrue trivial
  | .main .watchdog => isTrue trivial
  | .transaction _ => isTrue trivial
  | .busReset _ => isTrue trivial
  | .address => isTrue trivial
  | .clock => isTrue trivial

instance (s : Link) : Decidable s.Delivers := inferInstanceAs (Decidable (_ ∧ _))

/-- `twi_step` with no command waiting, and nothing in the memory around `twi_in`. -/
def idleLoop : LinkEvent := .main (.twiStep ⟨fun _ => 0, fun _ => true, 100⟩)

/-- The message of the boot is read. -/
def bootRead : List LinkEvent := idleLoop :: .address :: List.replicate 8 .clock

theorem delivers_along_bootRead : Runs.Along step (fun _ _ t => t.Delivers) (start 0x01) bootRead :=
  delivers_along 0x01 bootRead (by decide +kernel)

/-- Two answers to `Debug`, of which the second does not fit, overwrite the unread message of
the boot. -/
theorem overflow_drops_unread :
    ¬ Runs.Along step (fun _ _ t => t.Delivers) (start 0x01)
      (idleLoop :: .outN .debug (List.replicate 40 0) :: .outN .debug (List.replicate 40 0) :: .address ::
        List.replicate 6 .clock) := by
  decide +kernel

end Link

end Vender.Firmware
