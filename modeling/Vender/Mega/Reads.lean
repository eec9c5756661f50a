import Vender.I2c
import Vender.Mega.RoundTrip
import Vender.Lib.Runs

namespace Vender.Mega

open I2c (BusError I2cBus Transfer)

def bufferLength : Nat := responseMaxLength.toNat + 1

def emptyBuffer : List UInt8 := List.replicate bufferLength 0

structure Client where
  addr : UInt8
  bus : I2cBus
  /-- the buffer of `run` -/
  buf : List UInt8
  /-- how many `Do` stand between their write and their read -/
  doing : Nat
  buf_length : buf.length = bufferLength

/-- What becomes of a read: its error, or what `ParseResponse` makes of the buffer. -/
inductive ReadEnd
  | busError (err : BusError)
  | parsed (p : Parsed)
  deriving DecidableEq

inductive ClientEvent
  | doWrite (t : Transfer)
  | doRead (t : Transfer)
  | runWrite (t : Transfer)
  | runRead (t : Transfer)

namespace Client

def rawRead (self : Client) (t : Transfer) (buf : List UInt8) : I2cBus × List UInt8 × Option BusError :=
  match self.bus.readBytesAt t self.addr buf with
  | (bus, buf, _, err) => (bus, buf, err)

def rawWrite (self : Client) (t : Transfer) : I2cBus × Option BusError := self.bus.writeBytesAt t self.addr

/-- What both `Do` and `run` do with a buffer: `RawRead`, and `ParseResponse` if that returns no error. -/
def readAndParse (self : Client) (t : Transfer) (buf : List UInt8) : I2cBus × List UInt8 × ReadEnd :=
  match self.rawRead t buf with
  | (bus, buf, some err) => (bus, buf, .busError err)
  | (bus, buf, none) => (bus, buf, .parsed (parseResponse buf))

theorem readAndParse_length (self : Client) (t : Transfer) {buf : List UInt8} (size : buf.length = bufferLength) :
    (self.readAndParse t buf).2.1.length = bufferLength := by
  unfold readAndParse rawRead
  rcases self.bus.readBytesAt_cases t self.addr buf with ⟨_, b, n, read⟩ | ⟨_, b, err, read⟩
  · have short : (t.delivered buf.length).length ≤ buf.length := List.length_take_le _ _
    rw [read]
    simp only [List.length_append, List.length_drop]
    omega
  · rw [read]
    exact size

def step (self : Client) : ClientEvent → Option Client
  | .doWrite t =>
    match self.rawWrite t with
    | (bus, some _) => some { self with bus := bus }
    | (bus, none) => some { self with bus := bus, doing := self.doing + 1 }
  | .doRead t =>
    if self.doing = 0 then none
    else some { self with bus := (self.readAndParse t emptyBuffer).1, doing := self.doing - 1 }
  | .runWrite t => some { self with bus := (self.rawWrite t).1 }
  | .runRead t =>
    some { self with
      bus := (self.readAndParse t self.buf).1
      buf := (self.readAndParse t self.buf).2.1
      buf_length := self.readAndParse_length t self.buf_length }

end Client

def Whole (delivered : List UInt8) : Prop := ∃ total rest, delivered = total :: rest ∧ total.toNat ≤ rest.length

/-- Every packet consists of bytes that were delivered, and what is not a whole response is
an error. -/
def Fresh (delivered : List UInt8) : ReadEnd → Prop
  | .busError _ => True
  | .parsed p =>
    (∃ as : List Firmware.Answer, p.packets = as.map toPacket ∧
        as.flatMap Firmware.Answer.encode <+: delivered.tail) ∧
      (Whole delivered ∨ ∃ err, p.outcome = .notValid err)

def overlay (buf delivered : List UInt8) : List UInt8 := delivered ++ buf.drop delivered.length

/-- The first packet that is not delivered whole is refused for what stands in the buffer,
or the length byte is. -/
def Refused (buf delivered : List UInt8) : Prop :=
  responseMaxLength < (overlay buf delivered).headD 0 ∨
    ∃ (as : List Firmware.Answer) (part : List UInt8) (err : NotValid),
      delivered.tail = as.flatMap Firmware.Answer.encode ++ part ∧
        part ++ (packetArea (overlay buf delivered)).drop delivered.tail.length ≠ [] ∧
        Packet.parse (part ++ (packetArea (overlay buf delivered)).drop delivered.tail.length) = some (.error err)

theorem toPacket_injective : Function.Injective toPacket := by
  intro a b same
  cases a
  cases b
  simp only [toPacket, Packet.mk.injEq] at same
  obtain ⟨_, header, rfl⟩ := same
  rw [Firmware.Response.code_injective header]

theorem parse_error_iff (b : List UInt8) :
    (∃ err, Packet.parse b = some (.error err)) ↔ ∀ a, ¬ Firmware.Answer.encode a <+: b := by
  constructor
  · rintro ⟨err, failed⟩
    exact Packet.stuck_of_parse_error failed
  · intro stuck
    rcases Packet.parse_cases b with failed | ⟨a, t, rfl⟩
    · exact failed
    · exact absurd (List.prefix_append _ _) (stuck a)

theorem overlay_cons {buf delivered : List UInt8} (size : buf.length = bufferLength)
    (short : delivered.length ≤ bufferLength) :
    ∃ total rest, overlay buf delivered = total :: rest ∧ rest.length = responseMaxLength.toNat := by
  have length : (overlay buf delivered).length = responseMaxLength.toNat + 1 := by
    rw [overlay, List.length_append, List.length_drop, size]
    simp only [bufferLength] at short ⊢
    omega
  obtain ⟨total, rest, cut⟩ := List.exists_cons_of_length_eq_add_one length
  rw [cut, List.length_cons] at length
  exact ⟨total, rest, cut, by omega⟩

theorem fresh_of_whole {buf delivered : List UInt8} (short : delivered.length ≤ bufferLength)
    (whole : Whole delivered) :
    Fresh delivered (.parsed (parseResponse (overlay buf delivered))) := by
  refine ⟨?_, Or.inl whole⟩
  obtain ⟨total, rest, rfl, fits⟩ := whole
  have small : total ≤ responseMaxLength := by
    rw [UInt8.le_iff_toNat_le]
    simp only [bufferLength, List.length_cons] at short
    omega
  have covered : total.toNat ≤ (rest ++ buf.drop (rest.length + 1)).length := by
    rw [List.length_append]
    omega
  obtain ⟨as, tail, packets, area, _, _⟩ := parseResponse_of_accepted small covered
  refine ⟨as, packets, ?_⟩
  rw [List.take_append_of_le_length fits] at area
  exact (List.prefix_append _ tail).trans (area ▸ List.take_prefix _ _)

/-- Where the length byte announces more than was delivered, what was delivered of the
packets stands in front of what the buffer held before. -/
theorem packetArea_of_short {buf delivered : List UInt8} {total : UInt8} {rest : List UInt8}
    (cut : overlay buf delivered = total :: rest) (small : total ≤ responseMaxLength)
    (fits : total.toNat ≤ rest.length)
    (short : ¬ Whole delivered) :
    packetArea (overlay buf delivered) =
      delivered.tail ++ (packetArea (overlay buf delivered)).drop delivered.tail.length := by
  rw [cut, packetArea_of_accepted small fits]
  cases delivered with
  | nil => rfl
  | cons first more =>
    rw [overlay, List.cons_append, List.cons.injEq] at cut
    obtain ⟨rfl, rfl⟩ := cut
    have less : more.length ≤ first.toNat := by
      by_contra enough
      exact short ⟨first, more, rfl, by omega⟩
    rw [List.tail_cons, List.take_append, List.take_of_length_le less, List.drop_left]

theorem fresh_iff {buf delivered : List UInt8} (size : buf.length = bufferLength)
    (fit : delivered.length ≤ bufferLength) :
    Fresh delivered (.parsed (parseResponse (overlay buf delivered))) ↔ Whole delivered ∨ Refused buf delivered := by
  by_cases whole : Whole delivered
  · exact iff_of_true (fresh_of_whole fit whole) (Or.inl whole)
  obtain ⟨total, rest, cut, length⟩ := overlay_cons size fit
  by_cases small : total ≤ responseMaxLength
  · have fits : total.toNat ≤ rest.length := length ▸ UInt8.le_iff_toNat_le.mp small
    have split := packetArea_of_short cut small fits whole
    obtain ⟨as, tail, packets, area, stuck, ended⟩ := parseResponse_of_accepted small fits
    rw [← packetArea_of_accepted small fits, ← cut] at area
    rw [← cut] at packets ended
    constructor
    · rintro ⟨⟨as', packets', ⟨part, starts⟩⟩, reported⟩
      obtain rfl : as = as' := List.map_injective_iff.mpr toPacket_injective (packets.symm.trans packets')
      have error := reported.resolve_left whole
      have behind : tail = part ++ (packetArea (overlay buf delivered)).drop delivered.tail.length := by
        rw [area, ← starts, List.append_assoc] at split
        rw [area, ← starts]
        exact List.append_cancel_left split
      rcases ended with ⟨nil, _⟩ | ⟨_, more⟩
      · obtain ⟨err, failed⟩ := error
        rw [nil] at failed
        cases failed
      · obtain ⟨err, failed⟩ := (parse_error_iff tail).mpr stuck
        exact Or.inr (Or.inr ⟨as, part, err, starts.symm, behind ▸ more, behind ▸ failed⟩)
    · rintro (absurd' | above | ⟨as', part, err, starts, more, failed⟩)
      · exact absurd absurd' whole
      · rw [cut] at above
        exact absurd small (UInt8.not_le.mpr above)
      · have longest := Firmware.Answer.instantaneous.longest as' ((parse_error_iff _).mp ⟨err, failed⟩)
        rw [← List.append_assoc, ← starts, ← split] at longest
        have found := Firmware.Answer.instantaneous.longest as stuck
        rw [← area] at found
        obtain rfl := longest.unique found
        refine ⟨⟨as', packets, starts ▸ List.prefix_append _ _⟩, Or.inr ?_⟩
        rcases ended with ⟨_, nil⟩ | ⟨failed, _⟩
        · subst nil
          have same : as'.flatMap Firmware.Answer.encode ++
            (part ++ (packetArea (overlay buf delivered)).drop delivered.tail.length) =
              as'.flatMap Firmware.Answer.encode ++ [] := by
            rw [← List.append_assoc, ← starts, ← split, area]
          exact absurd (List.append_cancel_left same) more
        · exact failed
  · have above := UInt8.not_le.mp small
    refine iff_of_true ⟨?_, ?_⟩ (Or.inr (Or.inl (by rwa [cut])))
    all_goals
      obtain ⟨_, err, refused⟩ :=
        parseResponse_of_refused (b := overlay buf delivered) fun total' rest' cut' small' => by
        cases cut.symm.trans cut'
        exact absurd small' small
      rw [refused]
    · exact ⟨[], rfl, List.nil_prefix⟩
    · exact Or.inr ⟨err, rfl⟩

namespace Client

/-- Whatever the step hands to the callback of `ParseResponse` was delivered by its own read. -/
def HandlesFresh (s : Client) (e : ClientEvent) (_ : Client) : Prop :=
  match e with
  | .doRead t => Fresh (t.delivered bufferLength) (s.readAndParse t emptyBuffer).2.2
  | .runRead t => Fresh (t.delivered bufferLength) (s.readAndParse t s.buf).2.2
  | .doWrite _ | .runWrite _ => True

/-- A read that gets to the device delivers a whole response, or what the buffer held before
cannot be taken for one. -/
def ReadsCovered (s : Client) (e : ClientEvent) (_ : Client) : Prop :=
  match e with
  | .doRead t =>
    s.bus.Reaches t s.addr → Whole (t.delivered bufferLength) ∨ Refused emptyBuffer (t.delivered bufferLength)
  | .runRead t => s.bus.Reaches t s.addr → Whole (t.delivered bufferLength) ∨ Refused s.buf (t.delivered bufferLength)
  | .doWrite _ | .runWrite _ => True

theorem readAndParse_fresh_iff (s : Client) (t : Transfer) {buf : List UInt8} (size : buf.length = bufferLength) :
    Fresh (t.delivered bufferLength) (s.readAndParse t buf).2.2 ↔
      (s.bus.Reaches t s.addr → Whole (t.delivered bufferLength) ∨ Refused buf (t.delivered bufferLength)) := by
  have fit : (t.delivered bufferLength).length ≤ bufferLength := List.length_take_le _ _
  unfold readAndParse rawRead
  rcases s.bus.readBytesAt_cases t s.addr buf with ⟨reaches, b, n, read⟩ | ⟨fails, b, err, read⟩
  · rw [read, size]
    exact (fresh_iff size fit).trans ⟨fun covered _ => covered, fun covered => covered reaches⟩
  · rw [read]
    exact iff_of_true trivial fun reaches => absurd reaches fails

theorem step_fresh_iff (s : Client) (e : ClientEvent) (s' : Client) : s.HandlesFresh e s' ↔ s.ReadsCovered e s' := by
  cases e with
  | doRead t => exact s.readAndParse_fresh_iff t List.length_replicate
  | runRead t => exact s.readAndParse_fresh_iff t s.buf_length
  | doWrite t => exact Iff.rfl
  | runWrite t => exact Iff.rfl

/-- A run handles no stale bytes exactly when none of its reads is covered up by what its
buffer held before. -/
theorem handlesFresh_iff (s : Client) (es : List ClientEvent) :
    Runs.Along step HandlesFresh s es ↔ Runs.Along step ReadsCovered s es :=
  Runs.along_iff_along (I := fun _ => True) (fun s e t _ _ => s.step_fresh_iff e t) (fun _ _ _ _ _ _ => trivial)
    trivial

def start (addr : UInt8) : Client where
  addr := addr
  bus := {}
  buf := emptyBuffer
  doing := 0
  buf_length := List.length_replicate

/-- After one good read the device does not answer the next one: its packet is handled twice. -/
theorem second_read_stale : ¬ Runs.Along step HandlesFresh (start 0x78)
    [.runRead { delivers := some [3, 3, 1, 0xc8] }, .runRead { delivers := none }] := by
  intro fresh
  obtain ⟨_, second⟩ := fresh _ rfl
  obtain ⟨⟨⟨as, packets, starts⟩, _⟩, _⟩ := second _ rfl
  have handled : (parseResponse (overlay emptyBuffer [3, 3, 1, 0xc8])).packets ≠ [] := by decide +kernel
  cases as with
  | nil => exact handled packets
  | cons a as =>
    exact Firmware.Answer.instantaneous.ne_nil a (List.append_eq_nil_iff.mp (List.prefix_nil.mp starts)).1

end Client

end Vender.Mega
