import Mathlib.Algebra.GroupWithZero.Nat
import Vender.Firmware.State
import Vender.Lib.PrefixCode

namespace Vender.Firmware

theorem toNat_sub_of_toNat_le {a b : UInt8} (le : b.toNat ≤ a.toNat) : (a - b).toNat = a.toNat - b.toNat :=
  UInt8.toNat_sub_of_le a b (UInt8.le_iff_toNat_le.mpr le)

/-- A response packet as it stands in `master_out`: its length, the header, the data and the
checksum of all of these. -/
def packet (header : Response) (data : List UInt8) : List UInt8 :=
  let body := (3 + UInt8.ofNat data.length) :: header.code :: data
  body ++ [crc8P93N 0 body]

@[simp] theorem packet_length (header : Response) (data : List UInt8) :
    (packet header data).length = 3 + data.length := by
  simp only [packet, List.length_append, List.length_cons, List.length_nil]
  omega

namespace Response

def all : List Response :=
  [.status, .debug, .twi, .mdbStarted, .mdbSuccess, .error, .badPacket, .invalidCrc, .bufferOverflow,
    .unknownCommand, .corruption, .notImplemented, .mdbBusy, .mdbInvalidChk, .mdbNak, .mdbTimeout,
    .mdbInvalidEnd, .mdbReceiveOverflow, .mdbSendOverflow, .uartReadUnexpected, .uartReadError,
    .uartSendBusy]

def ofByte (i : UInt8) : Option Response := all.find? fun r => r.code = i

@[simp] theorem ofByte_code (r : Response) : ofByte r.code = some r := by
  cases r <;> decide

theorem code_injective {r r' : Response} (h : r.code = r'.code) : r = r' :=
  Option.some.inj (by rw [← ofByte_code r, ← ofByte_code r', h])

end Response

/-- A response whose packet has a length that fits its byte. -/
structure Answer where
  header : Response
  data : List UInt8
  short : data.length ≤ 252

namespace Answer

def encode (a : Answer) : List UInt8 := packet a.header a.data

def lengthByte (a : Answer) : UInt8 := 3 + UInt8.ofNat a.data.length

theorem encode_eq (a : Answer) :
    a.encode = a.lengthByte :: a.header.code ::
      (a.data ++ [crc8P93N 0 (a.lengthByte :: a.header.code :: a.data)]) := rfl

@[simp] theorem encode_length (a : Answer) : a.encode.length = 3 + a.data.length :=
  packet_length a.header a.data

theorem lengthByte_toNat (a : Answer) : a.lengthByte.toNat = 3 + a.data.length := by
  have short := a.short
  rw [lengthByte, UInt8.toNat_add, UInt8.toNat_ofNat']
  change (3 + a.data.length % 256) % 256 = _
  omega

/-- The length byte comes first, so no packet starts another. -/
theorem instantaneous : PrefixCode.Instantaneous encode := by
  refine ⟨fun a => ?_, fun {a b} starts => ?_⟩
  · rw [encode_eq]
    exact List.cons_ne_nil _ _
  · obtain ⟨more, same⟩ := starts
    have first : a.lengthByte = b.lengthByte := by
      rw [encode_eq, encode_eq, List.cons_append] at same
      exact (List.cons.inj same).1
    have size : a.data.length = b.data.length := by
      have := congrArg UInt8.toNat first
      rw [lengthByte_toNat, lengthByte_toNat] at this
      omega
    have last : more = [] := by
      have := congrArg List.length same
      rw [List.length_append, encode_length, encode_length, size] at this
      exact List.length_eq_zero_iff.mp (by omega)
    rw [last, List.append_nil, encode_eq, encode_eq] at same
    obtain ⟨_, same⟩ := List.cons.inj same
    obtain ⟨header, same⟩ := List.cons.inj same
    obtain ⟨data, _⟩ := List.append_inj same size
    cases a
    cases b
    simp only [mk.injEq]
    exact ⟨Response.code_injective header, data⟩

theorem stuck_nil (a : Answer) : ¬ a.encode <+: [] :=
  fun starts => instantaneous.ne_nil a (List.prefix_nil.mp starts)

end Answer

namespace Buffer

variable {size : Nat}

theorem append_of_room {b : Buffer size} (data : UInt8) (room : b.length + 1 ≤ size) :
    ∃ b', b.append data = some b' ∧ b'.stored = b.stored ++ [data] := by
  have some_append : ∃ b', b.append data = some b' := by
    unfold append
    rw [dif_neg (by omega)]
    exact ⟨_, rfl⟩
  obtain ⟨b', h⟩ := some_append
  exact ⟨b', h, append_stored h⟩

theorem appendN_stored {b b' : Buffer size} {src : List UInt8} (h : b.appendN src = some b') :
    b'.stored = b.stored ++ src := by
  unfold appendN at h
  split at h
  next => cases h
  next room =>
    cases h
    have hs := b.sized
    have short : (b.data.take b.length).length = b.length := by
      rw [List.length_take]
      omega
    simp only [stored, overwrite]
    have whole : (b.data.take b.length ++ src).length = b.length + src.length := by
      rw [List.length_append, short]
    rw [List.take_append_of_le_length (Nat.le_of_eq whole.symm), List.take_of_length_le (Nat.le_of_eq whole)]

theorem appendN_of_room {b : Buffer size} {src : List UInt8} (room : b.length + src.length ≤ size) :
    ∃ b', b.appendN src = some b' ∧ b'.stored = b.stored ++ src := by
  have some_append : ∃ b', b.appendN src = some b' := by
    unfold appendN
    rw [dif_neg (by omega)]
    exact ⟨_, rfl⟩
  obtain ⟨b', h⟩ := some_append
  exact ⟨b', h, appendN_stored h⟩

theorem copy_stored {b : Buffer size} {src : List UInt8} (fits : src.length ≤ size) :
    (b.copy src).stored = src := by
  have len : (if src.length < size then src.length else size) = src.length := by
    split <;> omega
  simp only [copy, stored, overwrite, len, List.take_length, List.take_zero, List.nil_append, List.take_left]

theorem length_of_stored {b b' : Buffer size} {src : List UInt8} (h : b'.stored = b.stored ++ src) :
    b'.length = b.length + src.length := by
  rw [← b'.stored_length, ← b.stored_length, h, List.length_append]

end Buffer

/-- What `master_out_*` does with a response: it is appended to `master_out` as a packet, or
a `Buffer_Overflow` packet is put in its place into `twi_out`. -/
inductive Puts (header : Response) (data : List UInt8) (g : Gate) : Gate → Prop
  | fits {out : Buffer responseMaxLength}
      (room : g.masterOut.length + (3 + data.length) ≤ responseMaxLength)
      (stored : out.stored = g.masterOut.stored ++ packet header data) :
      Puts header data g
        { g with
          masterOut := out
          history := { g.history with emitted := g.history.emitted ++ [(header, data)] } }
  | overflows {n : UInt8} (full : responseMaxLength < g.masterOut.length + (3 + data.length)) :
      Puts header data g (g.twiOutSet2 .bufferOverflow n)

namespace Gate

theorem masterOutPacket_puts {header : Response} {data bytes : List UInt8} (n : UInt8) (g : Gate)
    (h : bytes = packet header data) : Puts header data g (g.masterOutPacket header data bytes n) := by
  have length : bytes.length = 3 + data.length := by rw [h, packet_length]
  unfold masterOutPacket
  split
  next out taken =>
    refine .fits ?_ (by rw [Buffer.appendN_stored taken, h])
    have room : ¬ responseMaxLength < g.masterOut.length + bytes.length := by
      rw [← Buffer.appendN_eq_none, taken]
      simp
    omega
  next refused =>
    have full := Buffer.appendN_eq_none.mp refused
    exact .overflows (by omega)

theorem masterOut1_puts (header : Response) (g : Gate) : Puts header [] g (g.masterOut1 header) :=
  masterOutPacket_puts _ g rfl

theorem masterOut2_puts (header : Response) (data : UInt8) (g : Gate) :
    Puts header [data] g (g.masterOut2 header data) :=
  masterOutPacket_puts _ g rfl

/-- From 253 bytes on the length of the packet does not fit its byte. -/
theorem masterOutN_puts (header : Response) {data : List UInt8} (g : Gate)
    (small : data.length ≤ 252) : Puts header data g (g.masterOutN header data) := by
  have length : (3 + UInt8.ofNat data.length).toNat = 3 + data.length := by
    rw [UInt8.toNat_add, UInt8.toNat_ofNat']
    change (3 + data.length % 256) % 256 = _
    omega
  unfold masterOutN
  simp only [length]
  split
  next full => exact .overflows full
  next room =>
    obtain ⟨out₁, h₁, s₁⟩ := Buffer.append_of_room (b := g.masterOut) (3 + UInt8.ofNat data.length)
      (by omega)
    have l₁ := Buffer.length_of_stored s₁
    obtain ⟨out₂, h₂, s₂⟩ := Buffer.append_of_room (b := out₁) header.code (by simp at l₁; omega)
    have l₂ := Buffer.length_of_stored s₂
    have room₃ : out₂.length + data.length ≤ responseMaxLength := by
      simp only [List.length_singleton] at l₁ l₂
      omega
    obtain ⟨out₃, h₃, s₃⟩ := Buffer.appendN_of_room room₃
    have l₃ := Buffer.length_of_stored s₃
    obtain ⟨out₄, h₄, s₄⟩ := Buffer.append_of_room (b := out₃)
      (crc8P93N (crc8P93_2b (3 + UInt8.ofNat data.length) header.code) data) (by simp at l₁ l₂; omega)
    simp only [h₁, h₂, h₃, h₄, Option.getD_some]
    refine .fits (by omega) ?_
    rw [s₄, s₃, s₂, s₁]
    simp [packet, crc8P93N, crc8P93_2b]

end Gate

/-- Responses written one after the other, each by a variant of `master_out_*` that takes
its data. -/
inductive Written : Gate → List (Response × List UInt8) → Gate → Prop
  | nil (g : Gate) : Written g [] g
  | one {header : Response} {g g' : Gate} {rs : List (Response × List UInt8)}
      (rest : Written (g.masterOut1 header) rs g') : Written g ((header, []) :: rs) g'
  | two {header : Response} {data : UInt8} {g g' : Gate} {rs : List (Response × List UInt8)}
      (rest : Written (g.masterOut2 header data) rs g') : Written g ((header, [data]) :: rs) g'
  | n {header : Response} {data : List UInt8} {g g' : Gate} {rs : List (Response × List UInt8)}
      (rest : Written (g.masterOutN header data) rs g') : Written g ((header, data) :: rs) g'

theorem Puts.stored {header : Response} {data : List UInt8} {g g' : Gate} (h : Puts header data g g')
    (room : g.masterOut.length + (3 + data.length) ≤ responseMaxLength) :
    g'.masterOut.stored = g.masterOut.stored ++ packet header data := by
  cases h with
  | fits _ stored => exact stored
  | overflows full => omega

theorem Puts.twiOut_of_room {header : Response} {data : List UInt8} {g g' : Gate} (h : Puts header data g g')
    (room : g.masterOut.length + (3 + data.length) ≤ responseMaxLength) : g'.twiOut = g.twiOut := by
  cases h with
  | fits => rfl
  | overflows full => omega

theorem Puts.emitted_of_room {header : Response} {data : List UInt8} {g g' : Gate} (h : Puts header data g g')
    (room : g.masterOut.length + (3 + data.length) ≤ responseMaxLength) :
    g'.history.emitted = g.history.emitted ++ [(header, data)] := by
  cases h with
  | fits => rfl
  | overflows full => omega

/-- What one response does to the bytes of all of them. -/
theorem Puts.stored_append {header : Response} {data bytes rest : List UInt8} {n : Nat} {g g₁ : Gate}
    (h : Puts header data g g₁) (room : g.masterOut.length + (3 + data.length + n) ≤ responseMaxLength)
    (ih : g₁.masterOut.length + n ≤ responseMaxLength → bytes = g₁.masterOut.stored ++ rest) :
    bytes = g.masterOut.stored ++ (packet header data ++ rest) := by
  have stored := h.stored (by omega)
  have length := Buffer.length_of_stored stored
  rw [packet_length] at length
  rw [ih (by omega), stored, List.append_assoc]

theorem Written.stored {g g' : Gate} {rs : List (Response × List UInt8)} (h : Written g rs g')
    (room : g.masterOut.length + (rs.map fun r => 3 + r.2.length).sum ≤ responseMaxLength) :
    g'.masterOut.stored = g.masterOut.stored ++ rs.flatMap fun r => packet r.1 r.2 := by
  induction h with
  | nil g => simp
  | one _ ih => exact (Gate.masterOut1_puts ..).stored_append (by simpa using room) ih
  | two _ ih => exact (Gate.masterOut2_puts ..).stored_append (by simpa using room) ih
  | @n header data g g' rs _ ih =>
    rw [List.map_cons, List.sum_cons] at room
    have small : data.length ≤ 252 := by
      simp only [responseMaxLength] at room
      omega
    exact (Gate.masterOutN_puts header g small).stored_append room ih

end Vender.Firmware
