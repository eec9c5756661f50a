import Vender.Packet

namespace Vender

namespace FileUart

def asked (dev : UartDevice) (u : FileUart) (request : List UInt8) : Option FileUart :=
  match write9 dev u request true with
  | (_, _, some _) => none
  | (u, _, none) =>
    match write9 dev u [checksum request] false with
    | (_, _, some _) => none
    | (u, _, none) =>
      match resetRead dev u with
      | (_, some _) => none
      | (u, none) => some u

/-- The input carries data that fills the buffer, and goes on with another 0xff of the
data or with the last byte. -/
def Overruns (cap : Nat) (input : List UInt8) : Prop :=
  ∃ d rest, input = escape d ++ 0xff :: rest ∧ ShortRuns d ∧ WritesByte rest ∧ cap ≤ d.length

variable {dev : UartDevice} {u : FileUart} {request : List UInt8} {cap : Nat}

theorem tx_cases (dev : UartDevice) (u : FileUart) (cap : Nat) (nonempty : request ≠ []) :
    (∃ v, asked dev u request = some v ∧ tx dev u request cap = receive dev v cap) ∨
      (asked dev u request = none ∧
        ∃ v err, tx dev u request cap = (v, some { n := 0, response := [], err := some err })) := by
  rw [tx, if_neg nonempty, asked]
  rcases write9 dev u request true with ⟨u₁, n₁, _ | err⟩
  · dsimp only
    rcases write9 dev u₁ [checksum request] false with ⟨u₂, n₂, _ | err⟩
    · dsimp only
      rcases resetRead dev u₂ with ⟨v, _ | err⟩
      · exact Or.inl ⟨v, rfl, rfl⟩
      · exact Or.inr ⟨rfl, v, err, rfl⟩
    · exact Or.inr ⟨rfl, u₂, err, rfl⟩
  · exact Or.inr ⟨rfl, u₁, err, rfl⟩

theorem receive_data {d : List UInt8} {c : UInt8} (u : FileUart)
    (read : bufferReadPacket cap [] dev.incoming = some (d ++ [c], none)) :
    ∃ r, (receive dev u cap).2 = some r ∧ r.n = d.length ∧ r.response = d ++ [c] ∧ (r.err = none → c = checksum d) ∧
      ((∀ k, dev.fails k = none) → c = checksum d → r.err = none) := by
  by_cases same : c = checksum d
  · by_cases nothing : d = []
    · exact ⟨{ n := d.length, response := d ++ [c], err := none }, by simp [receive, read, same, nothing], rfl, rfl,
        fun _ => same, fun _ _ => rfl⟩
    · refine ⟨{ n := d.length, response := d ++ [c], err := (write9 dev u [0x00] false).2.2 }, ?_, rfl, rfl,
        fun _ => same, fun succeed _ => ?_⟩
      · simp [receive, read, same, nothing]
      · obtain ⟨_, _, _, written, _⟩ := write9_ok succeed u 0x00 [] false
        rw [written]
  · refine ⟨{ n := d.length, response := d ++ [c], err := some (.invalidChecksum c (checksum d)) }, ?_, rfl, rfl,
      fun ok => ?_, fun _ h => absurd h same⟩
    · simp [receive, read, same]
    · cases ok

/-- The three ways `receive` ends: with data and its last byte, with an index out of
range, or with a failed read. -/
theorem receive_cases (dev : UartDevice) (u : FileUart) (cap : Nat) :
    (∃ d c unread r, dev.incoming = escape d ++ [0xff, 0x00, c] ++ unread ∧ d.length < cap ∧
      (receive dev u cap).2 = some r ∧ r.n = d.length ∧ r.response = d ++ [c] ∧ (r.err = none → c = checksum d)) ∨
    (Overruns cap dev.incoming ∧ (receive dev u cap).2 = none) ∨
    ∃ r err, (receive dev u cap).2 = some r ∧ r.n = 0 ∧ r.err = some err ∧ r.response.length ≤ cap := by
  have read := bufferReadPacket_eq cap [] dev.incoming
  rcases readPacket_cases [] dev.incoming (Nat.zero_le cap) with
    ⟨d, c, unread, scans, room, whole⟩ | ⟨d, rest, scans, writes, full, overrun⟩ | ⟨u', err, failed, is_err, held⟩
  · rw [whole, Option.map_some] at read
    refine Or.inl ⟨d, c, unread, ?_⟩
    have input : dev.incoming = escape d ++ [0xff, 0x00, c] ++ unread := by
      rw [scans.escaped]
      simp
    rw [List.length_nil, Nat.zero_add] at room
    obtain ⟨r, received, n, response, ok, _⟩ := receive_data u read
    exact ⟨r, input, room, received, n, response, ok⟩
  · rw [overrun, Option.map_none] at read
    rw [List.length_nil, Nat.zero_add] at full
    obtain ⟨input, short⟩ := scans_iff.mp scans
    refine Or.inr (Or.inl ⟨⟨d, rest, input, short, writes, full⟩, ?_⟩)
    rw [receive, read]
  · rw [failed, Option.map_some, is_err] at read
    refine Or.inr (Or.inr ⟨{ n := 0, response := u'.dst, err := some err }, err, ?_, rfl, rfl, held⟩)
    rw [receive, read]

theorem receive_overrun (overruns : Overruns cap dev.incoming) : (receive dev u cap).2 = none := by
  obtain ⟨d, rest, input, short, writes, full⟩ := overruns
  have filled : cap ≤ ([] : List UInt8).length + d.length := by rwa [List.length_nil, Nat.zero_add]
  have overrun := readPacket_overrun (scans_iff.mpr ⟨input, short⟩) writes (Nat.zero_le cap) filled
  have read := bufferReadPacket_eq cap [] dev.incoming
  rw [overrun, Option.map_none] at read
  rw [receive, read]

theorem escape_inj {d d' x y : List UInt8} (same : escape d ++ 0xff :: 0x00 :: x = escape d' ++ 0xff :: 0x00 :: y) :
    d = d' := by
  have split : ∀ (b : UInt8) (d : List UInt8), escape (b :: d) = escape [b] ++ escape d :=
    fun b d => escape_append [b] d
  induction d generalizing d' with
  | nil =>
    cases d' with
    | nil => rfl
    | cons b d' =>
      by_cases ff : b = 0xff
      · subst ff
        simp [escape] at same
      · simp [escape, ff, Ne.symm ff] at same
  | cons b d ih =>
    cases d' with
    | nil =>
      by_cases ff : b = 0xff
      · subst ff
        simp [escape] at same
      · simp [escape, ff] at same
    | cons b' d' =>
      rw [split b, split b'] at same
      by_cases ff : b = 0xff
      · by_cases ff' : b' = 0xff
        · subst ff ff'
          rw [List.append_assoc, List.append_assoc] at same
          rw [ih (List.append_cancel_left same)]
        · simp [escape, ff, ff', Ne.symm ff'] at same
      · by_cases ff' : b' = 0xff
        · simp [escape, ff, ff'] at same
        · simp only [escape, ff, ff', List.flatMap_cons, List.flatMap_nil, if_false, List.append_nil,
            List.cons_append, List.cons.injEq] at same
          rw [same.1, ih same.2]

theorem tx_fits {v : FileUart} {r : TxReply} (h : tx dev u request cap = (v, some r)) :
    r.n ≤ cap ∧ r.response.length ≤ cap := by
  by_cases empty : request = []
  · rw [tx, if_pos empty] at h
    cases h
    exact ⟨Nat.zero_le _, Nat.zero_le _⟩
  · rcases tx_cases dev u cap empty with ⟨w, _, reads⟩ | ⟨_, w, err, fails⟩
    · rw [reads] at h
      have returned : (receive dev w cap).2 = some r := congrArg Prod.snd h
      rcases receive_cases dev w cap with
        ⟨d, c, _, r', _, room, received, n, response, _⟩ | ⟨_, received⟩ | ⟨r', err, received, n, _, held⟩
      · cases returned.symm.trans received
        rw [n, response, List.length_append, List.length_singleton]
        omega
      · cases returned.symm.trans received
      · cases returned.symm.trans received
        omega
    · cases h.symm.trans fails
      exact ⟨Nat.zero_le _, Nat.zero_le _⟩

end FileUart

inductive MdbTxError
  | packet (err : PacketError)
  | uart (err : UartError)
  deriving DecidableEq, Repr

/-- `mdb.Tx` of a request and a response that are not nil; `none` is a panic. -/
def mdbTx (dev : UartDevice) (u : FileUart) (request response : MdbPacket) :
    FileUart × Option (MdbPacket × Option MdbTxError) :=
  if response.readonly then (u, some (response, some (.packet .readonly)))
  else if request.l = 0 then (u, some (response, none))
  else
    match h : FileUart.tx dev u request.bytes packetMaxLength with
    | (u, none) => (u, none)
    | (u, some r) =>
      let response : MdbPacket :=
        { response with
          b := MdbPacket.copyInto response.b r.response
          l := r.n
          b_length := (MdbPacket.copyInto_length _ _).trans response.b_length
          fits := (FileUart.tx_fits h).1 }
      (u, some (response, r.err.map .uart))

open FileUart

/-- The call comes to read: the response may be written, there is a request, and it was written. -/
def ComesToRead (dev : UartDevice) (u : FileUart) (request response : MdbPacket) : Prop :=
  response.readonly = false ∧ request.l ≠ 0 ∧ (asked dev u request.bytes).isSome

/-- The call returns a value or an error. A reply is the whole of what stands in front of
its last byte, and a reply longer than the buffer is an error. -/
def ReadsSafely (dev : UartDevice) (u : FileUart) (request response : MdbPacket) : Prop :=
  ∃ p err, (mdbTx dev u request response).2 = some (p, err) ∧
    (request.l ≠ 0 → err = none →
      ∃ unread, dev.incoming = escape p.bytes ++ [0xff, 0x00, checksum p.bytes] ++ unread) ∧
    (request.l ≠ 0 → ∀ d c unread, dev.incoming = escape d ++ [0xff, 0x00, c] ++ unread →
      packetMaxLength < d.length → err ≠ none)

variable {dev : UartDevice} {u v : FileUart} {request response : MdbPacket}

theorem bytes_ne_nil (asks : request.l ≠ 0) : request.bytes ≠ [] := by
  intro nothing
  have length := request.bytes_length
  rw [nothing] at length
  exact asks length.symm

theorem mdbTx_panic (writable : response.readonly = false) (asks : request.l ≠ 0)
    (h : FileUart.tx dev u request.bytes packetMaxLength = (v, none)) : mdbTx dev u request response = (v, none) := by
  rw [mdbTx, if_neg (by simp [writable]), if_neg asks]
  split
  next h' =>
    cases h.symm.trans h'
    rfl
  next h' => cases h.symm.trans h'

theorem mdbTx_reply {r : TxReply} (writable : response.readonly = false) (asks : request.l ≠ 0)
    (h : FileUart.tx dev u request.bytes packetMaxLength = (v, some r)) :
    ∃ p, mdbTx dev u request response = (v, some (p, r.err.map .uart)) ∧
      p.b = MdbPacket.copyInto response.b r.response ∧ p.l = r.n := by
  rw [mdbTx, if_neg (by simp [writable]), if_neg asks]
  split
  next h' => cases h.symm.trans h'
  next h' =>
    cases h.symm.trans h'
    exact ⟨_, rfl, rfl, rfl⟩

theorem bytes_of_reply {p : MdbPacket} {d : List UInt8} {c : UInt8}
    (held : p.b = MdbPacket.copyInto response.b (d ++ [c]))
    (l : p.l = d.length) (room : d.length < packetMaxLength) : p.bytes = d := by
  have whole : (d ++ [c]).length ≤ packetMaxLength := by
    rw [List.length_append, List.length_singleton]
    omega
  rw [MdbPacket.bytes, held, l, MdbPacket.copyInto, response.b_length, List.take_of_length_le whole,
    List.append_assoc,
    List.take_left]

theorem readsSafely_of_error {p : MdbPacket} {err : MdbTxError}
    (returned : (mdbTx dev u request response).2 = some (p, some err)) : ReadsSafely dev u request response := by
  refine ⟨p, some err, returned, fun _ success => ?_, fun _ d c unread input long failed => ?_⟩
  · cases success
  · cases failed

theorem readsSafely_of_room (writable : response.readonly = false) (asks : request.l ≠ 0)
    (tx : FileUart.tx dev u request.bytes packetMaxLength = receive dev v packetMaxLength)
    (room : ¬Overruns packetMaxLength dev.incoming) : ReadsSafely dev u request response := by
  rcases receive_cases dev v packetMaxLength with
    ⟨d, c, unread, r, input, less, received, n, held, ok⟩ | ⟨overruns, _⟩ | ⟨r, err, received, _, failed, _⟩
  · obtain ⟨p, call, b, l⟩ := mdbTx_reply writable asks (tx.trans (Prod.ext rfl received))
    have data : p.bytes = d := bytes_of_reply (held ▸ b) (l.trans n) less
    refine ⟨p, r.err.map .uart, congrArg Prod.snd call, fun _ success => ?_, fun _ d' c' unread' input' long => ?_⟩
    · have same : c = checksum d := ok (Option.map_eq_none_iff.mp success)
      rw [data, ← same]
      exact ⟨unread, input⟩
    · rw [input] at input'
      have same := escape_inj (by simpa using input' : escape d ++ 0xff :: 0x00 :: c :: unread =
        escape d' ++ 0xff :: 0x00 :: c' :: unread')
      rw [same] at less
      omega
  · exact absurd overruns room
  · obtain ⟨p, call, _, _⟩ := mdbTx_reply writable asks (tx.trans (Prod.ext rfl received))
    rw [failed] at call
    exact readsSafely_of_error (congrArg Prod.snd call)

/-- What a reply leaves in the array behind a response. -/
theorem mdbTx_array {p : MdbPacket} (asks : request.l ≠ 0)
    (returned : (mdbTx dev u request response).2 = some (p, none)) :
    p.l < packetMaxLength ∧ p.b = MdbPacket.copyInto response.b (p.bytes ++ [checksum p.bytes]) := by
  by_cases writable : response.readonly = false
  · rcases tx_cases dev u packetMaxLength (bytes_ne_nil asks) with ⟨v, _, reads⟩ | ⟨_, v, err, fails⟩
    · rcases receive_cases dev v packetMaxLength with
        ⟨d, c, _, r, _, less, received, n, held, ok⟩ | ⟨_, received⟩ | ⟨r, err, received, _, failed, _⟩
      · obtain ⟨q, call, b, l⟩ := mdbTx_reply writable asks (reads.trans (Prod.ext rfl received))
        rw [call] at returned
        simp only [Option.some.injEq, Prod.mk.injEq] at returned
        obtain ⟨rfl, success⟩ := returned
        rw [held] at b
        have data : q.bytes = d := bytes_of_reply b (l.trans n) less
        rw [data, ← ok (Option.map_eq_none_iff.mp success)]
        exact ⟨by omega, b⟩
      · rw [mdbTx_panic writable asks (reads.trans (Prod.ext rfl received))] at returned
        cases returned
      · obtain ⟨q, call, _, _⟩ := mdbTx_reply writable asks (reads.trans (Prod.ext rfl received))
        rw [call, failed] at returned
        cases returned
    · obtain ⟨q, call, _, _⟩ := mdbTx_reply writable asks fails
      rw [call] at returned
      cases returned
  · have readonly : response.readonly = true := by simpa using writable
    rw [mdbTx, if_pos readonly] at returned
    cases returned

theorem asked_ok (u : FileUart) (succeed : ∀ k, dev.fails k = none) {request : List UInt8} (nonempty : request ≠ []) :
    ∃ v, asked dev u request = some v := by
  obtain ⟨b, rest, rfl⟩ := List.exists_cons_of_ne_nil nonempty
  obtain ⟨v₁, n₁, _, sent₁, _⟩ := write9_ok succeed u b rest true
  obtain ⟨v₂, n₂, _, sent₂, _⟩ := write9_ok succeed v₁ (checksum (b :: rest)) [] false
  obtain ⟨v, _, set, _⟩ := set9_ok succeed { v₂ with ops := v₂.ops ++ [.resetRead] } false
  have reset : resetRead dev v₂ = (v, none) := set
  exact ⟨v, by simp [asked, sent₁, sent₂, reset]⟩

/-- While the device does not fail, a reply with its checksum is what the call returns. -/
theorem mdbTx_receives {d : List UInt8} (unread : List UInt8) (succeed : ∀ k, dev.fails k = none)
    (incoming : dev.incoming = escape d ++ [0xff, 0x00, checksum d] ++ unread) (room : d.length < packetMaxLength)
    (writable : response.readonly = false) (asks : request.l ≠ 0) :
    ∃ p, (mdbTx dev u request response).2 = some (p, none) ∧ p.bytes = d := by
  obtain ⟨w, written⟩ := asked_ok u succeed (bytes_ne_nil asks)
  rcases tx_cases dev u packetMaxLength (bytes_ne_nil asks) with ⟨v, _, reads⟩ | ⟨fails, _⟩
  · have fits : d.length < 4096 := by
      unfold packetMaxLength at room
      omega
    have less : ([] : List UInt8).length + d.length < packetMaxLength := by rwa [List.length_nil, Nat.zero_add]
    have whole := readPacket_of_scans (scans_escape fits (0x00 :: checksum d :: unread)) less
    have input : dev.incoming = escape d ++ 0xff :: 0x00 :: checksum d :: unread := by
      rw [incoming]
      simp
    have read := bufferReadPacket_eq packetMaxLength [] dev.incoming
    rw [input, whole, Option.map_some, List.nil_append, ← input] at read
    obtain ⟨r, received, n, held, _, ok⟩ := receive_data v read
    obtain ⟨p, call, b, l⟩ := mdbTx_reply writable asks (reads.trans (Prod.ext rfl received))
    rw [held] at b
    rw [ok succeed rfl] at call
    exact ⟨p, congrArg Prod.snd call, bytes_of_reply b (l.trans n) room⟩
  · cases written.symm.trans fails

theorem mdbTx_overrun (comes : ComesToRead dev u request response)
    (overruns : Overruns packetMaxLength dev.incoming) : (mdbTx dev u request response).2 = none := by
  obtain ⟨writable, asks, written⟩ := comes
  obtain ⟨v, hv⟩ := Option.isSome_iff_exists.mp written
  rcases tx_cases dev u packetMaxLength (bytes_ne_nil asks) with ⟨w, _, reads⟩ | ⟨fails, _⟩
  · rw [mdbTx_panic writable asks (reads.trans (Prod.ext rfl (receive_overrun overruns)))]
  · cases hv.symm.trans fails

/-- A call is safe exactly if it does not come to read, or what comes in does not overrun
the response. -/
theorem mdbTx_readsSafely_iff (dev : UartDevice) (u : FileUart) (request response : MdbPacket) :
    ReadsSafely dev u request response ↔
      ¬(ComesToRead dev u request response ∧ Overruns packetMaxLength dev.incoming) := by
  constructor
  · rintro ⟨p, err, returned, _⟩ ⟨comes, overruns⟩
    cases returned.symm.trans (mdbTx_overrun comes overruns)
  · intro safe
    by_cases writable : response.readonly = false
    · by_cases asks : request.l = 0
      · exact ⟨response, none, by rw [mdbTx, if_neg (by simp [writable]), if_pos asks], fun h => absurd asks h,
          fun h => absurd asks h⟩
      · rcases tx_cases dev u packetMaxLength (bytes_ne_nil asks) with
          ⟨v, written, reads⟩ | ⟨_, v, err, fails⟩
        · apply readsSafely_of_room writable asks reads
          intro overruns
          exact safe ⟨⟨writable, asks, by simp [written]⟩, overruns⟩
        · obtain ⟨p, call, _, _⟩ := mdbTx_reply writable asks fails
          exact readsSafely_of_error (congrArg Prod.snd call)
    · have readonly : response.readonly = true := by simpa using writable
      have returned : (mdbTx dev u request response).2 = some (response, some (.packet .readonly)) := by
        rw [mdbTx, if_pos readonly]
      exact readsSafely_of_error returned

/-- A changer that answers a poll with forty bytes and their checksum. -/
def fullReply : UartDevice where
  fails := fun _ => none
  incoming := escape (List.replicate 40 0x41) ++ [0xff, 0x00, 0x28]

theorem fullReply_overruns :
    ¬ReadsSafely fullReply ⟨parodd, true, []⟩ (MdbPacket.new.writeAll [0x0b]) MdbPacket.new := by
  rintro ⟨p, err, returned, _⟩
  have comes : ComesToRead fullReply ⟨parodd, true, []⟩ (MdbPacket.new.writeAll [0x0b]) MdbPacket.new :=
    ⟨rfl, by decide, by decide⟩
  have overruns : Overruns packetMaxLength fullReply.incoming :=
    ⟨List.replicate 40 0x41, [0x00, 0x28], rfl, shortRuns_of_length (by decide), .last _ _, by decide⟩
  cases returned.symm.trans (mdbTx_overrun comes overruns)

end Vender
