import Vender.Firmware.Packet
import Vender.Firmware.Twi
import Vender.Mega.Protocol

namespace Vender.Mega

open Firmware (Buffer Gate Response Written crc8P93N packet)

theorem headerKnown_code (r : Response) : headerKnown r.code := by
  cases r <;> rfl

theorem headerKnown_table :
    (List.range 256).all (fun n => !headerKnown (UInt8.ofNat n) ||
      (Response.all.any fun r => r.code = UInt8.ofNat n)) = true := by
  decide +kernel

theorem exists_code {i : UInt8} (known : headerKnown i) : ∃ r : Response, r.code = i := by
  have row := List.all_eq_true.mp headerKnown_table i.toNat (List.mem_range.mpr i.toNat_lt)
  rw [UInt8.ofNat_toNat, known] at row
  obtain ⟨r, _, hr⟩ : ∃ r, r ∈ Response.all ∧ r.code = i := by simpa using row
  exact ⟨r, hr⟩

theorem slice_append_left (s t : List UInt8) : slice (s ++ t) 0 s.length = some s := by
  simp [slice]

theorem slice_zero {b : List UInt8} {n : Nat} (h : n ≤ b.length) : slice b 0 n = some (b.take n) := by
  simp [slice, h]

def toPacket (a : Firmware.Answer) : Packet := ⟨3 + UInt8.ofNat a.data.length, a.header.code, a.data⟩

namespace Packet

/-- `Parse` on a buffer that holds as many bytes as its first byte claims. -/
theorem parse_framed {length : UInt8} (header crcIn : UInt8) {data : List UInt8} (t : List UInt8)
    (h : length.toNat = 3 + data.length) :
    parse (length :: header :: (data ++ [crcIn]) ++ t) =
      some (if crcIn ≠ crc8P93N 0 (length :: header :: data) then
          .error (.packetCrc (length :: header :: (data ++ [crcIn])) crcIn
            (crc8P93N 0 (length :: header :: data)))
        else if !headerKnown header then
          .error (.packetHeader (length :: header :: (data ++ [crcIn])) header)
        else .ok ⟨length, header, data⟩) := by
  have byte := length.toNat_lt
  have pred : (length - 1).toNat = data.length + 1 + 1 := by
    rw [Firmware.toNat_sub_of_toNat_le (by rw [h]; change 1 ≤ _; omega), h]
    change 3 + data.length - 1 = _
    omega
  have dataLength : (length - 3).toNat = data.length := by
    rw [Firmware.toNat_sub_of_toNat_le (by rw [h]; change 3 ≤ _; omega), h]
    change 3 + data.length - 3 = _
    omega
  have last : (2 + (length - 3)).toNat = data.length + 1 + 1 := by
    rw [UInt8.toNat_add, dataLength]
    change (2 + data.length) % 256 = _
    omega
  have size : (length :: header :: (data ++ [crcIn])).length = length.toNat := by
    simp only [List.length_cons, List.length_append, List.length_nil]
    omega
  have whole : slice (length :: header :: (data ++ [crcIn]) ++ t) 0 length.toNat =
      some (length :: header :: (data ++ [crcIn])) := by
    rw [← size, slice_append_left]
  have crc : (length :: header :: (data ++ [crcIn]))[data.length + 1 + 1]? = some crcIn := by simp
  have body : slice (length :: header :: (data ++ [crcIn])) 0 (data.length + 1 + 1) =
      some (length :: header :: data) := by
    rw [slice_zero (by omega)]
    simp
  have middle : slice (length :: header :: (data ++ [crcIn])) 2 (data.length + 1 + 1) = some data := by
    rw [slice, if_pos (by omega)]
    simp
  have min : ¬ length < 3 := by
    rw [UInt8.lt_iff_toNat_lt, h]
    change ¬ _ < 3
    omega
  have buffer : ¬ length.toNat > (length :: header :: (data ++ [crcIn]) ++ t).length := by
    rw [List.length_append, size]
    omega
  have first : (length :: header :: (data ++ [crcIn]) ++ t)[0]? = some length := rfl
  have second : (length :: header :: (data ++ [crcIn]))[1]? = some header := rfl
  unfold parse
  rw [if_neg (by simp)]
  simp only [first, Option.bind_eq_bind, Option.bind_some, min, ↓reduceIte, buffer, whole, pred, crc, body,
    second]
  split
  next => rfl
  next =>
    split
    next => rfl
    next =>
      rw [last]
      split
      next => simp only [middle, Option.bind_some]; rfl
      next none =>
        have empty : data = [] := by
          have zero : ¬ 0 < (length - 3).toNat := fun h => none (UInt8.lt_iff_toNat_lt.mpr h)
          exact List.length_eq_zero_iff.mp (by omega)
        rw [empty]
        rfl

theorem parse_encode (a : Firmware.Answer) (t : List UInt8) :
    parse (a.encode ++ t) = some (.ok (toPacket a)) := by
  rw [Firmware.Answer.encode_eq, parse_framed _ _ t a.lengthByte_toNat, if_neg (by simp),
    if_neg (by simp [headerKnown_code])]
  rfl

/-- The first bytes of a buffer as `Parse` cuts them. -/
theorem exists_framed {b : List UInt8} {length : UInt8} (first : b[0]? = some length)
    (min : ¬ length < 3) (buffer : ¬ length.toNat > b.length) :
    ∃ header data crcIn t, b = length :: header :: (data ++ [crcIn]) ++ t ∧ length.toNat = 3 + data.length := by
  have three : 3 ≤ length.toNat := UInt8.le_iff_toNat_le.mp (UInt8.not_lt.mp min)
  match b, first, buffer with
  | x :: header :: rest, first, buffer =>
    cases Option.some.inj first
    simp only [List.length_cons] at buffer
    have cut : (rest.take (length.toNat - 2)).length = length.toNat - 3 + 1 := by
      rw [List.length_take]
      omega
    obtain ⟨data, crcIn, split⟩ : ∃ data crcIn, rest.take (length.toNat - 2) = data ++ [crcIn] := by
      rcases List.eq_nil_or_concat (rest.take (length.toNat - 2)) with nil | ⟨data, crcIn, split⟩
      · simp [nil] at cut
      · exact ⟨data, crcIn, by rw [split, List.concat_eq_append]⟩
    refine ⟨header, data, crcIn, rest.drop (length.toNat - 2), ?_, ?_⟩
    · rw [← split, List.cons_append, List.cons_append, List.take_append_drop]
    · rw [split, List.length_append, List.length_singleton] at cut
      omega
  | [x], first, buffer =>
    cases Option.some.inj first
    simp only [List.length_singleton] at buffer
    omega

/-- `Parse` never panics, and takes a packet only from the front of its buffer. -/
theorem parse_cases (b : List UInt8) :
    (∃ err, parse b = some (.error err)) ∨ ∃ a t, b = Firmware.Answer.encode a ++ t := by
  by_cases empty : b.length = 0
  · exact Or.inl ⟨.packetEmpty, by rw [parse, if_pos empty]⟩
  · obtain ⟨length, first⟩ : ∃ length, b[0]? = some length :=
      ⟨b[0], List.getElem?_eq_getElem (Nat.pos_of_ne_zero empty)⟩
    by_cases min : length < 3
    · exact Or.inl ⟨_, by rw [parse, if_neg empty]; simp [first, min]; rfl⟩
    · by_cases buffer : length.toNat > b.length
      · exact Or.inl ⟨_, by rw [parse, if_neg empty]; simp [first, min, buffer]; rfl⟩
      · obtain ⟨header, data, crcIn, t, rfl, size⟩ := exists_framed first min buffer
        have result := parse_framed header crcIn t size
        split at result
        next => exact Or.inl ⟨_, result⟩
        next valid =>
          split at result
          next => exact Or.inl ⟨_, result⟩
          next known =>
            obtain ⟨r, rfl⟩ := exists_code (by simpa using known)
            have short : data.length ≤ 252 := by
              have := length.toNat_lt
              omega
            have same : length = (⟨r, data, short⟩ : Firmware.Answer).lengthByte := by
              rw [← UInt8.toNat_inj, Firmware.Answer.lengthByte_toNat, size]
            refine Or.inr ⟨⟨r, data, short⟩, t, ?_⟩
            rw [Firmware.Answer.encode_eq, ← same, ← not_not.mp valid]

theorem stuck_of_parse_error {b : List UInt8} {err : NotValid} (h : parse b = some (.error err))
    (a : Firmware.Answer) :
    ¬ a.encode <+: b := by
  rintro ⟨t, rfl⟩
  rw [parse_encode] at h
  cases Option.some.inj h

end Packet

/-- The loop delivers the longest list of packets that it finds from its offset on, and
reports an error exactly when something is left over. -/
theorem parsePackets_spec {total : UInt8} {b : List UInt8} (size : b.length = total.toNat + 1)
    (max : total ≤ responseMaxLength) {turns : Nat} {offset : UInt8} (inside : offset.toNat ≤ total.toNat + 1)
    (enough : total.toNat + 1 < offset.toNat + turns) :
    ∃ (as : List Firmware.Answer) (tail : List UInt8), (parsePackets total b turns offset).packets = as.map toPacket ∧
      b.drop offset.toNat = as.flatMap Firmware.Answer.encode ++ tail ∧ (∀ a, ¬ Firmware.Answer.encode a <+: tail) ∧
      ((parsePackets total b turns offset).outcome = .nil ∧ tail = [] ∨
        (∃ err, (parsePackets total b turns offset).outcome = .notValid err) ∧ tail ≠ []) := by
  have small : total.toNat ≤ 80 := UInt8.le_iff_toNat_le.mp max
  induction turns generalizing offset with
  | zero => omega
  | succ turns ih =>
    unfold parsePackets
    by_cases more : offset ≤ total
    · have before : offset.toNat ≤ total.toNat := UInt8.le_iff_toNat_le.mp more
      have rest : slice b offset.toNat b.length = some (b.drop offset.toNat) := by
        rw [slice, if_pos (by omega), List.take_length]
      have left : (b.drop offset.toNat).length = total.toNat + 1 - offset.toNat := by
        rw [List.length_drop, size]
      rcases Packet.parse_cases (b.drop offset.toNat) with ⟨err, failed⟩ | ⟨a, t, front⟩
      · refine ⟨[], b.drop offset.toNat, ?_, rfl, Packet.stuck_of_parse_error failed, Or.inr ⟨⟨err, ?_⟩, ?_⟩⟩
        · simp [more, rest, failed]
        · simp [more, rest, failed]
        · intro nil
          rw [nil, List.length_nil] at left
          omega
      · have read := Packet.parse_encode a t
        rw [← front] at read
        have length := a.lengthByte_toNat
        have fits : 3 + a.data.length + t.length = total.toNat + 1 - offset.toNat := by
          rw [← left, front, List.length_append, Firmware.Answer.encode_length]
        have next : (offset + a.lengthByte).toNat = offset.toNat + (3 + a.data.length) := by
          rw [UInt8.toNat_add, length]
          exact Nat.mod_eq_of_lt (by omega)
        have some_length : a.lengthByte ≠ 0 := by
          intro zero
          have none : a.lengthByte.toNat = 0 := congrArg UInt8.toNat zero
          omega
        have same : (toPacket a).length = a.lengthByte := rfl
        have dropped : b.drop (offset + a.lengthByte).toNat = t := by
          rw [next, ← List.drop_drop, front, ← Firmware.Answer.encode_length, List.drop_left]
        obtain ⟨as, tail, packets, split, none, ended⟩ :=
          @ih (offset + a.lengthByte) (by omega) (by omega)
        refine ⟨a :: as, tail, ?_, ?_, none, ?_⟩
        · simp [more, rest, read, some_length, same, packets]
        · rw [front, List.flatMap_cons, List.append_assoc, ← split, dropped]
        · simpa [more, rest, read, some_length, same] using ended
    · have past : total.toNat < offset.toNat :=
        Nat.lt_of_not_le fun h => more (UInt8.le_iff_toNat_le.mpr h)
      refine ⟨[], [], ?_, ?_, Firmware.Answer.stuck_nil, Or.inl ⟨?_, rfl⟩⟩
      · simp [more]
      · rw [List.drop_eq_nil_of_le (by omega)]
        rfl
      · simp [more]

/-- The bytes of a response that its length byte stands for; none if that is refused. -/
def packetArea : List UInt8 → List UInt8
  | [] => []
  | total :: rest =>
    if total ≤ responseMaxLength ∧ total.toNat ≤ rest.length then rest.take total.toNat else []

theorem packetArea_of_accepted {total : UInt8} {rest : List UInt8} (small : total ≤ responseMaxLength)
    (fits : total.toNat ≤ rest.length) : packetArea (total :: rest) = rest.take total.toNat :=
  if_pos ⟨small, fits⟩

/-- A response whose length byte is accepted ends without an error exactly when packets are
all there is. -/
theorem parseResponse_of_accepted {total : UInt8} {rest : List UInt8} (small : total ≤ responseMaxLength)
    (fits : total.toNat ≤ rest.length) :
    ∃ (as : List Firmware.Answer) (tail : List UInt8), (parseResponse (total :: rest)).packets = as.map toPacket ∧
      rest.take total.toNat = as.flatMap Firmware.Answer.encode ++ tail ∧ (∀ a, ¬ Firmware.Answer.encode a <+: tail) ∧
      ((parseResponse (total :: rest)).outcome = .nil ∧ tail = [] ∨
        (∃ err, (parseResponse (total :: rest)).outcome = .notValid err) ∧ tail ≠ []) := by
  have bound : total.toNat ≤ 80 := UInt8.le_iff_toNat_le.mp small
  have max : ¬ total > responseMaxLength := UInt8.not_lt.mpr small
  unfold parseResponse
  simp only [List.length_cons, Nat.add_sub_cancel]
  by_cases zero : total = 0
  · subst zero
    exact ⟨[], [], rfl, rfl, Firmware.Answer.stuck_nil, Or.inl ⟨rfl, rfl⟩⟩
  · have succ : (total + 1).toNat = total.toNat + 1 := by
      rw [UInt8.toNat_add]
      change (total.toNat + 1) % 256 = _
      omega
    have cut : slice (total :: rest) 0 (total + 1).toNat = some (total :: rest.take total.toNat) := by
      rw [succ, slice_zero (by rw [List.length_cons]; omega), List.take_succ_cons]
    have size : (total :: rest.take total.toNat).length = total.toNat + 1 := by
      rw [List.length_cons, List.length_take]
      omega
    have start : (1 : UInt8).toNat ≤ total.toNat + 1 := by
      change 1 ≤ _
      omega
    have turns : total.toNat + 1 < (1 : UInt8).toNat + 256 := by
      change _ < 1 + 256
      omega
    rw [if_neg zero, if_neg max, if_neg (Nat.not_lt.mpr fits), cut]
    exact parsePackets_spec size small start turns

/-- A refused length byte is an error, and nothing is delivered. -/
theorem parseResponse_of_refused {b : List UInt8}
    (refused : ∀ total rest, b = total :: rest → total ≤ responseMaxLength → rest.length < total.toNat) :
    packetArea b = [] ∧ ∃ err, parseResponse b = ⟨[], .notValid err⟩ := by
  unfold packetArea parseResponse
  match b, refused with
  | [], _ => exact ⟨rfl, _, rfl⟩
  | total :: rest, refused =>
    have refused := refused total rest rfl
    have zero : total ≠ 0 := by
      rintro rfl
      exact absurd (refused (by decide)) (by simp)
    have out : ¬ (total ≤ responseMaxLength ∧ total.toNat ≤ rest.length) :=
      fun h => absurd h.2 (Nat.not_le.mpr (refused h.1))
    simp only [List.length_cons, Nat.add_sub_cancel]
    refine ⟨if_neg out, ?_⟩
    rw [if_neg zero]
    by_cases max : total > responseMaxLength
    · exact ⟨_, if_pos max⟩
    · rw [if_neg max, if_pos (refused (UInt8.not_lt.mp max))]
      exact ⟨_, rfl⟩

theorem parseResponse_cases (b : List UInt8) :
    (packetArea b = [] ∧ ∃ err, parseResponse b = ⟨[], .notValid err⟩) ∨
    ∃ total rest, b = total :: rest ∧ total ≤ responseMaxLength ∧ total.toNat ≤ rest.length := by
  by_cases accepted : ∃ total rest, b = total :: rest ∧ total ≤ responseMaxLength ∧ total.toNat ≤ rest.length
  · exact Or.inr accepted
  · refine Or.inl (parseResponse_of_refused fun total rest cut small => ?_)
    by_contra fits
    exact accepted ⟨total, rest, cut, small, Nat.not_lt.mp fits⟩

theorem parseResponse_ends (b : List UInt8) :
    (parseResponse b).outcome = .nil ∨ ∃ err, (parseResponse b).outcome = .notValid err := by
  rcases parseResponse_cases b with ⟨_, err, refused⟩ | ⟨total, rest, rfl, small, fits⟩
  · rw [refused]
    exact Or.inr ⟨err, rfl⟩
  · obtain ⟨_, _, _, _, _, ⟨ended, _⟩ | ⟨ended, _⟩⟩ := parseResponse_of_accepted small fits
    · exact Or.inl ended
    · exact Or.inr ended

/-- Whatever is delivered is the longest list of packets that the response starts with. -/
theorem parseResponse_longest (b : List UInt8) :
    ∃ as : List Firmware.Answer, (parseResponse b).packets = as.map toPacket ∧
      PrefixCode.Longest Firmware.Answer.encode (packetArea b) as := by
  rcases parseResponse_cases b with ⟨area, err, refused⟩ | ⟨total, rest, rfl, small, fits⟩
  · refine ⟨[], by rw [refused]; rfl, ?_⟩
    rw [area]
    exact Firmware.Answer.instantaneous.longest [] Firmware.Answer.stuck_nil
  · obtain ⟨as, tail, packets, area, stuck, _⟩ := parseResponse_of_accepted small fits
    rw [packetArea_of_accepted small fits, area]
    exact ⟨as, packets, Firmware.Answer.instantaneous.longest as stuck⟩

theorem parseResponse_whole {total : UInt8} {rest : List UInt8}
    (nil : (parseResponse (total :: rest)).outcome = .nil) :
    total.toNat ≤ rest.length ∧
      ∃ as : List Firmware.Answer, (parseResponse (total :: rest)).packets = as.map toPacket ∧
        rest.take total.toNat = as.flatMap Firmware.Answer.encode := by
  rcases parseResponse_cases (total :: rest) with ⟨_, err, refused⟩ | ⟨_, _, same, small, fits⟩
  · rw [refused] at nil
    cases nil
  · cases same
    refine ⟨fits, ?_⟩
    obtain ⟨as, tail, packets, area, _, ⟨_, rfl⟩ | ⟨⟨err, ended⟩, _⟩⟩ := parseResponse_of_accepted small fits
    · exact ⟨as, packets, by rw [area, List.append_nil]⟩
    · rw [nil] at ended
      cases ended

/-- Packets that fit a response are read back from it, whatever follows them. -/
theorem parseResponse_packets {as : List Firmware.Answer} {total : UInt8} (padding : List UInt8)
    (small : total ≤ responseMaxLength) (size : total.toNat = (as.flatMap Firmware.Answer.encode).length) :
    parseResponse (total :: (as.flatMap Firmware.Answer.encode ++ padding)) = ⟨as.map toPacket, .nil⟩ := by
  have fits : total.toNat ≤ (as.flatMap Firmware.Answer.encode ++ padding).length := by
    rw [List.length_append]
    omega
  obtain ⟨found, tail, packets, area, stuck, ended⟩ := parseResponse_of_accepted small fits
  rw [size, List.take_left] at area
  have longest := Firmware.Answer.instantaneous.longest found stuck
  rw [← area] at longest
  obtain rfl := longest.eq_of_whole Firmware.Answer.instantaneous
  have tail : tail = [] := by simpa using area
  rcases ended with ⟨nil, _⟩ | ⟨_, more⟩
  · rw [← packets, ← nil]
  · exact absurd tail more

theorem written_answers {rs : List (Response × List UInt8)}
    (small : (rs.map fun r => 3 + r.2.length).sum ≤ 80) :
    ∃ as : List Firmware.Answer, (rs.flatMap fun r => packet r.1 r.2) = as.flatMap Firmware.Answer.encode ∧
      (rs.map fun r => (⟨3 + UInt8.ofNat r.2.length, r.1.code, r.2⟩ : Packet)) = as.map toPacket ∧
      (as.flatMap Firmware.Answer.encode).length = (rs.map fun r => 3 + r.2.length).sum := by
  induction rs with
  | nil => exact ⟨[], rfl, rfl, rfl⟩
  | cons r rs ih =>
    rw [List.map_cons, List.sum_cons] at small
    obtain ⟨as, bytes, packets, length⟩ := ih (by omega)
    have short : r.2.length ≤ 252 := by omega
    refine ⟨⟨r.1, r.2, short⟩ :: as, ?_, ?_, ?_⟩
    · rw [List.flatMap_cons, List.flatMap_cons, bytes]
      rfl
    · rw [List.map_cons, List.map_cons, packets]
      rfl
    · rw [List.flatMap_cons, List.length_append, length, List.map_cons, List.sum_cons, Firmware.Answer.encode_length]

/-- Decoding undoes encoding: what the firmware wrote is read back, what is read without an
error is exactly what packets encode, and before an error the longest such list is read. -/
theorem parseResponse_undoes :
    (∀ (g g' : Gate) (rs : List (Response × List UInt8)) (padding : List UInt8), g.masterOut.length = 0 →
      Written g rs g' → (rs.map fun r => 3 + r.2.length).sum ≤ 80 →
      parseResponse (UInt8.ofNat g'.masterOut.length :: (g'.masterOut.stored ++ padding)) =
        ⟨rs.map fun r => ⟨3 + UInt8.ofNat r.2.length, r.1.code, r.2⟩, .nil⟩) ∧
    (∀ (total : UInt8) (rest : List UInt8), 0 < total → (parseResponse (total :: rest)).outcome = .nil →
      total.toNat ≤ rest.length ∧ ∃ as : List Firmware.Answer,
        (parseResponse (total :: rest)).packets = as.map toPacket ∧
        rest.take total.toNat = as.flatMap Firmware.Answer.encode) ∧
    (∀ (b : List UInt8) (err : NotValid), (parseResponse b).outcome = .notValid err →
      ∃ as : List Firmware.Answer, (parseResponse b).packets = as.map toPacket ∧
        PrefixCode.Longest Firmware.Answer.encode (packetArea b) as) ∧
    ∀ b : List UInt8, (parseResponse b).outcome ≠ .panic ∧ (parseResponse b).outcome ≠ .endless := by
  refine ⟨?_, fun _ _ _ nil => parseResponse_whole nil, fun b _ _ => parseResponse_longest b, fun b => ?_⟩
  · intro g g' rs padding empty written small
    obtain ⟨as, bytes, packets, length⟩ := written_answers small
    have stored := written.stored (by simpa [empty] using small)
    rw [Buffer.stored_of_empty empty, List.nil_append, bytes] at stored
    have filled : g'.masterOut.length = (as.flatMap Firmware.Answer.encode).length := by
      rw [← stored, Buffer.stored_length]
    have byte : (UInt8.ofNat g'.masterOut.length).toNat = g'.masterOut.length := by
      rw [UInt8.toNat_ofNat']
      exact Nat.mod_eq_of_lt (by omega)
    have max : UInt8.ofNat g'.masterOut.length ≤ responseMaxLength := by
      rw [UInt8.le_iff_toNat_le, byte]
      change _ ≤ 80
      omega
    rw [stored, packets]
    exact parseResponse_packets padding max (by rw [byte, filled])
  · rcases parseResponse_ends b with nil | ⟨err, failed⟩
    · rw [nil]
      exact ⟨by simp, by simp⟩
    · rw [failed]
      exact ⟨by simp, by simp⟩

theorem parseResponse_undoes_started_nak :
    let g := { Gate.boot 0 ⟨[], [], []⟩ with masterOut := .init _ }
    let out := ((g.masterOut1 .mdbStarted).masterOutN .mdbNak [0xff]).masterOut
    g.masterOut.length = 0 ∧
      parseResponse (UInt8.ofNat out.length :: (out.stored ++ [0])) = ⟨[⟨3, 0x08, []⟩, ⟨4, 0x8a, [0xff]⟩], .nil⟩ :=
  ⟨rfl, parseResponse_undoes.1 _ _ [(.mdbStarted, []), (.mdbNak, [0xff])] [0] rfl (.one (.n (.nil _))) (by decide)⟩

/-- Eighty-one bytes are refused whole, also where a packet comes first. -/
theorem refusedLength_delivers_nothing :
    let b := 81 :: (packet .status [] ++ List.replicate 78 0)
    (∃ err, (parseResponse b).outcome = .notValid err) ∧
      ¬ ∃ as : List Firmware.Answer, (parseResponse b).packets = as.map toPacket ∧
        PrefixCode.Longest Firmware.Answer.encode ((b.drop 1).take 81) as := by
  intro b
  have refused : parseResponse b = ⟨[], .notValid (.responseMax b 81 responseMaxLength)⟩ := rfl
  refine ⟨⟨_, by rw [refused]⟩, ?_⟩
  rintro ⟨as, packets, longest⟩
  rw [refused] at packets
  have none : as = [] := List.map_eq_nil_iff.mp packets.symm
  have status : [(⟨.status, [], by simp⟩ : Firmware.Answer)].flatMap Firmware.Answer.encode <+: (b.drop 1).take 81 :=
    ⟨List.replicate 78 0, rfl⟩
  have delivered := longest.longest status
  rw [none] at delivered
  exact absurd (List.prefix_nil.mp delivered) (List.cons_ne_nil _ _)

end Vender.Mega
