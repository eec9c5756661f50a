import Vender.PacketReader

namespace Vender

inductive PacketError
  | overflow
  | readonly
  deriving DecidableEq, Repr

/-- `mdb.Packet`: the array behind it and how much of it is in use. -/
structure MdbPacket where
  b : List UInt8
  l : Nat
  readonly : Bool
  b_length : b.length = packetMaxLength
  fits : l ≤ packetMaxLength
  deriving DecidableEq, Repr

namespace MdbPacket

def new : MdbPacket where
  b := List.replicate packetMaxLength 0
  l := 0
  readonly := false
  b_length := List.length_replicate
  fits := Nat.zero_le _

def bytes (p : MdbPacket) : List UInt8 := p.b.take p.l

/-- What `copy(b[:], p)` leaves in an array. -/
def copyInto (b p : List UInt8) : List UInt8 := p.take b.length ++ b.drop p.length

theorem copyInto_length (b p : List UInt8) : (copyInto b p).length = b.length := by
  rw [copyInto, List.length_append, List.length_take, List.length_drop]
  omega

/-- `write`, which copies without a check. -/
def writeAll (self : MdbPacket) (p : List UInt8) : MdbPacket where
  b := copyInto self.b p
  l := min packetMaxLength p.length
  readonly := self.readonly
  b_length := (copyInto_length _ _).trans self.b_length
  fits := Nat.min_le_left _ _

def write (self : MdbPacket) (p : List UInt8) : MdbPacket × Except PacketError Nat :=
  if self.readonly then (self, .error .readonly)
  else if p.length = 0 then (self, .ok 0)
  else if packetMaxLength < p.length then (self, .error .overflow)
  else
    let self := self.writeAll p
    (self, .ok self.l)

def packetFromBytes (b : List UInt8) : Option MdbPacket :=
  match new.write b with
  | (p, .ok _) => some p
  | (_, .error _) => none

/-- `w[j] = b`, where `none` is an index out of range. -/
def store (w : List UInt8) (j : Nat) (b : UInt8) : Option (List UInt8) :=
  if j < w.length then some (w.set j b) else none

/-- One turn of the loop in `Wire`: the slice `w`, the index `j` and the checksum. -/
def wireByte (ffDance : Bool) (turn : List UInt8 × Nat × UInt8) (b : UInt8) : Option (List UInt8 × Nat × UInt8) := do
  let (w, j, chk) := turn
  let (w, j) ← if ffDance ∧ b = 0xff then (store w j 0xff).map fun w => (w, j + 1) else some (w, j)
  let w ← store w j b
  return (w, j + 1, chk + b)

def wire (p : MdbPacket) (ffDance : Bool) : Option (List UInt8) := do
  let (w, j, chk) ← p.bytes.foldlM (wireByte ffDance) (List.replicate ((p.l + 2) * 2) 0, 0, 0)
  let (w, j) ← if ffDance then
      (store w j 0xff).bind fun w => (store w (j + 1) 0x00).map fun w => (w, j + 2)
    else some (w, j)
  let w ← store w j chk
  return w.take (j + 1)

def wireData (ffDance : Bool) (d : List UInt8) : List UInt8 := if ffDance then FileUart.escape d else d

theorem bytes_length (p : MdbPacket) : p.bytes.length = p.l := by
  rw [bytes, List.length_take, p.b_length]
  exact Nat.min_eq_left p.fits

/-- `copy` puts the bytes in front of what is left of earlier ones, and `l` cuts that off. -/
theorem writeAll_bytes (self : MdbPacket) {p : List UInt8} (short : p.length ≤ packetMaxLength) :
    (self.writeAll p).bytes = p := by
  change (copyInto self.b p).take (min packetMaxLength p.length) = p
  rw [Nat.min_eq_right short, copyInto, self.b_length, List.take_of_length_le short, List.take_left]

theorem packetFromBytes_ok {d : List UInt8} (short : d.length ≤ packetMaxLength) :
    ∃ p, packetFromBytes d = some p ∧ p.bytes = d ∧ p.readonly = false := by
  by_cases empty : d.length = 0
  · cases List.length_eq_zero_iff.mp empty
    exact ⟨new, rfl, rfl, rfl⟩
  · refine ⟨new.writeAll d, ?_, new.writeAll_bytes short, rfl⟩
    have written : new.write d = (new.writeAll d, .ok (new.writeAll d).l) := by
      rw [write, if_neg (by decide), if_neg empty, if_neg (by omega)]
    rw [packetFromBytes, written]

theorem store_next (done : List UInt8) (room : Nat) (b : UInt8) (pos : 0 < room) :
    store (done ++ List.replicate room 0) done.length b = some ((done ++ [b]) ++ List.replicate (room - 1) 0) := by
  obtain ⟨k, rfl⟩ : ∃ k, room = k + 1 := ⟨room - 1, by omega⟩
  have inside : done.length < (done ++ List.replicate (k + 1) (0 : UInt8)).length := by
    rw [List.length_append, List.length_replicate]
    omega
  rw [store, if_pos inside, List.set_append_right _ _ (Nat.le_refl _), Nat.sub_self, List.replicate_succ]
  simp

theorem escape_length (d : List UInt8) : (FileUart.escape d).length ≤ 2 * d.length := by
  induction d with
  | nil => exact le_rfl
  | cons b d ih =>
    have one : (FileUart.escape [b]).length ≤ 2 := by
      by_cases ff : b = 0xff
      · simp [FileUart.escape, ff]
      · simp [FileUart.escape, ff]
    have split : FileUart.escape (b :: d) = FileUart.escape [b] ++ FileUart.escape d := FileUart.escape_append [b] d
    rw [split, List.length_append, List.length_cons]
    omega

theorem wireData_length (ffDance : Bool) (d : List UInt8) : (wireData ffDance d).length ≤ 2 * d.length := by
  unfold wireData
  split
  · exact escape_length d
  · omega

theorem wireData_cons (ffDance : Bool) (b : UInt8) (d : List UInt8) :
    wireData ffDance (b :: d) = wireData ffDance [b] ++ wireData ffDance d := by
  unfold wireData
  split
  · exact FileUart.escape_append [b] d
  · rfl

/-- One turn writes the byte behind what is written, a 0xff in the dance twice. -/
theorem wireByte_next (ffDance : Bool) (done : List UInt8) {room : Nat} (chk b : UInt8) (roomy : 2 ≤ room) :
    wireByte ffDance (done ++ List.replicate room 0, done.length, chk) b =
      some ((done ++ wireData ffDance [b]) ++ List.replicate (room - (wireData ffDance [b]).length) 0,
        (done ++ wireData ffDance [b]).length, chk + b) := by
  by_cases twice : ffDance ∧ b = 0xff
  · obtain ⟨rfl, rfl⟩ := twice
    have data : wireData true [0xff] = [0xff, 0xff] := rfl
    have first := store_next done room 0xff (by omega)
    have second := store_next (done ++ [0xff]) (room - 1) 0xff (by omega)
    rw [List.length_append, List.length_singleton] at second
    simp only [wireByte, and_self, if_true, first, Option.map_some, Option.bind_eq_bind, Option.bind_some, second]
    simp [data, Nat.sub_sub]
  · have data : wireData ffDance [b] = [b] := by
      unfold wireData
      split
      next dance =>
        have other : b ≠ 0xff := fun h => twice ⟨dance, h⟩
        simp [FileUart.escape, other]
      next => rfl
    have next := store_next done room b (by omega)
    simp only [wireByte, if_neg twice, Option.bind_eq_bind, Option.bind_some, next]
    simp [data]

theorem wireLoop (ffDance : Bool) (d done : List UInt8) (room : Nat) (chk : UInt8) (roomy : 2 * d.length ≤ room) :
    d.foldlM (wireByte ffDance) (done ++ List.replicate room 0, done.length, chk) =
      some ((done ++ wireData ffDance d) ++ List.replicate (room - (wireData ffDance d).length) 0,
        (done ++ wireData ffDance d).length, d.foldl (fun chk b => chk + b) chk) := by
  induction d generalizing done room chk with
  | nil =>
    have nothing : wireData ffDance [] = [] := by cases ffDance <;> rfl
    simp [nothing]
  | cons b d ih =>
    rw [List.length_cons] at roomy
    have one := wireData_length ffDance [b]
    rw [List.length_singleton] at one
    rw [List.foldlM_cons, wireByte_next ffDance done chk b (by omega)]
    change List.foldlM _ _ d = _
    rw [ih _ _ _ (by omega), wireData_cons ffDance b d]
    simp [Nat.sub_sub]

/-- `Wire` never indexes behind its slice: the data, in the dance doubled and ended with
0xff 0x00, and the checksum. -/
theorem wire_eq (p : MdbPacket) (ffDance : Bool) :
    p.wire ffDance =
      some (wireData ffDance p.bytes ++ (if ffDance then [0xff, 0x00] else []) ++ [checksum p.bytes]) := by
  have length := p.bytes_length
  have short := wireData_length ffDance p.bytes
  have loop := wireLoop ffDance p.bytes [] ((p.l + 2) * 2) 0 (by omega)
  rw [List.nil_append, List.nil_append, List.length_nil] at loop
  generalize wireData ffDance p.bytes = data at loop short
  generalize hroom : (p.l + 2) * 2 - data.length = room at loop
  rw [wire, loop]
  cases ffDance with
  | false =>
    have last := store_next data room (checksum p.bytes) (by omega)
    change (store _ data.length (checksum p.bytes)).bind (fun w => some (w.take (data.length + 1))) = _
    rw [last, Option.bind_some, List.take_left' (by simp)]
    simp
  | true =>
    have ff := store_next data room 0xff (by omega)
    have zero := store_next (data ++ [0xff]) (room - 1) 0x00 (by omega)
    have last := store_next (data ++ [0xff] ++ [0x00]) (room - 1 - 1) (checksum p.bytes) (by omega)
    simp only [List.length_append, List.length_singleton] at zero last
    simp only [if_true, ff, zero, Option.bind_eq_bind, Option.bind_some, Option.map_some]
    change (store _ (data.length + 1 + 1) (checksum p.bytes)).bind
      (fun w => some (w.take (data.length + 1 + 1 + 1))) = _
    rw [last, Option.bind_some, List.take_left' (by simp)]
    simp

/-- `bufferReadPacket` accepts the images of `Wire` and nothing else, and takes no byte more. -/
theorem bufferReadPacket_accepts_wire :
    (∀ d : List UInt8, d.length ≤ packetMaxLength → ∃ p, packetFromBytes d = some p ∧ p.bytes = d) ∧
      (∀ p : MdbPacket, p.wire true = some (FileUart.escape p.bytes ++ [0xff, 0x00, checksum p.bytes])) ∧
      (∀ (d t : List UInt8) (c : UInt8) (cap : Nat), d.length ≤ packetMaxLength → d.length + 1 ≤ cap →
        FileUart.readPacket cap [] (FileUart.escape d ++ [0xff, 0x00, c] ++ t) =
          some { dst := d ++ [c], err := none, unread := t }) ∧
      ∀ (cap : Nat) (input dst unread : List UInt8),
        FileUart.readPacket cap [] input = some { dst, err := none, unread } →
          ∃ d c, dst = d ++ [c] ∧ input = FileUart.escape d ++ [0xff, 0x00, c] ++ unread := by
  refine ⟨fun d short => ?_, fun p => ?_, fun d t c cap short room => ?_, fun cap input dst unread read => ?_⟩
  · obtain ⟨p, made, same, _⟩ := packetFromBytes_ok short
    exact ⟨p, made, same⟩
  · rw [wire_eq, wireData]
    simp
  · have fits : d.length < 4096 := by
      unfold packetMaxLength at short
      omega
    have scans := FileUart.scans_escape fits (0x00 :: c :: t)
    have less : ([] : List UInt8).length + d.length < cap := by
      rw [List.length_nil]
      omega
    simpa using FileUart.readPacket_of_scans scans less
  · obtain ⟨d, c, scans, _, same⟩ := (FileUart.readPacket_ok_iff (Nat.zero_le cap)).mp read
    refine ⟨d, c, same, ?_⟩
    rw [scans.escaped]
    simp

/-- The reply of an identification with a 0xff in it and a checksum 0xff, and a byte behind it. -/
theorem bufferReadPacket_accepts_ff :
    FileUart.readPacket 3 [] (FileUart.escape [0xff, 0x01] ++ [0xff, 0x00, 0xff] ++ [0x30]) =
      some { dst := [0xff, 0x01, 0xff], err := none, unread := [0x30] } :=
  bufferReadPacket_accepts_wire.2.2.1 [0xff, 0x01] [0x30] 0xff 3 (by decide) (by decide)

end MdbPacket

end Vender
