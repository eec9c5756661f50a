import Vender.Lib.Bytes
import Vender.MdbCli

namespace Vender

namespace MdbPacket

open Bytes (forall_byte)
open MdbCli (decodeString fromHexChar packetFromHex)

def hextable (b : UInt8) : UInt8 := if b < 10 then '0'.toUInt8 + b else 'a'.toUInt8 + (b - 10)

def encodeToString (bs : List UInt8) : List UInt8 :=
  bs.flatMap fun b : UInt8 => [hextable (b >>> 4), hextable (b &&& 0x0f)]

def blank : UInt8 := ' '.toUInt8

/-- `Packet.Format`: the hex digits in pieces of eight with blanks between them. -/
def format (p : MdbPacket) : List UInt8 :=
  let h := encodeToString p.bytes
  let hlen := h.length
  let ss := (List.range (hlen / 8 + 1)).map fun i =>
    let hi := if hlen < (i + 1) * 8 then hlen else (i + 1) * 8
    (h.drop (i * 8)).take (hi - i * 8)
  [blank].intercalate ss

theorem length_encodeToString (bs : List UInt8) : (encodeToString bs).length = 2 * bs.length := by
  induction bs with
  | nil => rfl
  | cons b bs ih =>
    show (encodeToString bs).length + 2 = 2 * (bs.length + 1)
    omega

theorem decodeString_encodeToString (bs : List UInt8) : decodeString (encodeToString bs) = some bs := by
  induction bs with
  | nil => rfl
  | cons b bs ih =>
    have digits : ∀ b : UInt8, fromHexChar (hextable (b >>> 4)) = some (b >>> 4) ∧
        fromHexChar (hextable (b &&& 0x0f)) = some (b &&& 0x0f) ∧ (b >>> 4) <<< 4 ||| b &&& 0x0f = b :=
      forall_byte (by decide +kernel)
    obtain ⟨first, second, byte⟩ := digits b
    show decodeString (hextable (b >>> 4) :: hextable (b &&& 0x0f) :: encodeToString bs) = some (b :: bs)
    simp only [decodeString, first, second, ih, byte, Option.bind_eq_bind, Option.bind_some, Option.pure_def]

theorem blank_not_mem (bs : List UInt8) : blank ∉ encodeToString bs := by
  intro mem
  obtain ⟨b, _, mem⟩ := List.mem_flatMap.mp mem
  have table : ∀ b : UInt8, blank ∉ [hextable (b >>> 4), hextable (b &&& 0x0f)] := forall_byte (by decide +kernel)
  exact table b mem

/-- A text with a blank in it is no hex text. -/
theorem decodeString_blank {s : List UInt8} (mem : blank ∈ s) : decodeString s = none := by
  fun_induction decodeString s with
  | case1 => cases mem
  | case2 => rfl
  | case3 a b rest ih =>
    have refused : fromHexChar blank = none := by decide
    rcases List.mem_cons.mp mem with here | mem
    · rw [← here, refused]
      rfl
    rcases List.mem_cons.mp mem with here | later
    · rw [← here, refused]
      cases fromHexChar a <;> rfl
    · rw [ih later]
      cases fromHexChar a <;> cases fromHexChar b <;> rfl

/-- The pieces of `Format`, each but the last of eight digits. -/
theorem format_eq (p : MdbPacket) :
    p.format = [blank].intercalate
      ((List.range (p.l / 4 + 1)).map fun i => ((encodeToString p.bytes).drop (i * 8)).take 8) := by
  have length : (encodeToString p.bytes).length = 2 * p.l := by
    rw [length_encodeToString, bytes_length]
  have pieces : (encodeToString p.bytes).length / 8 + 1 = p.l / 4 + 1 := by omega
  unfold format
  dsimp only
  rw [pieces]
  congr 1
  apply List.map_congr_left
  intro i _
  split
  next past =>
    rw [List.take_of_length_le, List.take_of_length_le]
    · rw [List.length_drop]
      omega
    · rw [List.length_drop]
  next => rw [show (i + 1) * 8 - i * 8 = 8 by omega]

/-- The digits of a packet, without the blanks. -/
theorem format_digits (p : MdbPacket) : p.format.filter (· ≠ blank) = encodeToString p.bytes := by
  have length : (encodeToString p.bytes).length = 2 * p.l := by
    rw [length_encodeToString, bytes_length]
  rw [format_eq, Bytes.filter_intercalate, Bytes.flatten_pieces, List.take_of_length_le]
  · omega
  · intro piece mem
    obtain ⟨i, _, same⟩ := List.mem_map.mp mem
    subst same
    intro mem
    exact blank_not_mem p.bytes (List.mem_of_mem_drop (List.mem_of_mem_take mem))

theorem format_short {p : MdbPacket} (short : p.l ≤ 3) : p.format = encodeToString p.bytes := by
  have length : (encodeToString p.bytes).length = 2 * p.l := by
    rw [length_encodeToString, bytes_length]
  have one : p.l / 4 + 1 = 1 := by omega
  rw [format_eq, one]
  show [blank].intercalate [((encodeToString p.bytes).drop (0 * 8)).take 8] = _
  rw [List.intercalate_singleton, Nat.zero_mul, List.drop_zero, List.take_of_length_le]
  omega

theorem blank_mem_format {p : MdbPacket} (long : 3 < p.l) : blank ∈ p.format := by
  obtain ⟨n, pieces⟩ : ∃ n, p.l / 4 + 1 = n + 2 := ⟨p.l / 4 - 1, by omega⟩
  rw [format_eq, pieces, List.range_succ_eq_map, List.map_cons, List.range_succ_eq_map, List.map_cons, List.map_cons,
    List.intercalate_cons_cons]
  exact List.mem_append_left _ (List.mem_append_right _ List.mem_cons_self)

theorem packetFromHex_encodeToString (p : MdbPacket) :
    ∃ q, packetFromHex (encodeToString p.bytes) = some q ∧ q.bytes = p.bytes := by
  have fits : p.bytes.length ≤ packetMaxLength := by
    rw [bytes_length]
    exact p.fits
  obtain ⟨q, made, bytes, _⟩ := packetFromBytes_ok fits
  refine ⟨q, ?_, bytes⟩
  rw [packetFromHex, decodeString_encodeToString, Option.bind_some, made]

/-- `Format` shows a packet whole: its digits without the blanks are read back as the packet, and
two packets of one text are equal. As it stands the text is read back only up to three bytes. -/
theorem format_reads_back (p : MdbPacket) :
    (∃ q, packetFromHex (p.format.filter (· ≠ blank)) = some q ∧ q.bytes = p.bytes) ∧
      (∀ q : MdbPacket, p.format = q.format ↔ p.bytes = q.bytes) ∧
      ((packetFromHex p.format).isSome ↔ p.l ≤ 3) := by
  refine ⟨?_, ?_, ?_⟩
  · rw [format_digits]
    exact packetFromHex_encodeToString p
  · intro q
    constructor
    · intro same
      have digits : encodeToString p.bytes = encodeToString q.bytes := by
        rw [← format_digits, same, format_digits]
      have decoded := decodeString_encodeToString p.bytes
      rw [digits, decodeString_encodeToString] at decoded
      exact (Option.some.inj decoded).symm
    · intro same
      rw [format, format, same]
  · constructor
    · intro read
      by_contra long
      rw [packetFromHex, decodeString_blank (blank_mem_format (by omega))] at read
      cases read
    · intro short
      obtain ⟨q, read, _⟩ := packetFromHex_encodeToString p
      rw [format_short short, read]
      rfl

end MdbPacket

end Vender
