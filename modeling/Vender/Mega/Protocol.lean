import Vender.Firmware.Crc

namespace Vender.Mega

open Firmware (crc8P93N)

/-- `b[lo:hi]`, `none` where Go panics. -/
def slice (b : List UInt8) (lo hi : Nat) : Option (List UInt8) :=
  if lo ≤ hi ∧ hi ≤ b.length then some ((b.take hi).drop lo) else none

inductive NotValid
  | packetEmpty
  | packetMin (b : List UInt8) (length : UInt8)
  | packetBuffer (b : List UInt8) (length : UInt8) (buffer : Nat)
  | packetCrc (b : List UInt8) (crc actual : UInt8)
  | packetHeader (b : List UInt8) (header : UInt8)
  | responseEmpty
  | responseMax (b : List UInt8) (length : UInt8) (max : UInt8)
  | responseBuffer (b : List UInt8) (length : UInt8) (buffer : Nat)
  deriving DecidableEq, Repr

structure Packet where
  length : UInt8 := 0
  header : UInt8 := 0
  data : List UInt8 := []
  deriving DecidableEq, Repr

def headerKnown (i : UInt8) : Bool :=
  i = 1 || (4 ≤ i && i ≤ 5) || (8 ≤ i && i ≤ 9) || (128 ≤ i && i ≤ 134) || (136 ≤ i && i ≤ 142) ||
    (144 ≤ i && i ≤ 146)

/-- `none` is a panic. -/
def Packet.parse (b : List UInt8) : Option (Except NotValid Packet) :=
  if b.length = 0 then
    some (.error .packetEmpty)
  else do
    let length ← b[0]?
    if length < 3 then
      pure (.error (.packetMin b length))
    else if length.toNat > b.length then
      pure (.error (.packetBuffer b length b.length))
    else
      let b ← slice b 0 length.toNat
      let crcIn ← b[(length - 1).toNat]?
      let body ← slice b 0 (length - 1).toNat
      let crcLocal := crc8P93N 0 body
      if crcIn ≠ crcLocal then
        pure (.error (.packetCrc b crcIn crcLocal))
      else
        let header ← b[1]?
        if !headerKnown header then
          pure (.error (.packetHeader b header))
        else
          let dataLength := length - 3
          if dataLength > 0 then
            let data ← slice b 2 (2 + dataLength).toNat
            pure (.ok { length := length, header := header, data := data })
          else
            pure (.ok { length := length, header := header })

inductive Outcome
  | nil
  | notValid (err : NotValid)
  | panic
  /-- the loop did not end -/
  | endless
  deriving DecidableEq, Repr

/-- How `ParseResponse` ended, and the packets it called `fun` with before that. -/
structure Parsed where
  packets : List Packet
  outcome : Outcome
  deriving DecidableEq, Repr

def responseMaxLength : UInt8 := 80

/-- The loop of `ParseResponse`, for at most the given number of turns. -/
def parsePackets (total : UInt8) (b : List UInt8) : (turns : Nat) → (offset : UInt8) → Parsed
  | 0, _ => ⟨[], .endless⟩
  | turns + 1, offset =>
    if offset ≤ total then
      match (slice b offset.toNat b.length).bind Packet.parse with
      | none => ⟨[], .panic⟩
      | some (.error err) => ⟨[], .notValid err⟩
      | some (.ok p) =>
        if p.length = 0 then ⟨[], .panic⟩
        else
          let rest := parsePackets total b turns (offset + p.length)
          ⟨p :: rest.packets, rest.outcome⟩
    else
      ⟨[], .nil⟩

def parseResponse (b : List UInt8) : Parsed :=
  match b with
  | [] => ⟨[], .notValid .responseEmpty⟩
  | total :: _ =>
    if total = 0 then ⟨[], .nil⟩
    else if total > responseMaxLength then ⟨[], .notValid (.responseMax b total responseMaxLength)⟩
    else
      let bufLen := b.length - 1
      if total.toNat > bufLen then ⟨[], .notValid (.responseBuffer b total bufLen)⟩
      else
        match slice b 0 (total + 1).toNat with
        | none => ⟨[], .panic⟩
        | some b => parsePackets total b 256 1

end Vender.Mega
