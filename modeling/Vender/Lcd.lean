import Vender.Lib.Bytes
import Vender.Lib.FourBitPort

namespace Vender

open FourBitPort

namespace Lcd

inductive Pin
  | u0
  | a0
  | e
  | db4
  | db5
  | db6
  | db7
  deriving DecidableEq, Repr

/-- What a call writes to the pins, in order; the driver ignores the errors. -/
abbrev Writes := List (Pin × Bool)

def setAllPins (b : Bool) : Writes :=
  [(.u0, b), (.a0, b), (.e, b), (.db4, b), (.db5, b), (.db6, b), (.db7, b)]

def blinkE : Writes := [(.e, true), (.e, false)]

def send4 (a0 db4 db5 db6 db7 : Bool) : Writes :=
  [(.a0, a0), (.db4, db4), (.db5, db5), (.db6, db6), (.db7, db7)] ++ blinkE

def bit (b i : UInt8) : Bool := b &&& (1 <<< i) ≠ 0

/-- The body that `Command` and `Data` share. -/
def sendByte (a0 : Bool) (b : UInt8) : Writes :=
  send4 a0 (bit b 4) (bit b 5) (bit b 6) (bit b 7) ++ send4 a0 (bit b 0) (bit b 1) (bit b 2) (bit b 3) ++
    setAllPins false

def command (b : UInt8) : Writes := sendByte false b

def data (b : UInt8) : Writes := sendByte true b

def commandClear : Writes := command 0x01

def commandReturn : Writes := command 0x02

def commandEntryMode (right shift : Bool) : Writes :=
  command (0x04 ||| (if right then 0x02 else 0) ||| (if shift then 0x01 else 0))

def commandOn (on underscore blink : Bool) : Writes :=
  command (0x08 ||| (if on then 0x04 else 0) ||| (if underscore then 0x02 else 0) ||| (if blink then 0x01 else 0))

def commandOff : Writes := command 0x08

def commandFunction (bits8 page1 : Bool) : Writes :=
  command (0x28 ||| (if bits8 then 0x10 else 0) ||| (if page1 then 0x02 else 0))

def commandAddress (a : UInt8) : Writes := command (0x80 ||| a)

/-- `WriteString` of a text as its translator gives it. -/
def writeString (s1251 : List UInt8) : Writes :=
  s1251.flatMap fun r => if r ≠ 0x0a then data r else commandAddress 0x40

/-- `Init` behind the opening of the pins. -/
def init : Writes := setAllPins false

def init4 : Writes :=
  command 0x33 ++ command 0x32 ++
    commandFunction false true ++ commandOff ++ commandOn true false false ++ commandClear ++
      commandEntryMode true false

inductive Call
  | command (b : UInt8)
  | data (b : UInt8)
  | commandClear
  | commandReturn
  | commandEntryMode (right shift : Bool)
  | commandOn (on underscore blink : Bool)
  | commandOff
  | commandFunction (bits8 page1 : Bool)
  | commandAddress (a : UInt8)
  | writeString (s1251 : List UInt8)
  deriving DecidableEq, Repr

def Call.writes : Call → Writes
  | .command b => Lcd.command b
  | .data b => Lcd.data b
  | .commandClear => Lcd.commandClear
  | .commandReturn => Lcd.commandReturn
  | .commandEntryMode right shift => Lcd.commandEntryMode right shift
  | .commandOn on underscore blink => Lcd.commandOn on underscore blink
  | .commandOff => Lcd.commandOff
  | .commandFunction bits8 page1 => Lcd.commandFunction bits8 page1
  | .commandAddress a => Lcd.commandAddress a
  | .writeString s1251 => Lcd.writeString s1251

/-- The bytes that a call means, each an instruction or data. -/
def Call.bytes : Call → List (Bool × UInt8)
  | .command b => [(false, b)]
  | .data b => [(true, b)]
  | .commandClear => [(false, 0x01)]
  | .commandReturn => [(false, 0x02)]
  | .commandEntryMode right shift => [(false, 4 + 2 * (right.toUInt8) + shift.toUInt8)]
  | .commandOn on underscore blink => [(false, 8 + 4 * on.toUInt8 + 2 * underscore.toUInt8 + blink.toUInt8)]
  | .commandOff => [(false, 0x08)]
  | .commandFunction bits8 page1 => [(false, 0x28 + 0x10 * bits8.toUInt8 + 2 * page1.toUInt8)]
  | .commandAddress a => [(false, 0x80 ||| a)]
  | .writeString s1251 => s1251.map fun r => if r = 0x0a then (false, 0xc0) else (true, r)

structure Levels where
  u0 : Bool
  a0 : Bool
  e : Bool
  db4 : Bool
  db5 : Bool
  db6 : Bool
  db7 : Bool
  deriving DecidableEq, Repr

def Levels.set (l : Levels) (value : Bool) : Pin → Levels
  | .u0 => { l with u0 := value }
  | .a0 => { l with a0 := value }
  | .e => { l with e := value }
  | .db4 => { l with db4 := value }
  | .db5 => { l with db5 := value }
  | .db6 => { l with db6 := value }
  | .db7 => { l with db7 := value }

/-- The display at the other end of the pins; `steady` as long as no other line
has been written while `E` is high. -/
structure Display where
  levels : Levels
  port : Port
  steady : Bool := true

namespace Display

/-- It reads its port where `E` falls. -/
def write (d : Display) : Pin × Bool → Display
  | (.e, value) =>
    { d with
      levels := d.levels.set value .e
      port :=
        if d.levels.e && !value then
          d.port.strobe (d.levels.a0, ⟨d.levels.db4, d.levels.db5, d.levels.db6, d.levels.db7⟩)
        else d.port }
  | (pin, value) => { d with levels := d.levels.set value pin, steady := d.steady && !d.levels.e }

def writes (d : Display) (ws : Writes) : Display := ws.foldl write d

@[simp] theorem writes_append (d : Display) (ws ws' : Writes) : d.writes (ws ++ ws') = (d.writes ws).writes ws' :=
  List.foldl_append

/-- Some strobes on, with `E` low again and never disturbed. -/
structure Strobed (d d' : Display) (ss : List (Bool × Half)) : Prop where
  low : d'.levels.e = false
  port : d'.port = d.port.strobes ss
  steady : d'.steady = d.steady

theorem Strobed.trans {d d' d'' : Display} {ss ss' : List (Bool × Half)} (h : Strobed d d' ss)
    (h' : Strobed d' d'' ss') :
    Strobed d d'' (ss ++ ss') where
  low := h'.low
  port := by rw [h'.port, h.port, strobes_append]
  steady := h'.steady.trans h.steady

theorem strobed_send4 {d : Display} (low : d.levels.e = false) (a0 db4 db5 db6 db7 : Bool) :
    Strobed d (d.writes (send4 a0 db4 db5 db6 db7)) [(a0, ⟨db4, db5, db6, db7⟩)] := by
  obtain ⟨⟨u0, a0', e, l4, l5, l6, l7⟩, port, steady⟩ := d
  cases low
  refine ⟨rfl, rfl, ?_⟩
  show (((((steady && !false) && !false) && !false) && !false) && !false) = steady
  simp only [Bool.not_false, Bool.and_true]

theorem strobed_setAllPins {d : Display} (low : d.levels.e = false) : Strobed d (d.writes (setAllPins false)) [] := by
  obtain ⟨⟨u0, a0, e, l4, l5, l6, l7⟩, port, steady⟩ := d
  cases low
  refine ⟨rfl, rfl, ?_⟩
  show ((((((steady && !false) && !false) && !false) && !false) && !false) && !false) = steady
  simp only [Bool.not_false, Bool.and_true]

/-- The halves of a byte as they come over the four lines. -/
def byteHalves (byte : Bool × UInt8) : Bool × Half × Half :=
  (byte.1, ⟨bit byte.2 4, bit byte.2 5, bit byte.2 6, bit byte.2 7⟩,
    ⟨bit byte.2 0, bit byte.2 1, bit byte.2 2, bit byte.2 3⟩)

/-- The byte that a display has read, no low half where it reads one half alone. -/
def byteOf (t : Transfer) : Bool × UInt8 :=
  let low := t.low.getD ⟨false, false, false, false⟩
  (t.rs, 16 * ofHalf t.high + ofHalf low)
where
  ofHalf (h : Half) : UInt8 := 8 * h.d7.toUInt8 + 4 * h.d6.toUInt8 + 2 * h.d5.toUInt8 + h.d4.toUInt8

def send (byte : Bool × UInt8) : Writes := sendByte byte.1 byte.2

theorem strobed_send {d : Display} (low : d.levels.e = false) (byte : Bool × UInt8) :
    Strobed d (d.writes (send byte)) (halves (byteHalves byte)) := by
  obtain ⟨a0, b⟩ := byte
  have high := strobed_send4 low a0 (bit b 4) (bit b 5) (bit b 6) (bit b 7)
  have both := high.trans (strobed_send4 high.low a0 (bit b 0) (bit b 1) (bit b 2) (bit b 3))
  have done := both.trans (strobed_setAllPins both.low)
  rw [List.append_nil] at done
  rw [send, sendByte, writes_append, writes_append]
  exact done

theorem strobed_bytes {d : Display} (low : d.levels.e = false) (bytes : List (Bool × UInt8)) :
    Strobed d (d.writes (bytes.flatMap send))
      ((bytes.map byteHalves).flatMap halves) := by
  induction bytes generalizing d with
  | nil => exact ⟨low, rfl, rfl⟩
  | cons byte bytes ih =>
    have first := strobed_send low byte
    rw [List.flatMap_cons, writes_append, List.map_cons, List.flatMap_cons]
    exact first.trans (ih first.low)

theorem byteOf_byteHalves (byte : Bool × UInt8) : byteOf (Transfer.whole (byteHalves byte)) = byte := by
  obtain ⟨a0, b⟩ := byte
  have bits : ∀ b : UInt8, byteOf (Transfer.whole (byteHalves (false, b))) = (false, b) :=
    Bytes.forall_byte (by decide +kernel)
  have same := congrArg Prod.snd (bits b)
  exact Prod.ext rfl same

theorem staysFour_byteHalves {byte : Bool × UInt8} (four : byte.1 = false → byte.2 &&& 0xf0 ≠ 0x30) :
    StaysFour (byteHalves byte) := by
  obtain ⟨a0, b⟩ := byte
  have table : ∀ b : UInt8, (byteHalves (false, b)).2.1 = three → b &&& 0xf0 = 0x30 :=
    Bytes.forall_byte (by decide +kernel)
  intro eight
  obtain ⟨instruction, high⟩ := eight
  exact four instruction (table b high)

theorem call_writes (call : Call) : call.writes = call.bytes.flatMap send := by
  cases call with
  | command b => exact (List.append_nil _).symm
  | data b => exact (List.append_nil _).symm
  | commandClear => exact (List.append_nil _).symm
  | commandReturn => exact (List.append_nil _).symm
  | commandEntryMode right shift => cases right <;> cases shift <;> exact (List.append_nil _).symm
  | commandOn on underscore blink =>
    cases on <;> cases underscore <;> cases blink <;> exact (List.append_nil _).symm
  | commandOff => exact (List.append_nil _).symm
  | commandFunction bits8 page1 => cases bits8 <;> cases page1 <;> exact (List.append_nil _).symm
  | commandAddress a => exact (List.append_nil _).symm
  | writeString s1251 =>
    rw [Call.writes, Call.bytes, writeString, List.flatMap_map]
    congr 1
    funext r
    by_cases newline : r = 0x0a
    · subst newline
      rfl
    · rw [if_pos newline, if_neg newline]
      rfl

/-- What `Init4` says behind the alignment. -/
def setup : List (Bool × UInt8) := [(false, 0x2a), (false, 0x08), (false, 0x0c), (false, 0x01), (false, 0x06)]

theorem init4_writes :
    init4 = ([(false, 0x33), (false, 0x32)] ++ setup).flatMap send := by
  decide +kernel

theorem strobe_taken (p : Port) (s : Bool × Half) : ∃ t, (p.strobe s).taken = p.taken ++ t ∧ t.length ≤ 1 := by
  obtain ⟨width, taken⟩ := p
  obtain ⟨rs, half⟩ := s
  cases width with
  | eight => exact ⟨[_], rfl, Nat.le_refl 1⟩
  | four first =>
    cases first with
    | none => exact ⟨[], (List.append_nil _).symm, Nat.zero_le 1⟩
    | some high => exact ⟨[_], rfl, Nat.le_refl 1⟩

/-- `Init` pulls `E` low, which is a strobe of its own where it was high. -/
theorem writes_init (d : Display) :
    (d.writes init).levels.e = false ∧ (d.writes init).steady = (d.steady && !d.levels.e) ∧
      ∃ t, (d.writes init).port.taken = d.port.taken ++ t ∧ t.length ≤ 1 := by
  obtain ⟨⟨u0, a0, e, l4, l5, l6, l7⟩, port, steady⟩ := d
  refine ⟨rfl, ?_, ?_⟩
  · show ((((((steady && !e) && !e) && !false) && !false) && !false) && !false) = (steady && !e)
    simp only [Bool.not_false, Bool.and_true, Bool.and_self_right]
  · cases e with
    | false => exact ⟨[], (List.append_nil _).symm, Nat.zero_le 1⟩
    | true => exact strobe_taken port (false, ⟨l4, l5, l6, l7⟩)

/-- Whatever the display has been in the middle of, behind `Init` and `Init4` it
takes in every byte of every call as it was sent, both halves of it, and behind
`Init` no line moves under a high `E`; only an instruction to read eight lines is
left out. How long the display takes for an instruction is not modelled. -/
theorem takes_as_sent (d : Display) {calls : List Call}
    (four : ∀ call ∈ calls, ∀ b, (false, b) ∈ call.bytes → b &&& 0xf0 ≠ 0x30) :
    ∃ before sent, before.length ≤ 5 ∧ sent.map byteOf = setup ++ calls.flatMap Call.bytes ∧
      (∀ t ∈ sent, t.low.isSome = true) ∧
      (d.writes (init ++ init4 ++ calls.flatMap Call.writes)).port.taken = d.port.taken ++ before ++ sent ∧
      (d.writes (init ++ init4 ++ calls.flatMap Call.writes)).steady = (d.steady && !d.levels.e) ∧
      (({ d.writes init with steady := true } : Display).writes
        (init4 ++ calls.flatMap Call.writes)).steady = true := by
  obtain ⟨low, steady, first, taken, one⟩ := writes_init d
  let said := setup ++ calls.flatMap Call.bytes
  have bytes : init4 ++ calls.flatMap Call.writes =
      ([(false, 0x33), (false, 0x32)] ++ said).flatMap send := by
    rw [init4_writes, funext call_writes, ← List.flatMap_assoc, ← List.flatMap_append, List.append_assoc]
  have strobed := strobed_bytes low ([(false, 0x33), (false, 0x32)] ++ said)
  rw [← bytes, ← writes_append, ← List.append_assoc] at strobed
  have behind := @strobed_bytes { d.writes init with steady := true } low ([(false, 0x33), (false, 0x32)] ++ said)
  rw [← bytes] at behind
  -- the first two bytes are the alignment, half by half
  have halves_eq : (([(false, 0x33), (false, 0x32)] ++ said).map byteHalves).flatMap halves =
      alignment ++ (said.map byteHalves).flatMap halves := by
    rw [List.map_append, List.flatMap_append]
    rfl
  obtain ⟨more, aligned, short⟩ := strobes_alignment (d.writes init).port
  have stay : ∀ byte ∈ said.map byteHalves, StaysFour byte := by
    intro halves mem
    obtain ⟨byte, here, same⟩ := List.mem_map.mp mem
    subst same
    refine staysFour_byteHalves fun instruction => ?_
    rcases List.mem_append.mp here with start | later
    · have starts : ∀ byte ∈ setup, byte.2 &&& 0xf0 ≠ 0x30 := by decide +kernel
      exact starts byte start
    · obtain ⟨call, called, mem⟩ := List.mem_flatMap.mp later
      obtain ⟨a0, b⟩ := byte
      cases instruction
      exact four call called b mem
  have port := strobed.port
  rw [halves_eq, strobes_append, aligned, strobes_halves stay, taken] at port
  refine ⟨first ++ more, (said.map byteHalves).map Transfer.whole, ?_, ?_, ?_, ?_, ?_, behind.steady⟩
  · rw [List.length_append]
    omega
  · rw [List.map_map, List.map_map]
    exact (List.map_congr_left fun byte _ => byteOf_byteHalves byte).trans (List.map_id _)
  · intro t mem
    obtain ⟨byte, _, rfl⟩ := List.mem_map.mp mem
    rfl
  · rw [port, ← List.append_assoc d.port.taken]
  · rw [strobed.steady, steady]

/-- Two lines of text on a display that has read half of an instruction. -/
theorem takes_as_sent_twoLines :
    ∃ before sent, before.length ≤ 5 ∧
      sent.map byteOf = setup ++ [(true, 0xec), (false, 0xc0), (true, 0xe8), (false, 0x01)] ∧
      (({ levels := ⟨false, false, true, true, false, true, false⟩,
          port := ⟨.four (some two), []⟩ } : Display).writes
        (init ++ init4 ++ [Call.writeString [0xec, 0x0a, 0xe8], Call.commandClear].flatMap Call.writes)).port.taken =
          before ++ sent := by
  obtain ⟨before, sent, short, said, _, taken, _⟩ := takes_as_sent
    { levels := ⟨false, false, true, true, false, true, false⟩, port := ⟨.four (some two), []⟩ }
    (show ∀ call ∈ [Call.writeString [0xec, 0x0a, 0xe8], Call.commandClear], ∀ b, (false, b) ∈ call.bytes →
      b &&& 0xf0 ≠ 0x30 by
      intro call mem b said
      simp only [List.mem_cons, List.not_mem_nil, or_false] at mem
      rcases mem with rfl | rfl
      · have newline : b = 0xc0 := by simpa [Call.bytes] using said
        subst newline
        decide
      · have clear : b = 0x01 := by simpa [Call.bytes] using said
        subst clear
        decide)
  exact ⟨before, sent, short, said, taken⟩

end Display

end Lcd

end Vender
