import Mathlib.Data.List.GetD
import Vender.Crc
import Vender.Firmware.Command
import Vender.Mega.RoundTrip

namespace Vender.Crc

open Firmware (Gate Surroundings)
open Mega (Packet NotValid)
open Polynomial

/-- The bits of a byte string, the most significant bit of each byte first. -/
def bitAt (bytes : List UInt8) (i : Nat) : Bool := (bytes.getD (i / 8) 0).toBitVec.getMsbD (i % 8)

/-- Some bits are set, all of them among eight in a row. -/
def Burst (e : List UInt8) : Prop :=
  (∃ i < 8 * e.length, bitAt e i) ∧
    ∃ s < 8 * e.length, ∀ i < 8 * e.length, bitAt e i → s ≤ i ∧ i < s + 8

instance (e : List UInt8) : Decidable (Burst e) := inferInstanceAs (Decidable (_ ∧ _))

def corrupted (bytes e : List UInt8) : List UInt8 := List.zipWith (· ^^^ ·) bytes e

/-- The last byte is the checksum of the bytes before it. -/
def Checks (bytes : List UInt8) : Prop := crc8P93N 0 bytes.dropLast = bytes.getLastD 0

theorem checks_concat (w : List UInt8) (c : UInt8) : Checks (w ++ [c]) ↔ crc8P93N 0 w = c := by
  simp [Checks]

theorem map_corrupted (bytes e : List UInt8) :
    (corrupted bytes e).map bytePoly = List.zipWith (· + ·) (bytes.map bytePoly) (e.map bytePoly) := by
  rw [corrupted, List.map_zipWith, List.zipWith_map]
  simp only [bytePoly_xor]

/-- The coefficients of a byte string are its bits, the last bit lowest. -/
theorem coeff_bytesPoly (bytes : List UInt8) (j : Nat) : (bytesPoly bytes).coeff j =
    if j < 8 * bytes.length ∧ bitAt bytes (8 * bytes.length - 1 - j) then 1 else 0 := by
  have low : ∀ s ∈ bytes.map bytePoly, s.degree < (8 : Nat) := generator_degree ▸ symbols_lt bytes
  have split := CyclicCode.coeff_word low (j / 8) (Nat.mod_lt j (by decide : 0 < 8))
  rw [Nat.div_add_mod, ← List.map_reverse, ← bytePoly_zero, List.getD_map, coeff_bytePoly] at split
  rw [bytesPoly, split]
  by_cases inside : j < 8 * bytes.length
  · have byte : (8 * bytes.length - 1 - j) / 8 = bytes.length - 1 - j / 8 := by omega
    have bit : 8 - 1 - (8 * bytes.length - 1 - j) % 8 = j % 8 := by omega
    rw [List.getD_reverse _ (by omega), bitAt, byte, BitVec.getMsbD, bit]
    simp [inside, Nat.mod_lt]
  · rw [List.getD_eq_default _ _ (by rw [List.length_reverse]; omega)]
    simp [inside]

theorem Burst.not_dvd {e : List UInt8} (h : Burst e) : ¬ generator ∣ bytesPoly e := by
  obtain ⟨⟨i, inside, set⟩, s, -, window⟩ := h
  have constant : generator.coeff 0 ≠ 0 := by simp [generator]
  have degree : generator.natDegree = 8 := natDegree_eq_of_degree_eq_some generator_degree
  have nonzero : bytesPoly e ≠ 0 := by
    intro zero
    have index : 8 * e.length - 1 - (8 * e.length - 1 - i) = i := by omega
    have coeff := coeff_bytesPoly e (8 * e.length - 1 - i)
    rw [zero, index, if_pos ⟨by omega, set⟩] at coeff
    simp at coeff
  -- bit `i` is coefficient `8 * e.length - 1 - i`, so the window is turned round
  apply CyclicCode.not_dvd_burst constant nonzero (8 * e.length - (s + 8))
  intro j hj
  rw [coeff_bytesPoly] at hj
  split at hj
  next place =>
    have := window _ (by omega) place.2
    rw [degree]
    omega
  next => exact absurd rfl hj

theorem checks_iff (w : List UInt8) (c : UInt8) : Checks (w ++ [c]) ↔ generator ∣ bytesPoly (w ++ [c]) := by
  rw [checks_concat, crc_iff]

/-- No burst turns a byte string and its checksum into another such pair. -/
theorem Burst.noticed {m e : List UInt8} (same : e.length = m.length + 1) (h : Burst e) :
    ¬ Checks (corrupted (m ++ [crc8P93N 0 m]) e) := by
  have sent := (crc_iff m _).mp rfl
  have received : corrupted (m ++ [crc8P93N 0 m]) e ≠ [] := by
    intro empty
    have := congrArg List.length empty
    simp [corrupted, same] at this
  rw [← List.dropLast_append_getLast received, checks_iff, List.dropLast_append_getLast, bytesPoly, map_corrupted]
  exact CyclicCode.not_dvd_corrupted 8 (by simp [same]) sent h.not_dvd

/-- `Parse` takes no packet whose last byte is not the checksum of the others. -/
theorem parse_corrupted {w : List UInt8} {c : UInt8} (length : (w.headD c).toNat = w.length + 1)
    (corrupt : ¬ Checks (w ++ [c])) (more : List UInt8) :
    ∃ err, Packet.parse (w ++ [c] ++ more) = some (.error err) := by
  rw [checks_concat] at corrupt
  have min {n : UInt8} {rest : List UInt8} (short : n.toNat < 3) :
      Packet.parse (n :: rest) = some (.error (.packetMin (n :: rest) n)) := by
    unfold Packet.parse
    simp [UInt8.lt_iff_toNat_lt, short]
  cases w with
  | nil => exact ⟨_, min (by rw [List.headD_nil] at length; rw [length]; decide)⟩
  | cons n w =>
    rw [List.headD_cons] at length
    cases w with
    | nil => exact ⟨_, min (by rw [length, List.length_singleton]; decide)⟩
    | cons header data =>
      have size : n.toNat = 3 + data.length := by
        rw [length, List.length_cons, List.length_cons]
        omega
      refine ⟨.packetCrc (n :: header :: (data ++ [c])) c (crc8P93N 0 (n :: header :: data)),
        (Packet.parse_framed header c more size).trans ?_⟩
      rw [crc8P93N_firmware, if_pos fun same => corrupt same.symm]

theorem masterCommand_corrupted {w : List UInt8} {c : UInt8} (length : (w.headD c).toNat = w.length + 1)
    (corrupt : ¬ Checks (w ++ [c])) {env : Surroundings} {src : Nat} {g : Gate}
    (memory : ∀ k : Nat, k < w.length + 1 → g.peek env (src + k) = (w ++ [c]).getD k 0) (maxLength : UInt8) :
    (g.masterCommand env src maxLength).1 = g.masterOut2 .badPacket 0 ∨
      (g.masterCommand env src maxLength).1 = g.masterOut2 .invalidCrc c := by
  rw [checks_concat] at corrupt
  have first : g.peek env (src + 0) = w.headD c := by
    have first := memory 0 (by omega)
    cases w <;> simpa using first
  have last : g.peek env (src + (((w.headD c).toNat : Int) - 1)) = c := by
    have last := memory w.length (by omega)
    rw [length]
    simpa using last
  have pred : (w.headD c - 1).toNat = w.length := by
    have low : (1 : UInt8) ≤ w.headD c := by
      rw [UInt8.le_iff_toNat_le, length]
      exact Nat.le_add_left 1 _
    rw [UInt8.toNat_sub_of_le _ _ low, length]
    rfl
  have summed : ((List.range (w.headD c - 1).toNat).map fun k : Nat => g.peek env (src + k)) = w := by
    rw [pred]
    apply List.ext_getElem
    · simp
    · intro k _ hk
      rw [List.getElem_map, List.getElem_range, memory k (by omega), List.getD_append _ _ _ _ hk,
        List.getD_eq_getElem _ _ hk]
  unfold Gate.masterCommand
  simp only [first, last, summed, crc8P93N_firmware]
  split
  · exact Or.inl rfl
  split
  · exact Or.inl rfl
  · rw [if_pos fun same => corrupt same.symm]
    exact Or.inr rfl

theorem corrupted_length (bytes e : List UInt8) : (corrupted bytes e).length = min bytes.length e.length :=
  List.length_zipWith

/-- The checksum is the remainder modulo the generator, so a byte string that a burst has
changed fails the check on either side. -/
theorem catches_bursts :
    (∀ (init : UInt8) (bs : List UInt8),
      crc8P93N init bs = bs.foldl crc8P93Reference init ∧
      (bs.length ≤ 255 →
        Firmware.crc8P93Loop (fun k => bs.getD k 0) (UInt8.ofNat bs.length) 256 0 init =
          some (bs.foldl Firmware.crc8P93Reference init)) ∧
      bytePoly (bs.foldl crc8P93Reference init) =
        (bytePoly init * X ^ (8 * bs.length) + bytesPoly bs * X ^ 8) %ₘ generator) ∧
    ∀ (m e : List UInt8), e.length = m.length + 1 → Burst e →
      ∀ received, received = corrupted (m ++ [crc8P93N 0 m]) e →
        ¬ Checks received ∧
        ((m.headD 0).toNat = m.length + 1 → received.headD 0 = m.headD 0 →
          (∀ more, ∃ err, Packet.parse (received ++ more) = some (.error err)) ∧
          ∀ (env : Surroundings) (src : Nat) (g : Gate) (maxLength : UInt8),
            (∀ k : Nat, k < received.length → g.peek env (src + k) = received.getD k 0) →
            (g.masterCommand env src maxLength).1 = g.masterOut2 .badPacket 0 ∨
              (g.masterCommand env src maxLength).1 = g.masterOut2 .invalidCrc (received.getLastD 0)) := by
  constructor
  · intro init bs
    refine ⟨crc8P93N_reference init bs, fun short => ?_, crc_remainder init bs⟩
    have loop := crc8P93Loop_eq short 256 0 init (Nat.zero_le _) (by change _ < 256 + 0; omega)
    rw [loop, crc8P93N_reference]
    rfl
  · intro m e same burst received corrupt
    have noticed := burst.noticed same
    rw [← corrupt] at noticed
    refine ⟨noticed, fun length intact => ?_⟩
    have size : received.length = m.length + 1 := by
      rw [corrupt, corrupted_length, List.length_append, List.length_singleton, same, Nat.min_self]
    obtain rfl | ⟨w, c, rfl⟩ := List.eq_nil_or_concat received
    · cases size
    · have first : w.headD c = (w ++ [c]).headD 0 := by cases w <;> rfl
      have last : (w ++ [c]).getLastD 0 = c := by simp
      rw [List.concat_eq_append] at *
      rw [List.length_append, List.length_singleton] at size
      rw [← intact, ← first, ← size] at length
      refine ⟨parse_corrupted length noticed, fun env src g maxLength memory => ?_⟩
      rw [List.length_append, List.length_singleton] at memory
      rw [last]
      exact masterCommand_corrupted length noticed memory maxLength

/-- Two bits next to each other in different bytes, one of them in the checksum. -/
theorem catches_bursts_debug : ¬ Checks (corrupted [0x04, 0x0f, 0x30, 0xf7] [0x00, 0x00, 0x01, 0x80]) :=
  (catches_bursts.2 [0x04, 0x0f, 0x30] [0x00, 0x00, 0x01, 0x80] rfl (by decide +kernel) _ rfl).1

end Vender.Crc
