import Vender.BillValidator
import Vender.MdbTx
import Mathlib.Data.List.GetD

namespace Vender

/-- What `mdb.Tx` fills in and returns, `none` if it panics. -/
abbrev TxResult := Option (MdbPacket × Option MdbTxError)

inductive SetupError
  | tx (err : MdbTxError)
  | short (response : MdbPacket) (expectLength : Nat)
  deriving DecidableEq, Repr

/-- `bs[lo:hi]` of the bytes of a packet. The slice may reach behind their length, up to
the end of the array. -/
def MdbPacket.slice (p : MdbPacket) (lo hi : Nat) : List UInt8 := (p.b.take hi).drop lo

def uint16be (hi lo : UInt8) : UInt16 := lo.toUInt16 ||| (hi.toUInt16 <<< 8)

/-- The loop over the credits of a SETUP response, from entry `i` of the table on;
`none` is an index out of range. -/
def storeCredits (scalingFactor internalScalingFactor : Nominal) :
    (i : Nat) → List UInt8 → Vector Nominal 16 → Option (Vector Nominal 16)
  | _, [], table => some table
  | i, sf :: rest, table =>
    if h : i < 16 then
      storeCredits scalingFactor internalScalingFactor (i + 1) rest
        (table.set i (sf.toUInt32 * scalingFactor * internalScalingFactor))
    else none

/-- `CoinAcceptor` with the fields that only its set-up uses. -/
structure CoinDriver extends CoinAcceptor where
  featureLevel : UInt8
  internalScalingFactor : Int

/-- `BillValidator` with the fields that only its set-up uses. -/
structure BillDriver extends BillValidator where
  featureLevel : UInt8
  escrowCap : Bool
  internalScalingFactor : Int

namespace CoinDriver

def packetSetup : MdbPacket := MdbPacket.new.writeAll [0x09]

def init (self : CoinDriver) : CoinDriver :=
  { self with coinTypeCredit := Vector.replicate 16 0, internalScalingFactor := 1 }

def commandSetup (self : CoinDriver) : TxResult → Option (CoinDriver × Option SetupError)
  | none => none
  | some (_, some err) => some (self, some (.tx err))
  | some (response, none) =>
    let bs := response.bytes
    if h : bs.length < 7 then some (self, some (.short response 7))
    else
      let featureLevel := bs[0]
      let scalingFactor := bs[3].toUInt32
      let coinTypeRouting := uint16be bs[5] bs[6]
      let internalScalingFactor := UInt32.ofInt self.internalScalingFactor
      (storeCredits scalingFactor internalScalingFactor 0 (response.slice 7 (7 + 16)) self.coinTypeCredit).map
        fun coinTypeCredit => ({ self with featureLevel, coinTypeRouting, coinTypeCredit }, none)

end CoinDriver

namespace BillDriver

def packetSetup : MdbPacket := MdbPacket.new.writeAll [0x31]

def new : BillDriver where
  billTypeCredit := Vector.replicate 16 0
  featureLevel := 0
  escrowCap := false
  internalScalingFactor := 0

def init (self : BillDriver) : BillDriver :=
  { self with billTypeCredit := Vector.replicate 16 0 }

def commandSetup (self : BillDriver) : TxResult → Option (BillDriver × Option SetupError)
  | none => none
  | some (_, some err) => some (self, some (.tx err))
  | some (response, none) =>
    let bs := response.bytes
    if h : bs.length < 27 then some (self, some (.short response 27))
    else
      let scalingFactor := (uint16be bs[3] bs[4]).toUInt32
      let internalScalingFactor := UInt32.ofInt self.internalScalingFactor
      let escrowCap := bs[10] = 0xff
      let featureLevel := bs[0]
      (storeCredits scalingFactor internalScalingFactor 0 (bs.drop 11) self.billTypeCredit).map
        fun billTypeCredit => ({ self with featureLevel, escrowCap, billTypeCredit }, none)

end BillDriver

/-- The entries the loop stores, if they fit the table. -/
theorem storeCredits_some (f g : Nominal) (i : Nat) (bs : List UInt8) (table : Vector Nominal 16)
    (fits : i + bs.length ≤ 16) :
    ∃ table', storeCredits f g i bs table = some table' ∧ ∀ (j : Nat) (hj : j < 16),
      table'[j] = if i ≤ j ∧ j < i + bs.length then (bs.getD (j - i) 0).toUInt32 * f * g else table[j] := by
  induction bs generalizing i table with
  | nil =>
    refine ⟨table, rfl, fun j hj => ?_⟩
    rw [List.length_nil, if_neg (by omega)]
  | cons sf bs ih =>
    rw [List.length_cons] at fits
    obtain ⟨table', stored, entries⟩ := ih (i + 1) (table.set i (sf.toUInt32 * f * g)) (by omega)
    refine ⟨table', ?_, fun j hj => ?_⟩
    · rw [storeCredits, dif_pos (by omega)]
      exact stored
    · rw [entries j hj, List.length_cons]
      rcases Nat.lt_trichotomy j i with before | here | behind
      · rw [if_neg (by omega), if_neg (by omega), Vector.getElem_set_ne _ _ (by omega)]
      · subst here
        rw [if_neg (by omega), if_pos (by omega), Vector.getElem_set_self, Nat.sub_self]
        rfl
      · obtain ⟨m, rfl⟩ : ∃ m, j = i + 1 + m := ⟨j - i - 1, by omega⟩
        have index : i + 1 + m - i = m + 1 := by omega
        rw [Nat.add_sub_cancel_left, index, List.getD_cons_succ, Vector.getElem_set_ne _ _ (by omega)]
        by_cases inside : m < bs.length
        · rw [if_pos (by omega), if_pos (by omega)]
        · rw [if_neg (by omega), if_neg (by omega)]

theorem storeCredits_none {f g : Nominal} {i : Nat} {bs : List UInt8} {table : Vector Nominal 16}
    (long : 16 < i + bs.length)
    (start : i ≤ 16) : storeCredits f g i bs table = none := by
  induction bs generalizing i table with
  | nil =>
    rw [List.length_nil] at long
    omega
  | cons sf bs ih =>
    rw [List.length_cons] at long
    unfold storeCredits
    split
    next => exact ih (by omega) (by omega)
    next => rfl

theorem byteProduct_eq_zero {a b : UInt8} : a.toUInt32 * b.toUInt32 = 0 ↔ a = 0 ∨ b = 0 := by
  have ha := a.toNat_lt
  have hb := b.toNat_lt
  have small : a.toNat * b.toNat < 2 ^ 32 := by
    have := Nat.mul_lt_mul'' ha hb
    omega
  rw [← UInt32.toNat_inj, UInt32.toNat_mul, UInt8.toNat_toUInt32, UInt8.toNat_toUInt32, Nat.mod_eq_of_lt small,
    ← UInt8.toNat_inj, ← UInt8.toNat_inj]
  exact Nat.mul_eq_zero

theorem array_getD {p : MdbPacket} {chk : UInt8} (array : p.b = MdbPacket.copyInto MdbPacket.new.b (p.bytes ++ [chk]))
    (room : p.l < packetMaxLength) (j : Nat) :
    p.b.getD j 0 = if j < p.l then p.bytes.getD j 0 else if j = p.l then chk else 0 := by
  have length := p.bytes_length
  have whole : (p.bytes ++ [chk]).length ≤ packetMaxLength := by
    rw [List.length_append, List.length_singleton]
    omega
  have parts : p.b = p.bytes ++ chk :: List.replicate (packetMaxLength - (p.l + 1)) 0 := by
    rw [array, MdbPacket.copyInto, MdbPacket.new.b_length, List.take_of_length_le whole]
    simp [MdbPacket.new, length]
  rw [parts]
  split
  next inside => rw [List.getD_append _ _ _ _ (by omega)]
  next outside =>
    rw [List.getD_append_right _ _ _ _ (by omega), length]
    split
    next here =>
      subst here
      simp
    next other =>
      obtain ⟨m, rfl⟩ : ∃ m, j = p.l + 1 + m := ⟨j - p.l - 1, by omega⟩
      have index : p.l + 1 + m - p.l = m + 1 := by omega
      rw [index, List.getD_cons_succ]
      by_cases inside : m < packetMaxLength - (p.l + 1)
      · exact List.getD_replicate 0 inside
      · exact List.getD_eq_default _ _ (by rw [List.length_replicate]; omega)

theorem slice_length {p : MdbPacket} {lo hi : Nat} (fits : hi ≤ packetMaxLength) :
    (p.slice lo hi).length = hi - lo := by
  rw [MdbPacket.slice, List.length_drop, List.length_take, p.b_length, Nat.min_eq_left fits]

theorem slice_getD {p : MdbPacket} {lo hi j : Nat} (inside : lo + j < hi) :
    (p.slice lo hi).getD j 0 = p.b.getD (lo + j) 0 := by
  rw [MdbPacket.slice, List.getD_eq_getElem?_getD, List.getD_eq_getElem?_getD, List.getElem?_drop, List.getElem?_take,
    if_pos inside]

namespace CoinDriver

/-- After a set-up with a response of seven bytes or more each credit is read from the array,
in use or not. -/
theorem commandSetup_array (self : CoinDriver) {response : MdbPacket} (long : 7 ≤ response.l) :
    ∃ hw, self.init.commandSetup (some (response, none)) = some (hw, none) ∧ ∀ (i : Nat) (hi : i < 16),
      hw.coinTypeCredit[i] = (response.b.getD (7 + i) 0).toUInt32 * (response.bytes.getD 3 0).toUInt32 := by
  have length := response.bytes_length
  have size : (response.slice 7 (7 + 16)).length = 16 := slice_length (by decide)
  have third : 3 < response.bytes.length := by omega
  have enough : ¬response.bytes.length < 7 := by omega
  obtain ⟨table, stored, entries⟩ :=
    storeCredits_some response.bytes[3].toUInt32 1 0 (response.slice 7 (7 + 16)) (Vector.replicate 16 0) (by omega)
  refine ⟨{ self.init with
    featureLevel := response.bytes[0]
    coinTypeRouting := uint16be response.bytes[5] response.bytes[6]
    coinTypeCredit := table }, ?_, fun i hi => ?_⟩
  · simp only [commandSetup]
    rw [dif_neg enough]
    change Option.map _
      (storeCredits response.bytes[3].toUInt32 1 0 (response.slice 7 (7 + 16)) (Vector.replicate 16 0)) = _
    rw [stored]
    rfl
  · change table[i] = _
    rw [entries i hi, if_pos (by omega), Nat.sub_zero, slice_getD (by omega), UInt32.mul_one,
      List.getD_eq_getElem _ _ third]

/-- The table holds what was reported and nothing else. -/
structure ReportedOnly (hw : CoinAcceptor) (reply : List UInt8) : Prop where
  reported : ∀ (i : Nat) (hi : i < 16), 7 + i < reply.length →
    hw.coinTypeCredit[i] = (reply.getD (7 + i) 0).toUInt32 * (reply.getD 3 0).toUInt32
  absent : ∀ (i : Nat) (hi : i < 16), reply.length ≤ 7 + i → hw.coinTypeCredit[i] = 0
  supported : ∀ n, n ∈ hw.supportedNominals ↔
    n ≠ 0 ∧ ∃ j, 7 ≤ j ∧ j < reply.length ∧ n = (reply.getD j 0).toUInt32 * (reply.getD 3 0).toUInt32

theorem mem_supportedNominals {hw : CoinAcceptor} {n : Nominal} :
    n ∈ hw.supportedNominals ↔ n ≠ 0 ∧ ∃ (i : Nat) (hi : i < 16), n = hw.coinTypeCredit[i] := by
  rw [CoinAcceptor.supportedNominals, List.mem_filter, decide_eq_true_eq, Vector.mem_toList_iff,
    Vector.mem_iff_getElem,
    UInt32.pos_iff_ne_zero]
  constructor
  · rintro ⟨⟨i, hi, entry⟩, positive⟩
    exact ⟨positive, i, hi, entry.symm⟩
  · rintro ⟨positive, i, hi, entry⟩
    exact ⟨⟨i, hi, entry.symm⟩, positive⟩

theorem reportedOnly_of_entries {hw : CoinAcceptor} {reply : List UInt8} (short : reply.length ≤ 7 + 16)
    (reported : ∀ (i : Nat) (hi : i < 16), 7 + i < reply.length →
      hw.coinTypeCredit[i] = (reply.getD (7 + i) 0).toUInt32 * (reply.getD 3 0).toUInt32)
    (absent : ∀ (i : Nat) (hi : i < 16), reply.length ≤ 7 + i → hw.coinTypeCredit[i] = 0) :
    ReportedOnly hw reply where
  reported := reported
  absent := absent
  supported := by
    intro n
    rw [mem_supportedNominals]
    refine and_congr_right fun positive => ⟨?_, ?_⟩
    · rintro ⟨i, hi, entry⟩
      by_cases inside : 7 + i < reply.length
      · exact ⟨7 + i, by omega, inside, entry.trans (reported i hi inside)⟩
      · exact absurd (entry.trans (absent i hi (by omega))) positive
    · rintro ⟨j, seven, inside, value⟩
      obtain ⟨i, rfl⟩ : ∃ i, j = 7 + i := ⟨j - 7, by omega⟩
      exact ⟨i, by omega, value.trans (reported i (by omega) inside).symm⟩

/-- What a set-up over `fileUart` stores: behind the credits of the reply, its checksum. -/
theorem commandSetup_entries {dev : UartDevice} {u : FileUart} (self : CoinDriver) {response : MdbPacket}
    (received : (mdbTx dev u packetSetup .new).2 = some (response, none)) (long : 7 ≤ response.l) :
    ∃ hw, self.init.commandSetup (mdbTx dev u packetSetup .new).2 = some (hw, none) ∧ ∀ (i : Nat) (hi : i < 16),
      hw.coinTypeCredit[i] =
        (if 7 + i < response.l then response.bytes.getD (7 + i) 0
          else if 7 + i = response.l then checksum response.bytes else 0).toUInt32 *
          (response.bytes.getD 3 0).toUInt32 := by
  obtain ⟨room, array⟩ := mdbTx_array (by decide) received
  obtain ⟨hw, setup, entries⟩ := commandSetup_array self long
  rw [received]
  refine ⟨hw, setup, fun i hi => ?_⟩
  rw [entries i hi, array_getD array room]

/-- A set-up over `fileUart` credits only what a reply of seven to 23 bytes reports exactly
if the reply lists all sixteen coin types, or the checksum behind it scales to nothing. -/
theorem commandSetup_reportedOnly_iff (dev : UartDevice) (u : FileUart) (self : CoinDriver)
    (response : MdbPacket) (k : Nat)
    (received : (mdbTx dev u packetSetup .new).2 = some (response, none)) (size : response.l = 7 + k)
    (most : k ≤ 16) :
    (∃ hw, self.init.commandSetup (mdbTx dev u packetSetup .new).2 = some (hw, none) ∧
      ReportedOnly hw.toCoinAcceptor response.bytes) ↔
      k = 16 ∨ checksum response.bytes = 0 ∨ response.bytes.getD 3 0 = 0 := by
  have length := response.bytes_length
  obtain ⟨hw, setup, entries⟩ := commandSetup_entries self received (by omega)
  rw [setup]
  constructor
  · rintro ⟨_, same, only⟩
    cases same
    by_cases all : k = 16
    · exact Or.inl all
    · have behind := only.absent k (by omega) (by omega)
      rw [entries k (by omega), if_neg (by omega), if_pos (by omega)] at behind
      exact Or.inr (byteProduct_eq_zero.mp behind)
  · intro nothing
    refine ⟨hw, rfl, reportedOnly_of_entries (by omega) (fun i hi inside => ?_) (fun i hi outside => ?_)⟩
    · rw [entries i hi, if_pos (by omega)]
    · rw [entries i hi, if_neg (by omega), byteProduct_eq_zero]
      by_cases here : 7 + i = response.l
      · rw [if_pos here]
        exact nothing.resolve_left (by omega)
      · rw [if_neg here]
        exact Or.inl rfl

def fullChanger : UartDevice where
  fails := fun _ => none
  incoming := FileUart.escape ([0x02, 0x16, 0x43, 0x64, 0x02, 0x00, 0x17] ++ List.replicate 16 0x01) ++
    [0xff, 0x00, 0xe8]

theorem fullChanger_reportedOnly :
    ∃ response, (mdbTx fullChanger ⟨0, true, []⟩ packetSetup .new).2 = some (response, none) ∧ response.l = 7 + 16 ∧
      ∃ hw, (init ⟨twoCoinChanger, 0, 0⟩).commandSetup (mdbTx fullChanger ⟨0, true, []⟩ packetSetup .new).2 =
        some (hw, none) ∧ ReportedOnly hw.toCoinAcceptor response.bytes := by
  have answers : ∃ p, (mdbTx fullChanger ⟨0, true, []⟩ packetSetup .new).2 = some (p, none) ∧
      p.bytes = [0x02, 0x16, 0x43, 0x64, 0x02, 0x00, 0x17] ++ List.replicate 16 0x01 :=
    mdbTx_receives [] (fun _ => rfl) rfl (by decide) rfl (by decide)
  obtain ⟨response, received, bytes⟩ := answers
  have size : response.l = 7 + 16 := by
    rw [← response.bytes_length, bytes]
    rfl
  exact ⟨response, received, size,
    (commandSetup_reportedOnly_iff fullChanger ⟨0, true, []⟩ ⟨twoCoinChanger, 0, 0⟩ response 16
      received size le_rfl).mpr
      (Or.inl rfl)⟩

/-- A changer with three coin types; the checksum of its reply is 0xe0. -/
def threeTypeChanger : UartDevice where
  fails := fun _ => none
  incoming := FileUart.escape [0x02, 0x16, 0x43, 0x64, 0x02, 0x00, 0x17, 0x01, 0x02, 0x05] ++ [0xff, 0x00, 0xe0]

theorem threeTypeChanger_credits_checksum :
    ∃ response, (mdbTx threeTypeChanger ⟨0, true, []⟩ packetSetup .new).2 = some (response, none) ∧
      response.l = 7 + 3 ∧
      ¬∃ hw, (init ⟨twoCoinChanger, 0, 0⟩).commandSetup (mdbTx threeTypeChanger ⟨0, true, []⟩ packetSetup .new).2 =
        some (hw, none) ∧ ReportedOnly hw.toCoinAcceptor response.bytes := by
  have answers : ∃ p, (mdbTx threeTypeChanger ⟨0, true, []⟩ packetSetup .new).2 = some (p, none) ∧
      p.bytes = [0x02, 0x16, 0x43, 0x64, 0x02, 0x00, 0x17, 0x01, 0x02, 0x05] :=
    mdbTx_receives [] (fun _ => rfl) rfl (by decide) rfl (by decide)
  obtain ⟨response, received, bytes⟩ := answers
  have size : response.l = 7 + 3 := by
    rw [← response.bytes_length, bytes]
    rfl
  refine ⟨response, received, size, ?_⟩
  obtain ⟨hw, setup, entries⟩ := commandSetup_entries ⟨twoCoinChanger, 0, 0⟩ received (by omega)
  rintro ⟨hw', same, only⟩
  cases setup.symm.trans same
  have fourth := only.absent 3 (by omega) (by rw [response.bytes_length]; omega)
  rw [entries 3 (by omega), if_neg (by omega), if_pos (by omega), bytes] at fourth
  exact absurd fourth (by decide)

end CoinDriver

namespace BillDriver

/-- Each entry is the value reported times the big-endian scaling factor, without a wrap. -/
def ScaledValues (hw : BillValidator) (reply : List UInt8) : Prop :=
  ∀ (i : Nat) (hi : i < 16), hw.billTypeCredit[i].toNat =
    (reply.getD (11 + i) 0).toNat * ((reply.getD 3 0).toNat * 256 + (reply.getD 4 0).toNat)

/-- `Init` leaves the internal scaling factor zero, so the loop stores zeros only. -/
theorem commandSetup_zeros (response : MdbPacket) (size : response.l = 27) :
    ∃ hw, new.init.commandSetup (some (response, none)) = some (hw, none) ∧
      ∀ (i : Nat) (hi : i < 16), hw.billTypeCredit[i] = 0 := by
  have length := response.bytes_length
  have fourth : 4 < response.bytes.length := by omega
  have enough : ¬response.bytes.length < 27 := by omega
  have credits : (response.bytes.drop 11).length = 16 := by
    rw [List.length_drop]
    omega
  obtain ⟨table, stored, entries⟩ :=
    storeCredits_some (uint16be response.bytes[3] response.bytes[4]).toUInt32 0 0 (response.bytes.drop 11)
      (Vector.replicate 16 0) (by omega)
  refine ⟨{ new.init with
    featureLevel := response.bytes[0]
    escrowCap := response.bytes[10] = 0xff
    billTypeCredit := table }, ?_, fun i hi => ?_⟩
  · simp only [commandSetup]
    rw [dif_neg enough]
    change Option.map _ (storeCredits (uint16be response.bytes[3] response.bytes[4]).toUInt32 0 0
      (response.bytes.drop 11) (Vector.replicate 16 0)) = _
    rw [stored]
    rfl
  · change table[i] = 0
    rw [entries i hi, if_pos (by omega)]
    exact UInt32.mul_zero

/-- A longer reply has a credit for which the table has no entry. -/
theorem commandSetup_panics {response : MdbPacket} (longer : 27 < response.l) :
    new.init.commandSetup (some (response, none)) = none := by
  have length := response.bytes_length
  have fourth : 4 < response.bytes.length := by omega
  have enough : ¬response.bytes.length < 27 := by omega
  have credits : 16 < 0 + (response.bytes.drop 11).length := by
    rw [List.length_drop]
    omega
  simp only [commandSetup]
  rw [dif_neg enough, storeCredits_none credits (by omega)]
  rfl

/-- A set-up of a validator as `Init` leaves it yields the scaled values exactly for a reply
of 27 bytes whose scaling factor or whose values are zero. -/
theorem commandSetup_scaled_iff (response : MdbPacket) (long : 27 ≤ response.l) :
    (∃ hw, new.init.commandSetup (some (response, none)) = some (hw, none) ∧
      ScaledValues hw.toBillValidator response.bytes) ↔
      response.l = 27 ∧ (response.bytes.getD 3 0 = 0 ∧ response.bytes.getD 4 0 = 0 ∨
        ∀ i < 16, response.bytes.getD (11 + i) 0 = 0) := by
  by_cases size : response.l = 27
  · obtain ⟨hw, setup, zeros⟩ := commandSetup_zeros response size
    have meets : ScaledValues hw.toBillValidator response.bytes ↔
        ∀ i < 16, (response.bytes.getD (11 + i) 0).toNat = 0 ∨
          (response.bytes.getD 3 0).toNat = 0 ∧ (response.bytes.getD 4 0).toNat = 0 := by
      refine forall₂_congr fun i hi => ?_
      rw [zeros i hi, UInt32.toNat_zero, eq_comm, Nat.mul_eq_zero]
      refine or_congr_right ⟨fun h => by omega, fun h => by omega⟩
    have zero : ∀ b : UInt8, b.toNat = 0 ↔ b = 0 := fun b => ⟨fun h => UInt8.toNat_inj.mp h, fun h => by rw [h]; rfl⟩
    simp only [zero] at meets
    rw [setup]
    constructor
    · rintro ⟨_, same, scaled⟩
      cases same
      refine ⟨size, ?_⟩
      by_cases scale : response.bytes.getD 3 0 = 0 ∧ response.bytes.getD 4 0 = 0
      · exact Or.inl scale
      · exact Or.inr fun i hi => (meets.mp scaled i hi).resolve_right scale
    · rintro ⟨_, nothing⟩
      refine ⟨hw, rfl, meets.mpr fun i hi => ?_⟩
      rcases nothing with scale | values
      · exact Or.inr scale
      · exact Or.inl (values i hi)
  · rw [commandSetup_panics (by omega)]
    constructor
    · rintro ⟨_, same, _⟩
      cases same
    · rintro ⟨same, _⟩
      exact absurd same size

theorem blank_scaled :
    ∃ hw, new.init.commandSetup (some (MdbPacket.new.writeAll (List.replicate 27 0), none)) = some (hw, none) ∧
      ScaledValues hw.toBillValidator (MdbPacket.new.writeAll (List.replicate 27 0)).bytes :=
  (commandSetup_scaled_iff (MdbPacket.new.writeAll (List.replicate 27 0)) (by decide)).mpr
    ⟨by decide, Or.inl ⟨by decide, by decide⟩⟩

def testSetup : MdbPacket :=
  MdbPacket.new.writeAll ([0x01, 0x18, 0x10, 0x00, 0x0a, 0x00, 0x00, 0xc8, 0x00, 0x1f, 0xff, 0x01, 0x05, 0x0a, 0x32,
    0x64] ++ List.replicate 11 0x00)

theorem testSetup_not_scaled :
    27 ≤ testSetup.l ∧ ¬∃ hw, new.init.commandSetup (some (testSetup, none)) = some (hw, none) ∧
      ScaledValues hw.toBillValidator testSetup.bytes := by
  refine ⟨by decide, ?_⟩
  obtain ⟨hw, setup, zeros⟩ := commandSetup_zeros testSetup (by decide)
  rintro ⟨hw', same, scaled⟩
  cases setup.symm.trans same
  have first := scaled 0 (by omega)
  rw [zeros 0 (by omega)] at first
  exact absurd first (by decide)

end BillDriver

end Vender
