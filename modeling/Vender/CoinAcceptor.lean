import Vender.Poll

namespace Vender

inductive CoinRouting
  | cashBox
  | tubes
  | notUsed
  | reject
  deriving DecidableEq, Repr

def CoinRouting.ofBits (b : UInt8) : CoinRouting :=
  if b = 0 then .cashBox else if b = 1 then .tubes else if b = 2 then .notUsed else .reject

inductive DispenseError
  | overflow (count : UInt8)
  | notSupported (nominal : Nominal)
  | tx (err : TxError)
  deriving DecidableEq, Repr

structure CoinAcceptor where
  coinTypeCredit : Vector Nominal 16
  coinTypeRouting : UInt16

def twoCoinChanger : CoinAcceptor where
  coinTypeCredit := #v[1, 2, 0, 0, 0, 0, 0, 0, 0, 0, 0, 0, 0, 0, 0, 0]
  coinTypeRouting := 3

namespace CoinAcceptor

def delayNext : Nat := 200

def delayErr : Nat := 500

def supportedNominals (hw : CoinAcceptor) : List Nominal :=
  hw.coinTypeCredit.toList.filter fun n => 0 < n

def coinTypeNominal (hw : CoinAcceptor) (b : UInt8) : Nominal :=
  if h : b.toNat < 16 then hw.coinTypeCredit[b.toNat] else 0

/-- The first coin type with this nominal and a set routing bit; `-1` is `none`. -/
def nominalCoinType (hw : CoinAcceptor) (nominal : Nominal) : Option (Fin 16) :=
  (List.finRange 16).find? fun ct =>
    hw.coinTypeCredit[ct] = nominal ∧ (1 <<< UInt16.ofNat ct.val) &&& hw.coinTypeRouting ≠ 0

def dispenseByte (count : UInt8) (coinType : Fin 16) : UInt8 :=
  (count <<< 4) + UInt8.ofNat coinType.val

/-- The checks of `CommandDispense` before it talks to the changer: the request
byte it is going to send, or the error it returns at once. -/
def dispenseRequest (hw : CoinAcceptor) (nominal : Nominal) (count : UInt8) :
    Except DispenseError UInt8 :=
  if 16 ≤ count then .error (.overflow count)
  else
    match hw.nominalCoinType nominal with
    | none => .error (.notSupported nominal)
    | some coinType => .ok (dispenseByte count coinType)

/-- `CommandDispense` with the outcome of its transaction: the request that was
sent, if it came to that, and the error it returns. -/
def commandDispense (hw : CoinAcceptor) (tx : Option TxError) (nominal : Nominal) (count : UInt8) :
    Option UInt8 × Option DispenseError :=
  match hw.dispenseRequest nominal count with
  | .error err => (none, some err)
  | .ok request => (some request, tx.map .tx)

/-- The value a changer pays for an accepted DISPENSE request: high nibble coins
of the type in the low nibble. -/
def requestValue (hw : CoinAcceptor) (request : UInt8) : Nat :=
  (hw.coinTypeNominal (request &&& 0xf)).toNat * (request >>> 4).toNat

theorem nominalCoinType_credit {hw : CoinAcceptor} {nominal : Nominal} {ct : Fin 16}
    (h : hw.nominalCoinType nominal = some ct) : hw.coinTypeCredit[ct] = nominal := by
  have found := List.find?_some h
  simp only [Bool.decide_and, Bool.and_eq_true, decide_eq_true_eq] at found
  exact found.1

theorem dispenseByte_toNat {count : UInt8} (small : count < 16) (ct : Fin 16) :
    (dispenseByte count ct).toNat = count.toNat * 16 + ct.val := by
  have hc : count.toNat < 16 := UInt8.lt_iff_toNat_lt.mp small
  have ht := ct.isLt
  have hs : (count <<< 4).toNat = count.toNat * 16 := by
    rw [UInt8.toNat_shiftLeft]
    change count.toNat <<< 4 % 256 = _
    rw [Nat.shiftLeft_eq]
    omega
  rw [dispenseByte, UInt8.toNat_add, hs, UInt8.toNat_ofNat', Nat.mod_eq_of_lt (by omega : ct.val < 2 ^ 8)]
  exact Nat.mod_eq_of_lt (by omega)

theorem dispenseByte_count {count : UInt8} (small : count < 16) (ct : Fin 16) :
    (dispenseByte count ct) >>> 4 = count := by
  have hc : count.toNat < 16 := UInt8.lt_iff_toNat_lt.mp small
  have ht := ct.isLt
  rw [← UInt8.toNat_inj, UInt8.toNat_shiftRight, dispenseByte_toNat small]
  change (count.toNat * 16 + ct.val) >>> 4 = _
  rw [Nat.shiftRight_eq_div_pow]
  omega

theorem dispenseByte_coinType {count : UInt8} (small : count < 16) (ct : Fin 16) :
    ((dispenseByte count ct) &&& 0xf).toNat = ct.val := by
  have ht := ct.isLt
  rw [UInt8.toNat_and, dispenseByte_toNat small]
  change (count.toNat * 16 + ct.val) &&& 2 ^ 4 - 1 = _
  rw [Nat.and_two_pow_sub_one_eq_mod]
  omega

theorem dispenseRequest_ok {hw : CoinAcceptor} {nominal : Nominal} {count request : UInt8}
    (h : hw.dispenseRequest nominal count = .ok request) :
    count < 16 ∧ request >>> 4 = count ∧ hw.coinTypeNominal (request &&& 0xf) = nominal := by
  unfold dispenseRequest at h
  split at h
  next => cases h
  next big =>
    have small : count < 16 := UInt8.not_le.mp big
    split at h
    next => cases h
    next ct hct =>
      cases Except.ok.inj h
      have decoded := dispenseByte_coinType small ct
      refine ⟨small, dispenseByte_count small ct, ?_⟩
      unfold coinTypeNominal
      rw [dif_pos (by rw [decoded]; exact ct.isLt)]
      simp only [decoded]
      exact nominalCoinType_credit hct

def pollItemCase (b : UInt8) : Option PollItem :=
  match b with
  | 0x01 => some { status := .returnRequest }
  | 0x02 => some { status := .busy }
  | 0x03 => some { status := .error, error := some .noCredit }
  | 0x04 => some { status := .fatal, error := some .sensor }
  | 0x05 => some { status := .info, error := some .doubleArrival }
  | 0x06 => some { status := .fatal, error := some .noStorage }
  | 0x07 => some { status := .fatal, error := some .jam }
  | 0x08 => some { status := .fatal, error := some .romChecksum }
  | 0x09 => some { status := .error, error := some .coinRouting }
  | 0x0a => some { status := .busy }
  | 0x0b => some { status := .wasReset }
  | 0x0c => some { status := .fatal, error := some .coinJam }
  | 0x0d => some { status := .error, error := some .fraud }
  | _ => none

def depositedItem (hw : CoinAcceptor) (b : UInt8) : PollItem :=
  let pi : PollItem := { dataNominal := hw.coinTypeNominal (b &&& 0xf), dataCount := 1 }
  match CoinRouting.ofBits ((b >>> 4) &&& 3) with
  | .cashBox => { pi with status := .credit, dataCashbox := true }
  | .tubes => { pi with status := .credit }
  | .notUsed => { pi with status := .error, error := some (.routingNotUsed b pi.dataNominal) }
  | .reject => { pi with status := .rejected }

/-- The item for one poll byte and whether the following byte belongs to it;
the second byte only goes to the log. -/
def parsePollItem (hw : CoinAcceptor) (b _b2 : UInt8) : PollItem × Bool :=
  match pollItemCase b with
  | some pi => (pi, false)
  | none =>
    if b >>> 5 = 1 then
      ({ status := .info, error := some .slugs, dataCount := b &&& 0x1f }, false)
    else if b >>> 6 = 1 then (hw.depositedItem b, true)
    else if b &&& 0x80 ≠ 0 then
      ({ status := .dispensed, dataNominal := hw.coinTypeNominal (b &&& 0xf),
         dataCount := (b >>> 4) &&& 7 }, true)
    else ({ status := .fatal, error := some (.unknown b) }, false)

def pollItems (hw : CoinAcceptor) : Bool → List UInt8 → List PollItem
  | _, [] => []
  | true, _ :: bs => hw.pollItems false bs
  | false, b :: bs =>
    let parsed := hw.parsePollItem b (bs.headD 0)
    parsed.1 :: hw.pollItems parsed.2 bs

def commandPoll (hw : CoinAcceptor) : Except TxError (List UInt8) → PollResult × Bool
  | .error err => ({ delay := delayErr, error := some err }, false)
  | .ok [] => ({ delay := delayNext }, true)
  | .ok bs =>
    let result : PollResult := { delay := delayNext, items := hw.pollItems false bs }
    (result, result.ready)

end CoinAcceptor

end Vender
