import Mathlib.Data.UInt
import Mathlib.Data.List.TakeWhile
import Mathlib.Tactic.Common

namespace Vender

def packetMaxLength : Nat := 40

def checksum (bs : List UInt8) : UInt8 :=
  bs.foldl (fun chk b => chk + b) 0

def mdbBlock : List UInt8 → List (UInt8 × Bool)
  | [] => []
  | b :: rest => (b, true) :: (rest ++ [checksum (b :: rest)]).map fun c => (c, false)

inductive UartError
  | requestEmpty
  | ioctl
  | write
  | read
  | bufferFull
  | unknownSequence (b : UInt8)
  | invalidChecksum (received actual : UInt8)
  deriving DecidableEq, Repr

/-- What the driver asks of the device, with the 9th bit it is asked to use. -/
inductive UartOp
  | ioctl (flag9 : Bool)
  | write (p : List UInt8) (flag9 : Bool)
  | resetRead
  deriving DecidableEq, Repr

/-- The device: the error of the `k`-th operation asked of it, if it fails, and
what the reader delivers after a reset before it fails. -/
structure UartDevice where
  fails : Nat → Option UartError
  incoming : List UInt8

structure FileUart where
  c_cflag : UInt32
  /-- `false` in tests, where `f` is nil and no ioctl is made. -/
  hasFile : Bool
  /-- History of the operations, oldest first. -/
  ops : List UartOp := []
  deriving Repr

namespace FileUart

def parodd : UInt32 := 0x200

def flag9 (u : FileUart) : Bool := u.c_cflag &&& parodd = parodd

def ask (dev : UartDevice) (u : FileUart) (op : UartOp) : FileUart × Option UartError :=
  ({ u with ops := u.ops ++ [op] }, dev.fails u.ops.length)

def setParodd (u : FileUart) (b : Bool) : FileUart :=
  { u with c_cflag := if b then u.c_cflag ||| parodd else u.c_cflag &&& ~~~parodd }

def set9 (dev : UartDevice) (u : FileUart) (b : Bool) : FileUart × Option UartError :=
  if b = u.flag9 then (u, none)
  else
    let u := u.setParodd b
    if u.hasFile then ask dev u (.ioctl u.flag9) else (u, none)

/-- `self.w.Write`, which writes all of `p` or fails. -/
def write (dev : UartDevice) (u : FileUart) (p : List UInt8) : FileUart × Except UartError Nat :=
  match ask dev u (.write p u.flag9) with
  | (u, some err) => (u, .error err)
  | (u, none) => (u, .ok p.length)

/-- The `default` branch of the switch in `write9`, also entered by fallthrough. -/
def writeRest (dev : UartDevice) (u : FileUart) (rest : List UInt8) (n : Nat) : FileUart × Nat × Option UartError :=
  match set9 dev u false with
  | (u, some err) => (u, n, some err)
  | (u, none) =>
    match write dev u rest with
    | (u, .error err) => (u, n, some err)
    | (u, .ok n2) => (u, n + n2, none)

def write9 (dev : UartDevice) (u : FileUart) (p : List UInt8) (start9 : Bool) : FileUart × Nat × Option UartError :=
  match p with
  | [] => (u, 0, none)
  | [b] =>
    match set9 dev u start9 with
    | (u, some err) => (u, 0, some err)
    | (u, none) =>
      match write dev u [b] with
      | (u, .error err) => (u, 0, some err)
      | (u, .ok n) => writeRest dev u [] n
  | _ :: rest => writeRest dev u rest 0

def resetRead (dev : UartDevice) (u : FileUart) : FileUart × Option UartError :=
  set9 dev { u with ops := u.ops ++ [.resetRead] } false

/-- `bufio.Reader.ReadSlice(0xff)` with its buffer of 4096 bytes: the slice up to
the delimiter, which is left out here, and the rest of the input. -/
def readSlice (input : List UInt8) : Except UartError (List UInt8 × List UInt8) :=
  let part := input.takeWhile (· ≠ 0xff)
  if 4096 ≤ part.length then .error .bufferFull
  else
    match input.drop part.length with
    | [] => .error .read
    | _ :: rest => .ok (part, rest)

theorem readSlice_rest {input part rest : List UInt8} (h : readSlice input = .ok (part, rest)) :
    rest.length < input.length := by
  unfold readSlice at h
  dsimp only at h
  split at h
  next => cases h
  next =>
    split at h
    next => cases h
    next b tail hdrop =>
      cases h
      have := congrArg List.length hdrop
      simp only [List.length_drop, List.length_cons] at this
      omega

/-- `bufferReadPacket` with a destination of `cap` bytes, of which `dst` is the
part written so far; `none` is an index out of range. -/
def bufferReadPacket (cap : Nat) (dst input : List UInt8) : Option (List UInt8 × Option UartError) :=
  match h : readSlice input with
  | .error err => some (dst, some err)
  | .ok (part, rest) =>
    let dst := dst ++ part.take (cap - dst.length)
    match rest with
    | [] => some (dst, some .read)
    | 0x00 :: tail =>
      match tail with
      | [] => some (dst, some .read)
      | b :: _ => if dst.length < cap then some (dst ++ [b], none) else none
    | 0xff :: tail =>
      have : tail.length < input.length := by
        have := readSlice_rest h
        simp only [List.length_cons] at this
        omega
      if dst.length < cap then bufferReadPacket cap (dst ++ [0xff]) tail else none
    | b :: _ => some (dst, some (.unknownSequence b))
termination_by input.length

structure TxReply where
  n : Nat
  response : List UInt8
  err : Option UartError
  deriving Repr

def receive (dev : UartDevice) (u : FileUart) (cap : Nat) : FileUart × Option TxReply :=
  match bufferReadPacket cap [] dev.incoming with
  | none => (u, none)
  | some (dst, some err) => (u, some { n := 0, response := dst, err })
  | some (dst, none) =>
    let data := dst.dropLast
    match dst.getLast? with
    | none => (u, none)
    | some chkin =>
      if chkin ≠ checksum data then
        (u, some { n := data.length, response := dst, err := some (.invalidChecksum chkin (checksum data)) })
      else if data = [] then (u, some { n := 0, response := dst, err := none })
      else
        -- the ACK
        match write9 dev u [0x00] false with
        | (u, _, err) => (u, some { n := data.length, response := dst, err })

def tx (dev : UartDevice) (u : FileUart) (request : List UInt8) (cap : Nat) : FileUart × Option TxReply :=
  if request = [] then (u, some { n := 0, response := [], err := some .requestEmpty })
  else
    match write9 dev u request true with
    | (u, _, some err) => (u, some { n := 0, response := [], err })
    | (u, _, none) =>
      match write9 dev u [checksum request] false with
      | (u, _, some err) => (u, some { n := 0, response := [], err })
      | (u, _, none) =>
        match resetRead dev u with
        | (u, some err) => (u, some { n := 0, response := [], err })
        | (u, none) => receive dev u cap

def wire (ops : List UartOp) : List (UInt8 × Bool) :=
  ops.flatMap fun
    | .write p flag9 => p.map fun b => (b, flag9)
    | _ => []

def beforeReading (ops : List UartOp) : List UartOp :=
  ops.takeWhile (· ≠ .resetRead)

@[simp] theorem wire_append (xs ys : List UartOp) : wire (xs ++ ys) = wire xs ++ wire ys := by
  simp [wire]

@[simp] theorem wire_write (p : List UInt8) (flag9 : Bool) :
    wire [.write p flag9] = p.map fun b => (b, flag9) := by
  simp [wire]

theorem parodd_set (c : UInt32) : (c ||| parodd) &&& parodd = parodd := by
  rw [← UInt32.toBitVec_inj, UInt32.toBitVec_and, UInt32.toBitVec_or]
  ext i
  simp only [BitVec.getElem_and, BitVec.getElem_or]
  cases parodd.toBitVec[i] <;> simp

theorem parodd_clear (c : UInt32) : (c &&& ~~~parodd) &&& parodd = 0 := by
  rw [UInt32.and_assoc, UInt32.not_and_self, UInt32.and_zero]

@[simp] theorem setParodd_flag9 (u : FileUart) (b : Bool) : (u.setParodd b).flag9 = b := by
  cases b with
  | true => simp [setParodd, flag9, parodd_set]
  | false => simpa [setParodd, flag9, parodd_clear] using show (0 : UInt32) ≠ parodd by decide

theorem set9_ok {dev : UartDevice} (succeed : ∀ k, dev.fails k = none) (u : FileUart) (b : Bool) :
    ∃ v ops, set9 dev u b = (v, none) ∧ v.flag9 = b ∧ v.ops = u.ops ++ ops ∧ wire ops = [] ∧ .resetRead ∉ ops := by
  unfold set9
  split
  next same => exact ⟨u, [], rfl, same.symm, by simp, rfl, by simp⟩
  next =>
    have set := setParodd_flag9 u b
    dsimp only
    split
    · refine ⟨{ u.setParodd b with ops := u.ops ++ [.ioctl b] }, [.ioctl b], ?_, set, rfl, rfl, by simp⟩
      rw [ask, succeed, set]
      rfl
    · exact ⟨u.setParodd b, [], rfl, set, by simp [setParodd], rfl, by simp⟩

theorem writeRest_ok {dev : UartDevice} (succeed : ∀ k, dev.fails k = none) (u : FileUart)
    (rest : List UInt8) (n : Nat) :
    ∃ v ops, writeRest dev u rest n = (v, n + rest.length, none) ∧ v.ops = u.ops ++ ops ∧
      wire ops = rest.map (fun b => (b, false)) ∧ .resetRead ∉ ops := by
  obtain ⟨v, ops, hs, flag, hops, silent, noReset⟩ := set9_ok succeed u false
  refine ⟨{ v with ops := v.ops ++ [.write rest false] }, ops ++ [.write rest false], ?_, ?_, ?_, ?_⟩
  · simp [writeRest, hs, write, ask, succeed, flag]
  · simp [hops]
  · simp [silent]
  · simp [noReset]

/-- What `write9` puts on the wire: everything for one byte, but nothing of the
first of several bytes. -/
theorem write9_ok {dev : UartDevice} (succeed : ∀ k, dev.fails k = none) (u : FileUart) (b : UInt8)
    (rest : List UInt8)
    (start9 : Bool) :
    ∃ v n ops, write9 dev u (b :: rest) start9 = (v, n, none) ∧ v.ops = u.ops ++ ops ∧
      wire ops = (if rest = [] then [(b, start9)] else rest.map fun c => (c, false)) ∧ .resetRead ∉ ops := by
  cases rest with
  | nil =>
    obtain ⟨v, ops, hs, flag, hops, silent, noReset⟩ := set9_ok succeed u start9
    obtain ⟨w, ops', hw, hops', sent, noReset'⟩ :=
      writeRest_ok succeed { v with ops := v.ops ++ [.write [b] start9] } [] 1
    refine ⟨w, 1, ops ++ ([.write [b] start9] ++ ops'), ?_, ?_, ?_, ?_⟩
    · simpa [write9, hs, write, ask, succeed, flag] using hw
    · simp [hops', hops]
    · simp only [wire_append, silent, wire_write, sent]
      rfl
    · simp [noReset, noReset']
  | cons c rest =>
    obtain ⟨v, ops, hw, hops, sent, noReset⟩ := writeRest_ok succeed u (c :: rest) 0
    exact ⟨v, _, ops, hw, hops, by simpa using sent, noReset⟩

theorem set9_grows (dev : UartDevice) (u : FileUart) (b : Bool) : u.ops <+: (set9 dev u b).1.ops := by
  unfold set9
  split
  next => exact List.prefix_rfl
  next =>
    dsimp only
    split
    · exact List.prefix_append _ _
    · exact List.prefix_rfl

theorem write_grows (dev : UartDevice) (u : FileUart) (p : List UInt8) : u.ops <+: (write dev u p).1.ops := by
  unfold write
  split
  next hw => exact (congrArg Prod.fst hw) ▸ List.prefix_append _ _
  next hw => exact (congrArg Prod.fst hw) ▸ List.prefix_append _ _

theorem writeRest_grows (dev : UartDevice) (u : FileUart) (rest : List UInt8) (n : Nat) :
    u.ops <+: (writeRest dev u rest n).1.ops := by
  have set := set9_grows dev u false
  unfold writeRest
  split
  next hs => rwa [hs] at set
  next v hs =>
    rw [hs] at set
    have written := write_grows dev v rest
    split
    next hw => rw [hw] at written; exact set.trans written
    next hw => rw [hw] at written; exact set.trans written

theorem write9_grows (dev : UartDevice) (u : FileUart) (p : List UInt8) (start9 : Bool) :
    u.ops <+: (write9 dev u p start9).1.ops := by
  unfold write9
  split
  next => exact List.prefix_rfl
  next b =>
    have set := set9_grows dev u start9
    split
    next hs => rwa [hs] at set
    next v hs =>
      rw [hs] at set
      have written := write_grows dev v [b]
      split
      next hw => rw [hw] at written; exact set.trans written
      next w n hw =>
        rw [hw] at written
        exact (set.trans written).trans (writeRest_grows dev w [] n)
  next => exact writeRest_grows dev u _ 0

theorem receive_grows (dev : UartDevice) (u : FileUart) (cap : Nat) : u.ops <+: (receive dev u cap).1.ops := by
  have ack := write9_grows dev u [0x00] false
  unfold receive
  cases hw : write9 dev u [0x00] false with
  | mk v reply =>
    rw [hw] at ack
    split
    next => exact List.prefix_rfl
    next => exact List.prefix_rfl
    next =>
      dsimp only
      split
      next => exact List.prefix_rfl
      next =>
        split_ifs
        · exact List.prefix_rfl
        · exact List.prefix_rfl
        · exact ack

/-- What a call writes before it starts reading, for any request: the checksum
is there, but of a longer request the first byte is not. -/
theorem tx_written {dev : UartDevice} (succeed : ∀ k, dev.fails k = none) (u : FileUart) (b : UInt8)
    (rest : List UInt8) (cap : Nat) :
    ∃ ops, (tx dev u (b :: rest) cap).1.ops = u.ops ++ ops ∧
      wire (beforeReading ops) =
        (if rest = [] then [(b, true)] else rest.map fun c => (c, false)) ++ [(checksum (b :: rest), false)] := by
  obtain ⟨v, n, ops, hv, hops, sent, noReset⟩ := write9_ok succeed u b rest true
  obtain ⟨w, n', ops', hw, hops', sent', noReset'⟩ := write9_ok succeed v (checksum (b :: rest)) [] false
  have reset : (resetRead dev w).1.ops <+: (tx dev u (b :: rest) cap).1.ops := by
    cases hr : resetRead dev w with
    | mk x err =>
      cases err with
      | some err => simp [tx, hv, hw, hr]
      | none => simpa [tx, hv, hw, hr] using receive_grows dev x cap
  have start : w.ops ++ [.resetRead] <+: (resetRead dev w).1.ops :=
    set9_grows dev { w with ops := w.ops ++ [.resetRead] } false
  obtain ⟨more, hmore⟩ := start.trans reset
  refine ⟨ops ++ ops' ++ .resetRead :: more, by simp [← hmore, hops', hops], ?_⟩
  have cut : beforeReading (ops ++ ops' ++ .resetRead :: more) = ops ++ ops' := by
    unfold beforeReading
    rw [List.takeWhile_append_of_pos]
    · simp
    · intro op hop
      rcases List.mem_append.mp hop with h | h
      · simpa using fun heq : op = .resetRead => noReset (heq ▸ h)
      · simpa using fun heq : op = .resetRead => noReset' (heq ▸ h)
  rw [cut, wire_append, sent, sent', if_pos rfl]

/-- While the device does not fail, what `Tx` writes before it starts reading
is the block of the request exactly when the request is one byte. -/
theorem tx_writes_block_iff {dev : UartDevice} {u : FileUart} {request : List UInt8} {cap : Nat}
    (nonempty : request ≠ []) (succeed : ∀ k, dev.fails k = none) :
    (∃ ops, (tx dev u request cap).1.ops = u.ops ++ ops ∧ wire (beforeReading ops) = mdbBlock request) ↔
      request.length = 1 := by
  obtain ⟨b, rest, rfl⟩ := List.exists_cons_of_ne_nil nonempty
  obtain ⟨ops, hops, hwire⟩ := tx_written succeed u b rest cap
  constructor
  · rintro ⟨ops', hops', hblock⟩
    obtain rfl := List.append_cancel_left (hops.symm.trans hops')
    rw [hwire] at hblock
    have sizes := congrArg List.length hblock
    by_contra long
    have several : rest ≠ [] := by rintro rfl; exact long rfl
    simp [mdbBlock, several] at sizes
  · intro single
    obtain rfl : rest = [] := by simpa using single
    exact ⟨ops, hops, by simpa [mdbBlock] using hwire⟩

def idleDevice : UartDevice where
  fails := fun _ => none
  incoming := [0xff, 0x00, 0x00]

theorem tx_writes_block_poll :
    ∃ ops, (tx idleDevice ⟨parodd, true, []⟩ [0x0b] packetMaxLength).1.ops = [] ++ ops ∧
      wire (beforeReading ops) = mdbBlock [0x0b] :=
  (tx_writes_block_iff (u := ⟨parodd, true, []⟩) (by decide) (fun _ => rfl)).mpr rfl

theorem tx_drops_first_byte :
    ¬∃ ops, (tx idleDevice ⟨0, true, []⟩ [0x0f, 0x00] packetMaxLength).1.ops = [] ++ ops ∧
      wire (beforeReading ops) = mdbBlock [0x0f, 0x00] := by
  rintro ⟨ops, hops, hwire⟩
  obtain ⟨ops', hops', hwire'⟩ := tx_written (fun _ => rfl : ∀ k, idleDevice.fails k = none) ⟨0, true, []⟩ 0x0f [0x00]
    packetMaxLength
  obtain rfl := List.append_cancel_left (hops'.symm.trans hops)
  exact absurd (hwire.symm.trans hwire') (by decide)

end FileUart

end Vender
