import Vender.Packet

namespace Vender.I2c

open MdbPacket (copyInto copyInto_length)

/-- Where a transfer fails before the device is asked, or in writing to it. -/
inductive BusError
  | openFile
  | setAddress
  | write
  deriving DecidableEq, Repr

/-- What the operating system answers to one transfer: whether the bus can be opened and
the address be set, where these are asked for, and the bytes that `Read` delivers (`none`
if it fails) or whether `Write` succeeds. -/
structure Transfer where
  opens : Bool := true
  addresses : Bool := true
  delivers : Option (List UInt8) := none
  writes : Bool := true

structure I2cBus where
  initialized : Bool := false
  addr : UInt8 := 0

namespace I2cBus

def init (t : Transfer) (b : I2cBus) : I2cBus × Option BusError :=
  if b.initialized then (b, none)
  else if t.opens then ({ b with initialized := true }, none)
  else (b, some .openFile)

def setAddress (t : Transfer) (addr : UInt8) (b : I2cBus) : I2cBus × Option BusError :=
  if addr ≠ b.addr then
    if t.addresses then ({ b with addr := addr }, none) else (b, some .setAddress)
  else (b, none)

/-- `b.file.Read(buf)`: what it leaves in `buf`, the count and whether it failed. -/
def fileRead (t : Transfer) (buf : List UInt8) : List UInt8 × Nat × Bool :=
  match t.delivers with
  | some bytes => (copyInto buf bytes, min bytes.length buf.length, false)
  | none => (buf, 0, true)

/-- `ReadBytesAt`, which drops the error of `Read`. -/
def readBytesAt (t : Transfer) (addr : UInt8) (buf : List UInt8) (b : I2cBus) :
    I2cBus × List UInt8 × Nat × Option BusError :=
  match b.init t with
  | (b, some err) => (b, buf, 0, some err)
  | (b, none) =>
    match b.setAddress t addr with
    | (b, some err) => (b, buf, 0, some err)
    | (b, none) =>
      let (buf, n, _) := fileRead t buf
      (b, buf, n, none)

def writeBytesAt (t : Transfer) (addr : UInt8) (b : I2cBus) : I2cBus × Option BusError :=
  match b.init t with
  | (b, some err) => (b, some err)
  | (b, none) =>
    match b.setAddress t addr with
    | (b, some err) => (b, some err)
    | (b, none) => (b, if t.writes then none else some .write)

/-- The transfer gets to the device. -/
def Reaches (t : Transfer) (addr : UInt8) (b : I2cBus) : Prop :=
  (b.initialized ∨ t.opens) ∧ (addr = b.addr ∨ t.addresses)

end I2cBus

/-- The bytes that a read into a buffer of this size delivers. -/
def Transfer.delivered (t : Transfer) (size : Nat) : List UInt8 := (t.delivers.getD []).take size

namespace I2cBus

theorem fileRead_buf (t : Transfer) (buf : List UInt8) :
    (fileRead t buf).1 = t.delivered buf.length ++ buf.drop (t.delivered buf.length).length := by
  unfold fileRead Transfer.delivered
  cases t.delivers with
  | none => simp
  | some bytes =>
    simp only [copyInto, Option.getD_some, List.length_take]
    congr 1
    by_cases long : buf.length ≤ bytes.length
    · rw [List.drop_eq_nil_of_le long, List.drop_eq_nil_of_le (by omega)]
    · rw [Nat.min_eq_right (by omega)]

theorem init_cases (t : Transfer) (b : I2cBus) :
    ((b.initialized ∨ t.opens) ∧ ∃ b', b.init t = (b', none) ∧ b'.addr = b.addr) ∨
      (¬ (b.initialized ∨ t.opens) ∧ b.init t = (b, some .openFile)) := by
  unfold init
  split
  next opened => exact Or.inl ⟨Or.inl opened, b, rfl, rfl⟩
  next closed =>
    split
    next opens => exact Or.inl ⟨Or.inr opens, _, rfl, rfl⟩
    next fails => exact Or.inr ⟨fun h => h.elim closed fails, rfl⟩

theorem setAddress_cases (t : Transfer) (addr : UInt8) (b : I2cBus) :
    ((addr = b.addr ∨ t.addresses) ∧ ∃ b', b.setAddress t addr = (b', none)) ∨
      (¬ (addr = b.addr ∨ t.addresses) ∧ b.setAddress t addr = (b, some .setAddress)) := by
  unfold setAddress
  split
  next other =>
    split
    next sets => exact Or.inl ⟨Or.inr sets, _, rfl⟩
    next fails => exact Or.inr ⟨fun h => h.elim other fails, rfl⟩
  next same => exact Or.inl ⟨Or.inl (not_not.mp same), b, rfl⟩

/-- A read that gets to the device returns no error, whatever it has delivered; any other
one leaves the buffer alone. -/
theorem readBytesAt_cases (t : Transfer) (addr : UInt8) (buf : List UInt8) (b : I2cBus) :
    (b.Reaches t addr ∧ ∃ b' n, b.readBytesAt t addr buf =
        (b', t.delivered buf.length ++ buf.drop (t.delivered buf.length).length, n, none)) ∨
      (¬ b.Reaches t addr ∧ ∃ b' err, b.readBytesAt t addr buf = (b', buf, 0, some err)) := by
  unfold readBytesAt
  rcases b.init_cases t with ⟨opened, b₁, init, addr₁⟩ | ⟨closed, init⟩
  · rw [init]
    rcases b₁.setAddress_cases t addr with ⟨set, b₂, setAddress⟩ | ⟨unset, setAddress⟩
    · dsimp only
      rw [setAddress, ← fileRead_buf]
      exact Or.inl ⟨⟨opened, by rwa [← addr₁]⟩, b₂, _, rfl⟩
    · dsimp only
      rw [setAddress]
      exact Or.inr ⟨fun reaches => unset (by rw [addr₁]; exact reaches.2), b₁, _, rfl⟩
  · rw [init]
    exact Or.inr ⟨fun reaches => closed reaches.1, b, _, rfl⟩

end I2cBus

end Vender.I2c
