import Vender.Lib.Runs
import Vender.Packet

namespace Vender

namespace MdbPacket

/-- `PacketEmpty` -/
def packetEmpty : MdbPacket := { new with readonly := true }

def equal (self p2 : MdbPacket) : Bool := self.l = p2.l && self.bytes = p2.bytes

def readFromPacket (self src : MdbPacket) : MdbPacket × Except PacketError Unit :=
  match self.write (src.b.take src.l) with
  | (p, .ok _) => (p, .ok ())
  | (p, .error err) => (p, .error err)

inductive PacketOp
  | write (p : List UInt8)
  | readFromPacket (src : MdbPacket)

namespace PacketOp

/-- The bytes that the operation is given. -/
def given : PacketOp → List UInt8
  | .write p => p
  | .readFromPacket src => src.bytes

def exec (self : MdbPacket) : PacketOp → MdbPacket × Except PacketError Unit
  | .write p => ((self.write p).1, (self.write p).2.map fun _ => ())
  | .readFromPacket src => self.readFromPacket src

end PacketOp

def step (self : MdbPacket) (op : PacketOp) : Option MdbPacket := some (op.exec self).1

/-- After a nil error the packet holds what it was given, after an error what it held. -/
def Faithful (self : MdbPacket) (op : PacketOp) (p : MdbPacket) : Prop :=
  p.l ≤ packetMaxLength ∧
    match (op.exec self).2 with
    | .ok () => p.bytes = op.given ∧ ∀ src, op = .readFromPacket src → p.equal src = true
    | .error _ => p.bytes = self.bytes

/-- A nil error on no bytes leaves the packet as it was. -/
def Keeps (self : MdbPacket) (op : PacketOp) (p : MdbPacket) : Prop :=
  p.l ≤ packetMaxLength ∧
    match (op.exec self).2 with
    | .ok () =>
      if op.given = [] then p.bytes = self.bytes
      else p.bytes = op.given ∧ ∀ src, op = .readFromPacket src → p.equal src = true
    | .error _ => p.bytes = self.bytes

theorem equal_iff {p q : MdbPacket} : p.equal q = true ↔ p.bytes = q.bytes := by
  have same : p.bytes = q.bytes → p.l = q.l := fun h => by rw [← p.bytes_length, ← q.bytes_length, h]
  simp only [equal, Bool.and_eq_true, decide_eq_true_eq]
  exact ⟨fun h => h.2, fun h => ⟨same h, h⟩⟩

/-- The four ways a `Write` ends. -/
theorem write_cases (self : MdbPacket) (p : List UInt8) :
    self.write p = (self, .error .readonly) ∨
      p = [] ∧ self.write p = (self, .ok 0) ∨
      self.write p = (self, .error .overflow) ∨
      p ≠ [] ∧ p.length ≤ packetMaxLength ∧ self.write p = (self.writeAll p, .ok (self.writeAll p).l) := by
  unfold write
  split
  next => exact Or.inl rfl
  next =>
    split
    next empty => exact Or.inr (Or.inl ⟨List.length_eq_zero_iff.mp empty, rfl⟩)
    next nonempty =>
      split
      next => exact Or.inr (Or.inr (Or.inl rfl))
      next short =>
        have nonempty : p ≠ [] := fun h => nonempty (by rw [h, List.length_nil])
        exact Or.inr (Or.inr (Or.inr ⟨nonempty, by omega, rfl⟩))

theorem exec_readFromPacket (self src : MdbPacket) :
    (PacketOp.readFromPacket src).exec self = (PacketOp.write src.bytes).exec self := by
  simp only [PacketOp.exec, readFromPacket, bytes]
  rcases self.write (src.b.take src.l) with ⟨p, n | err⟩
  · rfl
  · rfl

theorem exec_eq_write (self : MdbPacket) (op : PacketOp) : op.exec self = (PacketOp.write op.given).exec self := by
  cases op with
  | write p => rfl
  | readFromPacket src => exact exec_readFromPacket self src

/-- One operation on any packet, whatever earlier ones have left in it. -/
theorem keeps_exec (self : MdbPacket) (op : PacketOp) : self.Keeps op (op.exec self).1 := by
  have same : ∀ p : MdbPacket, p.bytes = op.given → ∀ src, op = .readFromPacket src → p.equal src = true := by
    rintro p bytes src rfl
    exact equal_iff.mpr bytes
  refine ⟨(op.exec self).1.fits, ?_⟩
  rw [exec_eq_write]
  simp only [PacketOp.exec]
  rcases self.write_cases op.given with failed | ⟨empty, failed⟩ | failed | ⟨nonempty, short, written⟩
  · rw [failed]
    rfl
  · rw [failed]
    simp [empty, Except.map]
  · rw [failed]
    rfl
  · rw [written]
    have bytes := self.writeAll_bytes short
    simp only [Except.map, if_neg nonempty]
    exact ⟨bytes, same _ bytes⟩

/-- Over every sequence of writes: a nil error on some bytes leaves exactly these, and
everything else leaves the bytes there were. -/
theorem keeps_along (p : MdbPacket) (ops : List PacketOp) : Runs.Along step Keeps p ops :=
  Runs.along_of_invariant (I := fun _ => True) (fun s op t taken _ _ => by
    cases Option.some.inj taken
    exact ⟨s.keeps_exec op, trivial⟩) trivial (Runs.along_true p ops)

/-- An empty packet is read into one that holds a byte. -/
theorem readEmpty_not_faithful :
    ¬ Runs.Along step Faithful new [.write [0x0b], .readFromPacket packetEmpty] := by
  intro faithful
  obtain ⟨_, rest⟩ := faithful _ rfl
  obtain ⟨⟨_, read⟩, _⟩ := rest _ rfl
  obtain ⟨held, _⟩ := read
  exact absurd held (by decide)

end MdbPacket

end Vender
