import Mathlib.Algebra.Group.Even
import Mathlib.Algebra.Group.Nat.Even
import Mathlib.Logic.Relation
import Vender.FileUart
import Vender.Lib.Runs

namespace Vender

namespace FileUart

/-- What the port itself has been told: its 9th bit, and how many `TCSETS2` have
failed since. -/
structure Line where
  flag9 : Bool
  failed : Nat := 0

def Line.after (fails : Nat → Option UartError) (line : Line) : UartOp × Nat → Line
  | (.ioctl flag9, k) =>
    match fails k with
    | none => { flag9 }
    | some _ => { line with failed := line.failed + 1 }
  | (.write _ _, _) => line
  | (.resetRead, _) => line

/-- The port after the operations asked of it, `TCSETSF2` of `Open` before them. -/
def lineAfter (fails : Nat → Option UartError) (ops : List UartOp) : Line :=
  ops.zipIdx.foldl (Line.after fails) { flag9 := false }

/-- `CMSPAR | CLOCAL | CREAD | CSTART | CS8 | PARENB | PARMRK | IGNPAR`. -/
def openCflag : UInt32 := 0x40000000 ||| 0x800 ||| 0x80 ||| 0x11 ||| 0x30 ||| 0x100 ||| 0x8 ||| 0x4

/-- Behind an `Open` that has returned no error. -/
def opened : FileUart where
  c_cflag := openCflag
  hasFile := true

/-- `Break`, given what `TCSBRKP` returns for a number of tenths of a second. -/
def breakFor (dev : UartDevice) (tcsbrkp : Int → Option UartError) (u : FileUart) (d : Int) :
    FileUart × Option UartError :=
  match resetRead dev u with
  | (u, some err) => (u, some err)
  | (u, none) => (u, tcsbrkp ((d.tdiv 1000000).tdiv 100))

/-- A call and what it meets besides the outcomes of its operations. -/
inductive FileCall
  | tx (request : List UInt8) (cap : Nat) (incoming : List UInt8)
  | breakFor (d : Int) (tcsbrkp : Int → Option UartError)

/-- One call whatever it returns, `none` where it panics. -/
def call (fails : Nat → Option UartError) (u : FileUart) : FileCall → Option FileUart
  | .tx request cap incoming =>
    match tx { fails, incoming } u request cap with
    | (_, none) => none
    | (u, some _) => some u
  | .breakFor d tcsbrkp => some (breakFor { fails, incoming := [] } tcsbrkp u d).1

/-- The driver asks for three things: the other 9th bit, bytes with the bit it
believes the port to have, and an empty read buffer. -/
inductive Move (u : FileUart) : FileUart → Prop
  | toggle (file : u.hasFile = true) :
    Move u { u.setParodd (!u.flag9) with ops := u.ops ++ [.ioctl (!u.flag9)] }
  | write (p : List UInt8) : Move u { u with ops := u.ops ++ [.write p u.flag9] }
  | resetRead : Move u { u with ops := u.ops ++ [.resetRead] }

abbrev Moves : FileUart → FileUart → Prop := Relation.ReflTransGen Move

variable {fails : Nat → Option UartError} {u v : FileUart}

theorem moves_hasFile (moves : Moves u v) (file : u.hasFile = true) : v.hasFile = true := by
  induction moves with
  | refl => exact file
  | tail _ move ih =>
    cases move with
    | toggle _ => exact ih
    | write p => exact ih
    | resetRead => exact ih

theorem set9_moves (dev : UartDevice) (file : u.hasFile = true) (b : Bool) : Moves u (set9 dev u b).1 := by
  unfold set9
  split
  next => exact .refl
  next other =>
    have flip : b = !u.flag9 := by
      cases b <;> cases flag : u.flag9 <;> simp_all
    have set : (u.setParodd b).hasFile = true := file
    dsimp only
    rw [if_pos set, setParodd_flag9, flip]
    exact .single (.toggle file)

theorem write_moves (dev : UartDevice) (u : FileUart) (p : List UInt8) : Moves u (write dev u p).1 := by
  have asked : (write dev u p).1 = { u with ops := u.ops ++ [.write p u.flag9] } := by
    unfold write ask
    cases dev.fails u.ops.length <;> rfl
  rw [asked]
  exact .single (.write p)

theorem writeRest_moves (dev : UartDevice) (file : u.hasFile = true) (rest : List UInt8) (n : Nat) :
    Moves u (writeRest dev u rest n).1 := by
  have set := set9_moves dev file false
  unfold writeRest
  split
  next hs => rwa [hs] at set
  next v hs =>
    rw [hs] at set
    have written := write_moves dev v rest
    split
    next hw => rw [hw] at written; exact set.trans written
    next hw => rw [hw] at written; exact set.trans written

theorem write9_moves (dev : UartDevice) (file : u.hasFile = true) (p : List UInt8) (start9 : Bool) :
    Moves u (write9 dev u p start9).1 := by
  unfold write9
  split
  next => exact .refl
  next b =>
    have set := set9_moves dev file start9
    split
    next hs => rwa [hs] at set
    next v hs =>
      rw [hs] at set
      have written := write_moves dev v [b]
      split
      next hw => rw [hw] at written; exact set.trans written
      next w n hw =>
        rw [hw] at written
        have sofar := set.trans written
        exact sofar.trans (writeRest_moves dev (moves_hasFile sofar file) [] n)
  next => exact writeRest_moves dev file _ 0

theorem resetRead_moves (dev : UartDevice) (file : u.hasFile = true) : Moves u (resetRead dev u).1 := by
  have reset : Moves u { u with ops := u.ops ++ [.resetRead] } := .single .resetRead
  have file : { u with ops := u.ops ++ [.resetRead] : FileUart }.hasFile = true := file
  exact reset.trans (set9_moves dev file false)

theorem receive_moves (dev : UartDevice) (file : u.hasFile = true) (cap : Nat) : Moves u (receive dev u cap).1 := by
  have ack := write9_moves dev file [0x00] false
  unfold receive
  split
  next => exact .refl
  next => exact .refl
  next dst _ =>
    dsimp only
    split
    next => exact .refl
    next chkin _ =>
      split_ifs
      · exact .refl
      · exact .refl
      · exact ack

theorem tx_moves (dev : UartDevice) (file : u.hasFile = true) (request : List UInt8) (cap : Nat) :
    Moves u (tx dev u request cap).1 := by
  unfold tx
  split
  next => exact .refl
  next =>
    have block := write9_moves dev file request true
    rcases hw : write9 dev u request true with ⟨u₁, n₁, err₁⟩
    rw [hw] at block
    cases err₁ with
    | some err => exact block
    | none =>
      have sum := block.trans (write9_moves dev (moves_hasFile block file) [checksum request] false)
      dsimp only
      rcases hw' : write9 dev u₁ [checksum request] false with ⟨u₂, n₂, err₂⟩
      rw [hw'] at sum
      cases err₂ with
      | some err => exact sum
      | none =>
        have reset := sum.trans (resetRead_moves dev (moves_hasFile sum file))
        dsimp only
        rcases hr : resetRead dev u₂ with ⟨u₃, err₃⟩
        rw [hr] at reset
        cases err₃ with
        | some err => exact reset
        | none => exact reset.trans (receive_moves dev (moves_hasFile reset file) cap)

theorem breakFor_moves (dev : UartDevice) (file : u.hasFile = true) (tcsbrkp : Int → Option UartError) (d : Int) :
    Moves u (breakFor dev tcsbrkp u d).1 := by
  have reset := resetRead_moves dev file
  unfold breakFor
  split
  next hr => rwa [hr] at reset
  next hr => rwa [hr] at reset

theorem call_moves {c : FileCall} (file : u.hasFile = true)
    (h : call fails u c = some v) : Moves u v := by
  cases c with
  | tx request cap incoming =>
    have moves := tx_moves { fails, incoming } file request cap
    simp only [call] at h
    split at h
    next => cases h
    next ht =>
      cases Option.some.inj h
      rwa [ht] at moves
  | breakFor d tcsbrkp =>
    cases Option.some.inj h
    exact breakFor_moves _ file tcsbrkp d

theorem lineAfter_append (fails : Nat → Option UartError) (ops : List UartOp) (op : UartOp) :
    lineAfter fails (ops ++ [op]) = Line.after fails (lineAfter fails ops) (op, ops.length) := by
  rw [lineAfter, List.zipIdx_append, List.foldl_append, Nat.zero_add]
  rfl

/-- The port has the bit that the driver believes it to have, or the other one
after an odd number of failures. -/
structure Follows (fails : Nat → Option UartError) (u : FileUart) : Prop where
  now : (lineAfter fails u.ops).flag9 = u.flag9 ↔ Even (lineAfter fails u.ops).failed
  written : ∀ k p flag9, u.ops[k]? = some (.write p flag9) →
    ((lineAfter fails (u.ops.take k)).flag9 = flag9 ↔ Even (lineAfter fails (u.ops.take k)).failed)

/-- What was written before stays as it was, the last operation aside. -/
theorem written_append {ops : List UartOp} {op : UartOp} {k : Nat} {p : List UInt8} {flag9 : Bool}
    (h : (ops ++ [op])[k]? = some (.write p flag9)) :
    (ops[k]? = some (.write p flag9) ∧ (ops ++ [op]).take k = ops.take k) ∨
      (op = .write p flag9 ∧ (ops ++ [op]).take k = ops) := by
  rcases Nat.lt_or_ge k ops.length with before | last
  · rw [List.getElem?_append_left before] at h
    exact Or.inl ⟨h, List.take_append_of_le_length (Nat.le_of_lt before)⟩
  · rw [List.getElem?_append_right last] at h
    obtain ⟨bound, same⟩ := List.getElem?_eq_some_iff.mp h
    rw [List.length_singleton] at bound
    have k_eq : k = ops.length := by omega
    subst k_eq
    refine Or.inr ⟨?_, List.take_left⟩
    simpa using same

theorem follows_move (follows : Follows fails u) (move : Move u v) : Follows fails v := by
  have earlier : ∀ op, (∀ p flag9, op = .write p flag9 →
      ((lineAfter fails u.ops).flag9 = flag9 ↔ Even (lineAfter fails u.ops).failed)) →
      ∀ k p flag9, (u.ops ++ [op])[k]? = some (.write p flag9) →
        ((lineAfter fails ((u.ops ++ [op]).take k)).flag9 = flag9 ↔
          Even (lineAfter fails ((u.ops ++ [op]).take k)).failed) := by
    intro op last k p flag9 h
    rcases written_append h with ⟨before, same⟩ | ⟨now, same⟩
    · rw [same]
      exact follows.written k p flag9 before
    · rw [same]
      exact last p flag9 now
  cases move with
  | toggle _ =>
    refine ⟨?_, earlier _ fun p flag9 other => nomatch other⟩
    have set : FileUart.flag9 { u.setParodd (!u.flag9) with ops := u.ops ++ [.ioctl (!u.flag9)] } = !u.flag9 :=
      setParodd_flag9 u (!u.flag9)
    rw [set, lineAfter_append]
    have now := follows.now
    simp only [Line.after]
    cases fails u.ops.length with
    | none => simp
    | some err =>
      -- one failure more, and the driver believes the opposite
      rw [Nat.even_add_one, ← now]
      cases (lineAfter fails u.ops).flag9 <;> cases u.flag9 <;> simp
  | write p =>
    refine ⟨?_, earlier _ ?_⟩
    · rw [lineAfter_append]
      exact follows.now
    · intro p' flag9 same
      cases same
      exact follows.now
  | resetRead =>
    refine ⟨?_, earlier _ fun p flag9 other => nomatch other⟩
    rw [lineAfter_append]
    exact follows.now

theorem follows_moves (follows : Follows fails u) (moves : Moves u v) : Follows fails v := by
  induction moves with
  | refl => exact follows
  | tail _ move ih => exact follows_move ih move

theorem follows_opened (fails : Nat → Option UartError) : Follows fails opened where
  now := by
    have off : opened.flag9 = false := by decide
    rw [off]
    exact iff_of_true rfl ⟨0, rfl⟩
  written := by
    intro k p flag9 h
    cases h

/-- After any calls, whichever of their operations fail: bytes go out with the
9th bit that the driver means exactly if an even number of `TCSETS2` has failed
since the last one that has not. -/
theorem ninth_bit_iff {calls : List FileCall}
    (reached : Runs.run (call fails) opened calls = some u) {k : Nat} {p : List UInt8} {flag9 : Bool}
    (h : u.ops[k]? = some (.write p flag9)) :
    (lineAfter fails (u.ops.take k)).flag9 = flag9 ↔ Even (lineAfter fails (u.ops.take k)).failed := by
  have kept : u.hasFile = true ∧ Follows fails u := by
    refine Runs.invariant_of_run (I := fun x => x.hasFile = true ∧ Follows fails x) ?_
      ⟨rfl, follows_opened _⟩ (Runs.along_true opened calls) reached
    intro s c t called before _
    have moves := call_moves before.1 called
    exact ⟨moves_hasFile moves before.1, follows_moves before.2 moves⟩
  exact kept.2.written k p flag9 h

/-- The ioctl of the first call fails, the second call makes none. -/
def firstFails (k : Nat) : Option UartError := if k = 0 then some .ioctl else none

def pollTwice : List FileCall := [.tx [0x0b] packetMaxLength [], .tx [0x0b] packetMaxLength [0xff, 0x00, 0x00]]

theorem ninth_bit_iff_pollTwice :
    ∃ u, Runs.run (call firstFails) opened pollTwice = some u ∧ u.ops[1]? = some (.write [0x0b] true) ∧
      (lineAfter firstFails (u.ops.take 1)).flag9 ≠ true := by
  have possible : ((Runs.run (call firstFails) opened pollTwice).map FileUart.ops) =
      some [.ioctl true, .write [0x0b] true, .ioctl false, .write [] false, .write [0x0b] false, .write [] false,
        .resetRead] := by
    decide +kernel
  obtain ⟨u, reached, ops⟩ := Option.map_eq_some_iff.mp possible
  have address : u.ops[1]? = some (.write [0x0b] true) := by
    rw [ops]
    rfl
  refine ⟨u, reached, address, fun same => ?_⟩
  have even := (ninth_bit_iff reached address).mp same
  rw [ops] at even
  exact absurd even (by decide)

end FileUart

end Vender
