import Mathlib.Tactic.Common

namespace FourBitPort

/-- The upper half of a data port. -/
structure Half where
  d4 : Bool
  d5 : Bool
  d6 : Bool
  d7 : Bool
  deriving DecidableEq, Repr

/-- What a device takes in: both halves of a byte, or the upper one alone while
it reads eight lines of which four are not wired. -/
structure Transfer where
  rs : Bool
  high : Half
  low : Option Half
  deriving DecidableEq, Repr

/-- The lines that the device reads, and the half it has of a byte in two. -/
inductive Width
  | eight
  | four (first : Option Half)
  deriving DecidableEq, Repr

/-- A device with all it has taken in, oldest first. -/
structure Port where
  width : Width
  taken : List Transfer := []
  deriving Repr

/-- `0b0011` in the upper half sets eight lines, `0b0010` sets four. -/
def Transfer.setsWidth (t : Transfer) : Option Width :=
  if t.rs = false ∧ t.high.d7 = false ∧ t.high.d6 = false ∧ t.high.d5 = true then
    some (if t.high.d4 then .eight else .four none)
  else none

def Port.take (p : Port) (width : Width) (t : Transfer) : Port where
  width := t.setsWidth.getD width
  taken := p.taken ++ [t]

/-- One strobe with the register select and the four lines that are wired. -/
def Port.strobe (p : Port) : Bool × Half → Port
  | (rs, half) =>
    match p.width with
    | .eight => p.take .eight ⟨rs, half, none⟩
    | .four none => { p with width := .four (some half) }
    | .four (some high) => p.take (.four none) ⟨rs, high, some half⟩

def Port.strobes (p : Port) (ss : List (Bool × Half)) : Port := ss.foldl Port.strobe p

@[simp] theorem strobes_append (p : Port) (ss ss' : List (Bool × Half)) :
    p.strobes (ss ++ ss') = (p.strobes ss).strobes ss' :=
  List.foldl_append

def three : Half := ⟨true, true, false, false⟩

def two : Half := ⟨false, true, false, false⟩

/-- Three times `0b0011`, then `0b0010`. -/
def alignment : List (Bool × Half) := [(false, three), (false, three), (false, three), (false, two)]

theorem take_width (p : Port) (t : Transfer) :
    (p.take (.four none) t).width = .eight ∨ (p.take (.four none) t).width = .four none := by
  unfold Port.take Transfer.setsWidth
  split
  next => cases t.high.d4 <;> simp
  next => exact Or.inr rfl

theorem strobes_rest (p : Port) (between : p.width = .eight ∨ p.width = .four none) :
    ∃ before, p.strobes [(false, three), (false, three), (false, two)] = ⟨.four none, p.taken ++ before⟩ ∧
      before.length ≤ 3 := by
  obtain ⟨width, taken⟩ := p
  rcases between with eight | four
  · cases eight
    refine ⟨[⟨false, three, none⟩, ⟨false, three, none⟩, ⟨false, two, none⟩], ?_, by decide⟩
    show Port.mk _ (((taken ++ _) ++ _) ++ _) = _
    rw [List.append_assoc, List.append_assoc]
    rfl
  · cases four
    refine ⟨[⟨false, three, some three⟩, ⟨false, two, none⟩], ?_, by decide⟩
    show Port.mk _ ((taken ++ _) ++ _) = _
    rw [List.append_assoc]
    rfl

/-- The word brings every device to the beginning of a byte in two halves,
whatever it has been in the middle of. -/
theorem strobes_alignment (p : Port) :
    ∃ before, p.strobes alignment = ⟨.four none, p.taken ++ before⟩ ∧ before.length ≤ 4 := by
  have after_first : ∀ t, p.strobe (false, three) = p.take .eight t ∨
    p.strobe (false, three) = p.take (.four none) t →
      (p.strobe (false, three)).width = .eight ∨ (p.strobe (false, three)).width = .four none →
      ∃ before, p.strobes alignment = ⟨.four none, p.taken ++ before⟩ ∧ before.length ≤ 4 := by
    intro t took between
    obtain ⟨rest, strobed, short⟩ := strobes_rest (p.strobe (false, three)) between
    have taken : (p.strobe (false, three)).taken = p.taken ++ [t] := by
      rcases took with took | took <;> rw [took] <;> rfl
    refine ⟨t :: rest, ?_, ?_⟩
    · rw [alignment, Port.strobes, List.foldl_cons]
      rw [taken, List.append_assoc] at strobed
      exact strobed
    · rw [List.length_cons]
      omega
  cases width : p.width with
  | eight =>
    have first : p.strobe (false, three) = p.take .eight ⟨false, three, none⟩ := by
      simp only [Port.strobe, width]
    refine after_first _ (Or.inl first) (Or.inl ?_)
    rw [first]
    rfl
  | four half =>
    cases half with
    | none =>
      obtain ⟨_, taken⟩ := p
      cases width
      refine ⟨[⟨false, three, some three⟩, ⟨false, three, none⟩, ⟨false, two, none⟩], ?_, by decide⟩
      show Port.mk _ (((taken ++ _) ++ _) ++ _) = _
      rw [List.append_assoc, List.append_assoc]
      rfl
    | some high =>
      have first : p.strobe (false, three) = p.take (.four none) ⟨false, high, some three⟩ := by
        simp only [Port.strobe, width]
      refine after_first _ (Or.inr first) ?_
      rw [first]
      exact take_width p _

/-- The two halves of a byte, the upper one first. -/
def halves (byte : Bool × Half × Half) : List (Bool × Half) := [(byte.1, byte.2.1), (byte.1, byte.2.2)]

def Transfer.whole (byte : Bool × Half × Half) : Transfer := ⟨byte.1, byte.2.1, some byte.2.2⟩

/-- Not an instruction to read eight lines. -/
def StaysFour (byte : Bool × Half × Half) : Prop := ¬ (byte.1 = false ∧ byte.2.1 = three)

instance (byte : Bool × Half × Half) : Decidable (StaysFour byte) := inferInstanceAs (Decidable (¬ _))

theorem setsWidth_four {byte : Bool × Half × Half} (stays : StaysFour byte) :
    (Transfer.whole byte).setsWidth.getD (.four none) = .four none := by
  obtain ⟨rs, ⟨d4, d5, d6, d7⟩, low⟩ := byte
  unfold Transfer.setsWidth
  split
  next sets =>
    obtain ⟨instruction, off7, off6, on5⟩ := sets
    cases d4 with
    | false => rfl
    | true =>
      dsimp only [Transfer.whole] at instruction off7 off6 on5
      subst instruction off7 off6 on5
      exact absurd ⟨rfl, rfl⟩ stays
  next => rfl

/-- From the beginning of a byte every byte is taken in as it is sent. -/
theorem strobes_halves {bytes : List (Bool × Half × Half)} (stay : ∀ byte ∈ bytes, StaysFour byte)
    (taken : List Transfer) :
    Port.strobes ⟨.four none, taken⟩ (bytes.flatMap halves) =
      ⟨.four none, taken ++ bytes.map Transfer.whole⟩ := by
  induction bytes generalizing taken with
  | nil =>
    rw [List.map_nil, List.append_nil]
    rfl
  | cons byte bytes ih =>
    have here := setsWidth_four (stay byte List.mem_cons_self)
    have one : Port.strobes ⟨.four none, taken⟩ (halves byte) = ⟨.four none, taken ++ [Transfer.whole byte]⟩ := by
      show Port.take ⟨.four (some byte.2.1), taken⟩ (.four none) (Transfer.whole byte) = _
      rw [Port.take, here]
    have rest := ih (fun b mem => stay b (List.mem_cons_of_mem byte mem)) (taken ++ [Transfer.whole byte])
    rw [List.flatMap_cons, strobes_append, one, rest, List.append_assoc, List.map_cons]
    rfl

end FourBitPort
