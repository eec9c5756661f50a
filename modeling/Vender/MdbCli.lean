import Vender.Lib.LineLoop
import Vender.Packet
import Vender.Poll

namespace Vender

namespace MdbCli

open LineLoop (Outcome Triple Post)

/-- What a command does on the bus, to the log and to the clock. -/
inductive Action
  | breakCustom
  | setLog (on : Bool)
  | sleep (ms : Nat)
  | tx (request : List UInt8)
deriving DecidableEq

/-- The variables of a line: `err` is the one its blocks share. -/
structure Line where
  iteration : Nat := 1
  err : Option TxError := none
  done : List Action := []
deriving DecidableEq

def ascii (s : String) : List UInt8 := s.toList.map Char.toUInt8

def split (sep : UInt8) : List UInt8 → List (List UInt8)
  | [] => [[]]
  | b :: bs =>
    if b = sep then [] :: split sep bs
    else
      match split sep bs with
      | [] => [[b]]
      | w :: ws => (b :: w) :: ws

def digit (b : UInt8) : Option Nat :=
  if '0'.toUInt8 ≤ b ∧ b ≤ '9'.toUInt8 then some (b - '0'.toUInt8).toNat else none

/-- `strconv.ParseUint` of base 10 and 32 bits. -/
def parseUint (s : List UInt8) : Option Nat :=
  match s.mapM digit with
  | none => none
  | some [] => none
  | some (d :: ds) =>
    let n := (d :: ds).foldl (fun n d => 10 * n + d) 0
    if n < 2 ^ 32 then some n else none

def fromHexChar (b : UInt8) : Option UInt8 :=
  if '0'.toUInt8 ≤ b ∧ b ≤ '9'.toUInt8 then some (b - '0'.toUInt8)
  else if 'a'.toUInt8 ≤ b ∧ b ≤ 'f'.toUInt8 then some (b - 'a'.toUInt8 + 10)
  else if 'A'.toUInt8 ≤ b ∧ b ≤ 'F'.toUInt8 then some (b - 'A'.toUInt8 + 10)
  else none

def decodeString : List UInt8 → Option (List UInt8)
  | [] => some []
  | [_] => none
  | a :: b :: rest => do
    let a ← fromHexChar a
    let b ← fromHexChar b
    let rest ← decodeString rest
    return (a <<< 4 ||| b) :: rest

def packetFromHex (s : List UInt8) : Option MdbPacket := (decodeString s).bind MdbPacket.packetFromBytes

/-- A block of the line: a packet that is nil or without bytes is not sent, and the devices answer
as all that was done so far makes them. `none` is a panic of `mdb.Tx`, at an answer longer than the
response. -/
def tx (answer : List Action → Option (Option TxError)) (request : Option MdbPacket) (s : Line) : Option Line :=
  match request with
  | none => some s
  | some request =>
    if request.l = 0 then some { s with err := none }
    else
      let done := s.done ++ [.tx request.bytes]
      (answer done).map fun err => { s with err, done }

def Line.does (s : Line) (a : Action) : Line := { s with done := s.done ++ [a] }

inductive Command
  | help
  | breakCustom
  | setLog (on : Bool)
  | loop (i : Option Nat)
  | sleep (ms : Option Nat)
  | tx (request : Option MdbPacket)
  | empty
  | invalid

def command (w : List UInt8) : Command :=
  if w = ascii "help" then .help
  else if w = ascii "break" then .breakCustom
  else if w = ascii "log=yes" then .setLog true
  else if w = ascii "log=no" then .setLog false
  else
    match w with
    | [] => .empty
    | c :: arg =>
      if c = 'l'.toUInt8 then .loop (parseUint arg)
      else if c = 's'.toUInt8 then .sleep (parseUint arg)
      else if c = 't'.toUInt8 then .tx (packetFromHex arg)
      else .invalid

def exec (answer : List Action → Option (Option TxError)) (c : Command) (s : Line) : Outcome Line :=
  match c with
  | .help => .next s
  | .breakCustom => .next (s.does .breakCustom)
  | .setLog on => .next (s.does (.setLog on))
  | .loop none => .exit s
  | .loop (some i) =>
    let s := { s with iteration := s.iteration + 1 }
    if s.iteration ≤ i then .again s else .next s
  | .sleep none => .exit s
  | .sleep (some ms) => .next (s.does (.sleep ms))
  | .tx request =>
    match tx answer request s with
    | none => .exit s
    | some s => if s.err = some .other then .leave s else .next s
  -- `word[0]` of an empty word panics
  | .empty => .exit s
  | .invalid => .leave s

def word (answer : List Action → Option (Option TxError)) (w : List UInt8) (s : Line) : Outcome Line :=
  exec answer (command w) s

def loopCount (w : List UInt8) : Nat :=
  match command w with
  | .loop (some i) => i
  | _ => 0

/-- The largest number of the line's loop commands, or 1. -/
def turns (words : List (List UInt8)) : Nat := (words.map loopCount).foldr max 1

def words (line : List UInt8) : List (List UInt8) := split ' '.toUInt8 line

/-- A line of the input, as often as `fuel` lets it begin. -/
def run (answer : List Action → Option (Option TxError)) (fuel : Nat) (line : List UInt8) : Option (Outcome Line) :=
  LineLoop.run (word answer) (words line) fuel {}

variable {answer : List Action → Option (Option TxError)} {w : List UInt8} {ws : List (List UInt8)} {s : Line}

theorem tx_iteration {request : Option MdbPacket} {s t : Line} (sent : tx answer request s = some t) :
    t.iteration = s.iteration := by
  unfold tx at sent
  split at sent
  · cases sent
    rfl
  · split at sent
    · cases sent
      rfl
    · obtain ⟨err, _, rfl⟩ := Option.map_eq_some_iff.mp sent
      rfl

/-- The word is a block at which `mdb.Tx` panics. -/
def Panics (answer : List Action → Option (Option TxError)) (w : List UInt8) (s : Line) : Prop :=
  ∃ request, command w = .tx (some request) ∧ answer (s.done ++ [.tx request.bytes]) = none

theorem tx_panics {request : Option MdbPacket} (switch : command w = .tx request)
    (broke : tx answer request s = none) :
    Panics answer w s := by
  unfold tx at broke
  split at broke
  next => cases broke
  next request =>
    split at broke
    next => cases broke
    next => exact ⟨request, switch, Option.map_eq_none_iff.mp broke⟩

def acts (w : List UInt8) : Option (List Action) :=
  match command w with
  | .help => some []
  | .breakCustom => some [.breakCustom]
  | .setLog on => some [.setLog on]
  | .sleep (some ms) => some [.sleep ms]
  | .tx none => some []
  | .tx (some request) => if request.l = 0 then some [] else some [.tx request.bytes]
  | _ => none

def Soft (result : Option (Option TxError)) : Prop := ∃ err, result = some err ∧ err ≠ some .other

theorem word_acts {as : List Action} (soft : ∀ done, Soft (answer done)) (does : acts w = some as)
    (ok : s.err ≠ some .other) :
    ∃ t, word answer w s = .next t ∧ t.iteration = s.iteration ∧ t.done = s.done ++ as ∧ t.err ≠ some .other := by
  unfold word
  unfold acts at does
  cases switch : command w with
  | help =>
    simp only [switch, Option.some.injEq] at does
    exact ⟨s, rfl, rfl, by simp [← does], ok⟩
  | breakCustom | setLog on =>
    simp only [switch, Option.some.injEq] at does
    exact ⟨_, rfl, rfl, by rw [← does]; rfl, ok⟩
  | sleep ms =>
    cases ms with
    | none => simp [switch] at does
    | some ms =>
      simp only [switch, Option.some.injEq] at does
      exact ⟨_, rfl, rfl, by rw [← does]; rfl, ok⟩
  | tx request =>
    have sent : ∃ t, tx answer request s = some t ∧ t.done = s.done ++ as ∧ t.err ≠ some .other := by
      cases request with
      | none =>
        simp only [switch, Option.some.injEq] at does
        exact ⟨s, rfl, by simp [← does], ok⟩
      | some request =>
        simp only [switch] at does
        dsimp only [tx]
        split at does
        next nothing =>
          rw [if_pos nothing]
          exact ⟨_, rfl, by simpa using does.symm, nofun⟩
        next bytes =>
          obtain ⟨err, returned, mild⟩ := soft (s.done ++ [.tx request.bytes])
          rw [if_neg bytes, returned]
          refine ⟨_, rfl, ?_, mild⟩
          rw [← Option.some.inj does]
    obtain ⟨t, returned, done, mild⟩ := sent
    refine ⟨t, ?_, tx_iteration returned, done, mild⟩
    dsimp only [exec]
    rw [returned]
    exact if_neg mild
  | loop i | empty | invalid => simp [switch] at does

/-- The state of a line of plain words with one loop command behind them, at the beginning of a turn. -/
def Turn (as : List Action) (n : Nat) (s : Line) : Prop :=
  1 ≤ s.iteration ∧ s.iteration ≤ n ∧ s.done = (List.replicate (s.iteration - 1) as).flatten ∧ s.err ≠ some .other

/-- The end of the line, with the actions done so often. -/
def Repeated (as : List Action) (n : Nat) : Post Line where
  next := fun t => t.done = (List.replicate n as).flatten ∧ t.err ≠ some .other
  again := fun _ => False
  leave := fun _ => False
  exit := fun _ => False

theorem body_acts {body : List (List UInt8)} {as : List (List Action)} (soft : ∀ done, Soft (answer done))
    (plain : body.mapM acts = some as) (k : Nat) (done : List Action) :
    Triple (word answer) (fun s => s.iteration = k ∧ s.done = done ∧ s.err ≠ some .other) body
      { next := fun t => t.iteration = k ∧ t.done = done ++ as.flatten ∧ t.err ≠ some .other
        again := fun _ => False
        leave := fun _ => False
        exit := fun _ => False } := by
  induction body generalizing as done with
  | nil =>
    cases plain
    intro s ⟨turn, so_far, ok⟩
    refine ⟨turn, ?_, ok⟩
    simpa using so_far
  | cons w body ih =>
    simp only [List.mapM_cons, Option.pure_def, Option.bind_eq_bind, Option.bind_eq_some_iff,
      Option.some.injEq] at plain
    obtain ⟨a, does, rest, plain, rfl⟩ := plain
    apply Triple.cons (R := fun s => s.iteration = k ∧ s.done = done ++ a ∧ s.err ≠ some .other)
    · intro s ⟨turn, so_far, ok⟩
      obtain ⟨t, next, same, more, ok⟩ := word_acts soft does ok
      rw [next]
      exact ⟨same.trans turn, by rw [more, so_far], ok⟩
    · have later := ih plain (done ++ a)
      rw [List.append_assoc] at later
      exact later

/-- A turn of such a line does the plain words' actions, and is the last one if it is the `n`-th. -/
theorem turn_repeats {body : List (List UInt8)} {loop : List UInt8} {as : List (List Action)} {i : Nat}
    (soft : ∀ done, Soft (answer done)) (plain : body.mapM acts = some as) (loops : command loop = .loop (some i))
    (n : Nat) :
    Triple (word answer) (fun s => Turn as.flatten (max 1 i) s ∧ max 1 i - s.iteration = n) (body ++ [loop])
      { Repeated as.flatten (max 1 i) with
        again := fun t => Turn as.flatten (max 1 i) t ∧ max 1 i - t.iteration < n } := by
  intro s ⟨⟨first, last, so_far, ok⟩, left⟩
  have once : (List.replicate (s.iteration - 1) as.flatten).flatten ++ as.flatten =
      (List.replicate s.iteration as.flatten).flatten := by
    obtain ⟨k, turn⟩ : ∃ k, s.iteration = k + 1 := ⟨s.iteration - 1, by omega⟩
    rw [turn, List.replicate_succ']
    simp
  have whole : Triple (word answer)
      (fun t => t.iteration = s.iteration ∧
        t.done = (List.replicate (s.iteration - 1) as.flatten).flatten ∧ t.err ≠ some .other)
      (body ++ [loop])
      { Repeated as.flatten (max 1 i) with
        again := fun t => Turn as.flatten (max 1 i) t ∧ max 1 i - t.iteration < n } := by
    apply Triple.append
      (R := fun t => t.iteration = s.iteration ∧
        t.done = (List.replicate s.iteration as.flatten).flatten ∧ t.err ≠ some .other)
    · apply Triple.weaken (body_acts soft plain s.iteration _)
      · intro t ⟨same, more, ok⟩
        exact ⟨same, more.trans once, ok⟩
      · exact fun _ => False.elim
      · exact fun _ => False.elim
      · exact fun _ => False.elim
    · apply Triple.single
      intro t ⟨same, more, ok⟩
      unfold word
      rw [loops]
      dsimp only [exec]
      by_cases again : t.iteration + 1 ≤ i
      · rw [if_pos again]
        refine ⟨⟨?_, ?_, ?_, ok⟩, ?_⟩
        · show 1 ≤ t.iteration + 1
          omega
        · show t.iteration + 1 ≤ max 1 i
          omega
        · show t.done = (List.replicate (t.iteration + 1 - 1) as.flatten).flatten
          rw [more, same, Nat.add_sub_cancel]
        · show max 1 i - (t.iteration + 1) < n
          omega
      · rw [if_neg again]
        refine ⟨?_, ok⟩
        show t.done = (List.replicate (max 1 i) as.flatten).flatten
        have end_of_loop : max 1 i = s.iteration := by omega
        rw [more, end_of_loop]
  exact whole s ⟨rfl, so_far, ok⟩

/-- `lN` behind words that neither loop nor end the line has their actions done N times and in order,
and once if N is 0, unless a transmission fails otherwise than by timeout. -/
theorem loop_repeats {line : List UInt8} {body : List (List UInt8)} {loop : List UInt8}
    {as : List (List Action)} {i : Nat}
    (reads : words line = body ++ [loop]) (plain : body.mapM acts = some as) (loops : command loop = .loop (some i))
    (soft : ∀ done, Soft (answer done)) :
    ∃ t, run answer (max 1 i) line = some (.next t) ∧ t.done = (List.replicate (max 1 i) as.flatten).flatten := by
  have ends : ∃ o, LineLoop.run (word answer) (body ++ [loop]) (max 1 i) {} = some o ∧
      (Repeated as.flatten (max 1 i)).Holds o := by
    apply LineLoop.run_ends (Q := Repeated as.flatten (max 1 i)) (turn_repeats soft plain loops)
    · exact ⟨Nat.le_refl 1, le_max_left 1 i, rfl, nofun⟩
    · show max 1 i - 1 < max 1 i
      omega
  obtain ⟨o, ran, holds⟩ := ends
  rw [← reads] at ran
  cases o with
  | next t => exact ⟨t, ran, holds.1⟩
  | again t | leave t | exit t => exact holds.elim

theorem loop_repeats_thrice :
    words (ascii "t0b s7 l3") = [ascii "t0b", ascii "s7"] ++ [ascii "l3"] ∧
      ∃ t, run (fun _ => some (some .timeout)) 3 (ascii "t0b s7 l3") = some (.next t) ∧
        t.done = [.tx [0x0b], .sleep 7, .tx [0x0b], .sleep 7, .tx [0x0b], .sleep 7] :=
  have reads : words (ascii "t0b s7 l3") = [ascii "t0b", ascii "s7"] ++ [ascii "l3"] := by decide
  have plain : [ascii "t0b", ascii "s7"].mapM acts = some [[.tx [0x0b]], [.sleep 7]] := by decide +kernel
  have loops : command (ascii "l3") = .loop (some 3) := rfl
  ⟨reads, loop_repeats reads plain loops fun _ => ⟨some .timeout, rfl, nofun⟩⟩

example : run (fun _ => some none) 3 (ascii "t0b s7 l3") =
    some (.next ⟨4, none, [.tx [0x0b], .sleep 7, .tx [0x0b], .sleep 7, .tx [0x0b], .sleep 7]⟩) := by decide +kernel

end MdbCli

end Vender
