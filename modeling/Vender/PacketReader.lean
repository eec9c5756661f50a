import Vender.FileUart

namespace Vender.FileUart

/-- A reply as the line discipline hands it over: 0xff in the data is doubled,
and the byte with the 9th bit comes behind 0xff 0x00. -/
def escape (d : List UInt8) : List UInt8 := d.flatMap fun b => if b = 0xff then [0xff, 0xff] else [b]

structure Unpacked where
  dst : List UInt8
  err : Option UartError
  unread : List UInt8
  deriving DecidableEq, Repr

/-- `bufferReadPacket` with what is left to read. A failed `ReadSlice` has taken the
buffer of 4096 bytes or all there was. -/
def readPacket (cap : Nat) (dst input : List UInt8) : Option Unpacked :=
  match h : readSlice input with
  | .error err => some { dst, err := some err, unread := input.drop 4096 }
  | .ok (part, rest) =>
    let dst := dst ++ part.take (cap - dst.length)
    match rest with
    | [] => some { dst, err := some .read, unread := [] }
    | 0x00 :: tail =>
      match tail with
      | [] => some { dst, err := some .read, unread := [] }
      | b :: unread => if dst.length < cap then some { dst := dst ++ [b], err := none, unread } else none
    | 0xff :: tail =>
      have : tail.length < input.length := by
        have := readSlice_rest h
        simp only [List.length_cons] at this
        omega
      if dst.length < cap then readPacket cap (dst ++ [0xff]) tail else none
    | b :: unread => some { dst, err := some (.unknownSequence b), unread }
termination_by input.length

/-- The turns of the loop: the data `d` was unescaped from the input, another 0xff was
read behind it, and `rest` follows. -/
inductive Scans : (d input rest : List UInt8) → Prop
  | piece {part rest : List UInt8} (clear : ∀ b ∈ part, b ≠ 0xff) (short : part.length < 4096) :
      Scans part (part ++ 0xff :: rest) rest
  | doubled {part d tail rest : List UInt8} (clear : ∀ b ∈ part, b ≠ 0xff) (short : part.length < 4096)
      (more : Scans d tail rest) : Scans (part ++ 0xff :: d) (part ++ 0xff :: 0xff :: tail) rest

/-- No stretch of the data between two 0xff fills the buffer of 4096 bytes. -/
def ShortRuns (d : List UInt8) : Prop := ∀ run, run <:+: d → (∀ b ∈ run, b ≠ 0xff) → run.length < 4096

/-- What follows a 0xff makes the loop write one more byte. -/
inductive WritesByte : (rest : List UInt8) → Prop
  | doubled (tail : List UInt8) : WritesByte (0xff :: tail)
  | last (c : UInt8) (tail : List UInt8) : WritesByte (0x00 :: c :: tail)

theorem escape_of_clear {d : List UInt8} (clear : ∀ b ∈ d, b ≠ 0xff) : escape d = d := by
  induction d with
  | nil => rfl
  | cons b d ih =>
    obtain ⟨first, rest⟩ := List.forall_mem_cons.mp clear
    have one : escape (b :: d) = b :: escape d := by simp [escape, first]
    rw [one, ih rest]

theorem escape_append (d d' : List UInt8) : escape (d ++ d') = escape d ++ escape d' := by
  simp [escape]

theorem escape_doubled (d : List UInt8) : escape (0xff :: d) = 0xff :: 0xff :: escape d := by
  simp [escape]

theorem readSlice_piece {part : List UInt8} (clear : ∀ b ∈ part, b ≠ 0xff) (short : part.length < 4096)
    (rest : List UInt8) : readSlice (part ++ 0xff :: rest) = .ok (part, rest) := by
  have piece : (part ++ 0xff :: rest).takeWhile (· ≠ 0xff) = part := by
    rw [List.takeWhile_append_of_pos (by simpa using clear)]
    simp
  unfold readSlice
  simp only [piece, List.drop_left]
  rw [if_neg (by omega)]

theorem readSlice_ok {input part rest : List UInt8} (h : readSlice input = .ok (part, rest)) :
    (∀ b ∈ part, b ≠ 0xff) ∧ part.length < 4096 ∧ input = part ++ 0xff :: rest := by
  unfold readSlice at h
  dsimp only at h
  split at h
  next => cases h
  next short =>
    split at h
    next => cases h
    next b tail behind =>
      cases h
      have cut := @List.takeWhile_append_dropWhile _ (· ≠ (0xff : UInt8)) input
      have dropped := @List.drop_left _ (input.takeWhile (· ≠ 0xff)) (input.dropWhile (· ≠ 0xff))
      rw [cut, behind] at dropped
      have first := List.head?_dropWhile_not (· ≠ (0xff : UInt8)) input
      rw [← dropped] at cut first
      have delimiter : b = 0xff := by simpa using first
      subst delimiter
      exact ⟨fun b mem => by simpa using List.mem_takeWhile_imp mem, by omega, cut.symm⟩

theorem Scans.escaped {d input rest : List UInt8} (h : Scans d input rest) : input = escape d ++ 0xff :: rest := by
  induction h with
  | piece clear _ => rw [escape_of_clear clear]
  | doubled clear _ _ ih =>
    rw [escape_append, escape_of_clear clear, escape_doubled, ih]
    simp

theorem shortRuns_of_length {d : List UInt8} (short : d.length < 4096) : ShortRuns d :=
  fun _ within _ => within.length_le.trans_lt short

theorem ShortRuns.within {d d' : List UInt8} (h : ShortRuns d) (within : d' <:+: d) : ShortRuns d' :=
  fun run inside clear => h run (inside.trans within) clear

theorem clear_infix {part d run : List UInt8} (clear : ∀ b ∈ run, b ≠ 0xff) (within : run <:+: part ++ 0xff :: d) :
    run <:+: part ∨ run <:+: d := by
  have head : ∀ front : List UInt8, (∀ b ∈ front, b ≠ 0xff) → front <+: 0xff :: d → front = [] := by
    intro front clear front_of
    rcases List.prefix_cons_iff.mp front_of with nothing | ⟨t, whole, _⟩
    · exact nothing
    · subst whole
      exact absurd rfl (clear 0xff List.mem_cons_self)
  rcases List.infix_append_iff.mp within with left | right | ⟨l₁, l₂, rfl, back, front⟩
  · exact Or.inl left
  · rcases List.infix_cons_iff.mp right with front | later
    · rw [head run clear front]
      exact Or.inl List.nil_infix
    · exact Or.inr later
  · rw [head l₂ (fun b mem => clear b (List.mem_append_right l₁ mem)) front, List.append_nil]
    exact Or.inl back.isInfix

theorem Scans.shortRuns {d input rest : List UInt8} (h : Scans d input rest) : ShortRuns d := by
  induction h with
  | piece _ short => exact shortRuns_of_length short
  | doubled _ short _ ih =>
    intro run within clear
    rcases clear_infix clear within with left | right
    · exact left.length_le.trans_lt short
    · exact ih run right clear

theorem scans_of_shortRuns {d : List UInt8} (short : ShortRuns d) (rest : List UInt8) :
    Scans d (escape d ++ 0xff :: rest) rest := by
  induction size : d.length using Nat.strongRecOn generalizing d with
  | ind n ih =>
    have clear : ∀ b ∈ d.takeWhile (· ≠ 0xff), b ≠ 0xff := by
      intro b mem
      simpa using List.mem_takeWhile_imp mem
    have cut := @List.takeWhile_append_dropWhile _ (· ≠ 0xff) d
    cases behind : d.dropWhile (· ≠ 0xff) with
    | nil =>
      rw [behind, List.append_nil] at cut
      rw [cut] at clear
      rw [escape_of_clear clear]
      exact .piece clear (short d List.infix_rfl clear)
    | cons b d' =>
      have first := List.head?_dropWhile_not (· ≠ (0xff : UInt8)) d
      rw [behind] at first cut
      have delimiter : b = 0xff := by simpa using first
      subst delimiter
      have length := congrArg List.length cut
      rw [List.length_append, List.length_cons] at length
      have piece : (d.takeWhile (· ≠ 0xff)).length < 4096 := short _ (List.takeWhile_prefix _).isInfix clear
      have behind_it : d' <:+: d := ⟨d.takeWhile (· ≠ 0xff) ++ [0xff], [], by simpa using cut⟩
      have more := ih d'.length (by omega) (short.within behind_it) rfl
      have whole := Scans.doubled clear piece more
      rw [cut] at whole
      have input : escape d ++ 0xff :: rest =
          d.takeWhile (· ≠ 0xff) ++ 0xff :: 0xff :: (escape d' ++ 0xff :: rest) := by
        conv_lhs => rw [← cut]
        rw [escape_append, escape_of_clear clear, escape_doubled]
        simp
      rw [input]
      exact whole

theorem scans_iff {d input rest : List UInt8} :
    Scans d input rest ↔ input = escape d ++ 0xff :: rest ∧ ShortRuns d := by
  constructor
  · intro scans
    exact ⟨scans.escaped, scans.shortRuns⟩
  · rintro ⟨rfl, short⟩
    exact scans_of_shortRuns short rest

theorem scans_escape {d : List UInt8} (short : d.length < 4096) (rest : List UInt8) :
    Scans d (escape d ++ 0xff :: rest) rest :=
  scans_of_shortRuns (shortRuns_of_length short) rest

theorem readPacket_slice {cap : Nat} {dst input part rest : List UInt8} (h : readSlice input = .ok (part, rest)) :
    readPacket cap dst input =
      let dst := dst ++ part.take (cap - dst.length)
      match rest with
      | [] => some { dst, err := some .read, unread := [] }
      | [0x00] => some { dst, err := some .read, unread := [] }
      | 0x00 :: b :: unread => if dst.length < cap then some { dst := dst ++ [b], err := none, unread } else none
      | 0xff :: tail => if dst.length < cap then readPacket cap (dst ++ [0xff]) tail else none
      | b :: unread => some { dst, err := some (.unknownSequence b), unread } := by
  rw [readPacket]
  split
  next hr => cases h.symm.trans hr
  next hr =>
    cases h.symm.trans hr
    dsimp only
    split
    next => rfl
    next => split <;> rfl
    next => rfl
    next other_zero other_ff =>
      split
      next heq _ => cases heq
      next heq _ =>
        cases heq
        exact absurd rfl (fun h => other_zero _ h HEq.rfl)
      next heq _ =>
        cases heq
        exact absurd rfl (fun h => other_zero _ h HEq.rfl)
      next heq _ =>
        cases heq
        exact absurd rfl (fun h => other_ff _ h HEq.rfl)
      next heq _ =>
        cases heq
        rfl

section Loop

variable {cap : Nat} {dst part : List UInt8}

theorem written_lt_iff (fits : dst.length ≤ cap) :
    (dst ++ part.take (cap - dst.length)).length < cap ↔ dst.length + part.length < cap := by
  rw [List.length_append, List.length_take]
  omega

theorem take_piece (room : dst.length + part.length < cap) : part.take (cap - dst.length) = part :=
  List.take_of_length_le (by omega)

variable (clear : ∀ b ∈ part, b ≠ 0xff) (short : part.length < 4096) (fits : dst.length ≤ cap)
include clear short fits

/-- A turn that reads the last byte: it is written behind the piece, if there is room. -/
theorem readPacket_last (c : UInt8) (unread : List UInt8) :
    readPacket cap dst (part ++ 0xff :: 0x00 :: c :: unread) =
      if dst.length + part.length < cap then some { dst := dst ++ part ++ [c], err := none, unread } else none := by
  have room : (dst ++ part.take (cap - dst.length)).length < cap ↔ dst.length + part.length < cap :=
    written_lt_iff fits
  rw [readPacket_slice (readSlice_piece clear short _)]
  simp only [room]
  split
  next less => rw [take_piece less]
  next => rfl

/-- A turn that reads a doubled 0xff. -/
theorem readPacket_doubled (tail : List UInt8) :
    readPacket cap dst (part ++ 0xff :: 0xff :: tail) =
      if dst.length + part.length < cap then readPacket cap (dst ++ part ++ [0xff]) tail else none := by
  have room : (dst ++ part.take (cap - dst.length)).length < cap ↔ dst.length + part.length < cap :=
    written_lt_iff fits
  rw [readPacket_slice (readSlice_piece clear short _)]
  simp only [room]
  split
  next less => rw [take_piece less]
  next => rfl

theorem readPacket_stops {rest : List UInt8} (stops : ¬WritesByte rest) :
    ∃ u err, readPacket cap dst (part ++ 0xff :: rest) = some u ∧ u.err = some err ∧ u.dst.length ≤ cap := by
  have held : (dst ++ part.take (cap - dst.length)).length ≤ cap := by
    rw [List.length_append, List.length_take]
    omega
  rw [readPacket_slice (readSlice_piece clear short _)]
  dsimp only
  split
  next => exact ⟨_, _, rfl, rfl, held⟩
  next => exact ⟨_, _, rfl, rfl, held⟩
  next => exact absurd (.last _ _) stops
  next => exact absurd (.doubled _) stops
  next => exact ⟨_, _, rfl, rfl, held⟩

end Loop

/-- Data that leaves room for the last byte is read whole. -/
theorem readPacket_of_scans {cap : Nat} {dst d input unread : List UInt8} {c : UInt8}
    (scans : Scans d input (0x00 :: c :: unread)) (room : dst.length + d.length < cap) :
    readPacket cap dst input = some { dst := dst ++ d ++ [c], err := none, unread } := by
  generalize behind : 0x00 :: c :: unread = rest at scans
  induction scans generalizing dst with
  | piece clear short =>
    subst behind
    rw [readPacket_last clear short (by omega), if_pos room]
  | @doubled part d tail rest clear short more ih =>
    rw [List.length_append, List.length_cons] at room
    rw [readPacket_doubled clear short (by omega), if_pos (by omega), ih _ behind]
    · simp
    · simp only [List.length_append, List.length_singleton]
      omega

/-- Data that fills the destination ends in a write behind its end. -/
theorem readPacket_overrun {cap : Nat} {dst d input rest : List UInt8} (scans : Scans d input rest)
    (writes : WritesByte rest) (fits : dst.length ≤ cap) (full : cap ≤ dst.length + d.length) :
    readPacket cap dst input = none := by
  induction scans generalizing dst with
  | piece clear short =>
    cases writes with
    | doubled tail => rw [readPacket_doubled clear short fits, if_neg (by omega)]
    | last c tail => rw [readPacket_last clear short fits, if_neg (by omega)]
  | @doubled part d tail rest clear short more ih =>
    rw [readPacket_doubled clear short fits]
    split
    next room =>
      simp only [List.length_append, List.length_cons] at full
      apply ih writes
      · simp only [List.length_append, List.length_singleton]
        omega
      · simp only [List.length_append, List.length_singleton]
        omega
    next => rfl

/-- The three ways the loop ends. -/
theorem readPacket_cases {cap : Nat} (dst input : List UInt8) (fits : dst.length ≤ cap) :
    (∃ d c unread, Scans d input (0x00 :: c :: unread) ∧ dst.length + d.length < cap ∧
      readPacket cap dst input = some { dst := dst ++ d ++ [c], err := none, unread }) ∨
    (∃ d rest, Scans d input rest ∧ WritesByte rest ∧ cap ≤ dst.length + d.length ∧
      readPacket cap dst input = none) ∨
    ∃ u err, readPacket cap dst input = some u ∧ u.err = some err ∧ u.dst.length ≤ cap := by
  induction size : input.length using Nat.strongRecOn generalizing dst input with
  | ind n ih =>
    cases slice : readSlice input with
    | error err =>
      refine Or.inr (Or.inr ⟨{ dst, err := some err, unread := input.drop 4096 }, err, ?_, rfl, fits⟩)
      rw [readPacket]
      split
      next err' hr =>
        rw [slice] at hr
        cases hr
        rfl
      next hr =>
        rw [slice] at hr
        cases hr
    | ok pair =>
      obtain ⟨part, rest⟩ := pair
      obtain ⟨clear, short, rfl⟩ := readSlice_ok slice
      by_cases writes : WritesByte rest
      · by_cases room : dst.length + part.length < cap
        · cases writes with
          | last c unread =>
            refine Or.inl ⟨part, c, unread, .piece clear short, room, ?_⟩
            rw [readPacket_last clear short fits, if_pos room]
          | doubled tail =>
            rw [readPacket_doubled clear short fits, if_pos room]
            have length : (dst ++ part ++ [0xff]).length = dst.length + part.length + 1 := by
              rw [List.length_append, List.length_append, List.length_singleton]
            have shorter : tail.length < n := by
              rw [← size]
              simp only [List.length_append, List.length_cons]
              omega
            have held : (dst ++ part ++ [0xff]).length ≤ cap := by omega
            rcases ih tail.length shorter _ tail held rfl with
              ⟨d, c, unread, scans, less, read⟩ | ⟨d, rest, scans, writes, full, read⟩ | failed
            · refine Or.inl ⟨part ++ 0xff :: d, c, unread, .doubled clear short scans, ?_, ?_⟩
              · rw [List.length_append, List.length_cons]
                omega
              · rw [read]
                simp
            · refine Or.inr (Or.inl ⟨part ++ 0xff :: d, rest, .doubled clear short scans, writes, ?_, read⟩)
              rw [List.length_append, List.length_cons]
              omega
            · exact Or.inr (Or.inr failed)
        · have scans : Scans part (part ++ 0xff :: rest) rest := .piece clear short
          exact Or.inr (Or.inl ⟨part, rest, scans, writes, by omega, readPacket_overrun scans writes fits (by omega)⟩)
      · exact Or.inr (Or.inr (readPacket_stops clear short fits writes))

/-- The reader returns nil exactly with data that leaves room for the last byte. -/
theorem readPacket_ok_iff {cap : Nat} {dst input dst' unread : List UInt8} (fits : dst.length ≤ cap) :
    readPacket cap dst input = some { dst := dst', err := none, unread } ↔
      ∃ d c, Scans d input (0x00 :: c :: unread) ∧ dst.length + d.length < cap ∧ dst' = dst ++ d ++ [c] := by
  constructor
  · intro h
    rcases readPacket_cases dst input fits with
      ⟨d, c, _, scans, room, read⟩ | ⟨_, _, _, _, _, read⟩ | ⟨u, err, read, failed, _⟩
    · cases h.symm.trans read
      exact ⟨d, c, scans, room, rfl⟩
    · cases h.symm.trans read
    · cases h.symm.trans read
      cases failed
  · rintro ⟨d, c, scans, room, rfl⟩
    exact readPacket_of_scans scans room

theorem bufferReadPacket_eq (cap : Nat) (dst input : List UInt8) :
    bufferReadPacket cap dst input = (readPacket cap dst input).map fun u => (u.dst, u.err) := by
  fun_induction bufferReadPacket cap dst input with
  | case1 dst input err h =>
    rw [readPacket]
    split
    next hr =>
      cases h.symm.trans hr
      rfl
    next hr => cases h.symm.trans hr
  | case2 dst input part dst' h =>
    rw [readPacket_slice h]
    rfl
  | case3 dst input part dst' h =>
    rw [readPacket_slice h]
    rfl
  | case4 dst input part dst' b tail h less =>
    rw [readPacket_slice h]
    change _ = Option.map _ (if dst'.length < cap then _ else _)
    rw [if_pos less]
    rfl
  | case5 dst input part dst' b tail h full =>
    rw [readPacket_slice h]
    change _ = Option.map _ (if dst'.length < cap then _ else _)
    rw [if_neg full]
    rfl
  | case6 dst input part dst' tail h _ less _ ih =>
    rw [readPacket_slice h]
    change _ = Option.map _ (if dst'.length < cap then _ else _)
    rw [if_pos less, ih]
  | case7 dst input part dst' tail h _ full =>
    rw [readPacket_slice h]
    change _ = Option.map _ (if dst'.length < cap then _ else _)
    rw [if_neg full]
    rfl
  | case8 dst input part dst' b tail h other_zero other_ff =>
    rw [readPacket_slice h]
    dsimp only
    split
    next heq _ => cases heq
    next heq _ =>
      cases heq
      exact absurd rfl (fun e => other_zero h e HEq.rfl)
    next heq _ =>
      cases heq
      exact absurd rfl (fun e => other_zero h e HEq.rfl)
    next heq _ =>
      cases heq
      exact absurd rfl (fun e => other_ff h e HEq.rfl)
    next heq _ =>
      cases heq
      rfl

end Vender.FileUart
