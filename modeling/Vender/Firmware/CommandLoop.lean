import Vender.Firmware.Calls

namespace Vender.Firmware

theorem Puts.mode {header : Response} {data : List UInt8} {g g' : Gate} (h : Puts header data g g') :
    g'.mode = g.mode := by
  cases h <;> rfl

theorem Puts.twiIn {header : Response} {data : List UInt8} {g g' : Gate} (h : Puts header data g g') :
    g'.twiIn = g.twiIn := by
  cases h <;> rfl

theorem Aside.twiIn {g g' : Gate} (h : Aside g g') : g'.twiIn = g.twiIn :=
  h.keeps Puts.twiIn (fun _ _ => rfl) (fun _ _ => rfl)

theorem Commanded.twiIn {env : Surroundings} {c : Call} {g' : Gate} (h : Commanded env c g') :
    g'.twiIn = c.gate.twiIn := by
  cases h with
  | aside h => exact h.twiIn
  | busReset _ _ puts => exact puts.twiIn
  | started _ _ puts => exact puts.twiIn
  | refused _ _ busy puts => exact puts.twiIn.trans busy.twiIn

/-- The packet at the front of these bytes is a valid command that does not return. -/
def Halts (bs : List UInt8) : Prop :=
  let length := (bs.headD 0).toNat
  length ≤ bs.length ∧ bs.getD (length - 1) 0 = crc8P93N 0 (bs.take (length - 1)) ∧
    (Command.ofByte (bs.getD 1 0) = some .reset ∨ Command.ofByte (bs.getD 1 0) = some .flash)

/-- The bytes from offset `i` on, cut into packets: no length byte that the loop gets to is
zero or takes the offset past one byte. -/
inductive WellCut : Nat → List UInt8 → Prop
  | short {i : Nat} {bs : List UInt8} (h : bs.length < 3) : WellCut i bs
  | last {i : Nat} {length : UInt8} {bs : List UInt8} (zero : length ≠ 0) (byte : i + length.toNat < 256)
      (h : (length :: bs).length ≤ length.toNat ∨ Halts (length :: bs)) : WellCut i (length :: bs)
  | next {i : Nat} {length : UInt8} {bs : List UInt8} (zero : length ≠ 0)
      (more : length.toNat < (length :: bs).length)
      (rest : WellCut (i + length.toNat) ((length :: bs).drop length.toNat)) : WellCut i (length :: bs)

namespace Gate

theorem mdbBusReset_mode (data : List UInt8) (g : Gate) : (g.mdbBusReset data).mode = g.mode := by
  unfold mdbBusReset
  split
  · exact (masterOut1_puts ..).mode
  · split <;> exact (masterOut1_puts ..).mode

theorem mdbTransactionSimple_mode (ready : Bool) (data : List UInt8) (g : Gate) :
    (g.mdbTransactionSimple ready data).mode = g.mode := by
  unfold mdbTransactionSimple
  split
  · exact (masterOut1_puts ..).mode
  · refine (masterOut1_puts ..).mode.trans ?_
    unfold mdbStartSend
    split
    · exact (masterOut2_puts ..).mode
    · rfl

theorem dispatch_mode (ready : Bool) (header length : UInt8) (data : List UInt8) (g : Gate) :
    (g.dispatch ready header length data).mode =
      match Command.ofByte header with
      | some .reset => .softReset
      | some .flash => .stuck
      | _ => g.mode := by
  have debug : g.debugStatus.length ≤ 252 := by rw [debugStatus_length]; omega
  unfold dispatch
  cases Command.ofByte header with
  | none => exact (masterOut1_puts ..).mode
  | some command =>
    cases command with
    | poll =>
      simp only
      split
      · exact (masterOut2_puts ..).mode
      · rfl
    | config => exact (masterOut1_puts ..).mode
    | reset => rfl
    | debug => exact (masterOutN_puts .debug g debug).mode
    | flash => rfl
    | mdbBusReset => exact mdbBusReset_mode data g
    | mdbTransactionSimple => exact mdbTransactionSimple_mode ready data g
    | mdbTransactionCustom => exact (masterOut1_puts ..).mode

end Gate

namespace Call

/-- How many bytes of its data a checked command reads. -/
def dataRead (c : Call) (header length : UInt8) : Nat :=
  match Command.ofByte header with
  | some .mdbBusReset => if length - 3 ≠ 2 ∨ c.gate.mdbState ≠ .idle then 0 else 2
  | some .mdbTransactionSimple => if c.gate.mdbState ≠ .idle then 0 else (length - 3).toNat
  | _ => 0

/-- The offsets from the start of `twi_in_data` that the call reads. -/
def reads (env : Surroundings) (c : Call) : List Int :=
  let bs := fun k : Int => c.gate.peek env (c.src + k)
  if c.maxLength < 3 then []
  else
    let length := bs 0
    let offset := fun k : Nat => (c.src : Int) + k
    if length > c.maxLength then [offset 0]
    else
      let crcIn := bs ((length.toNat : Int) - 1)
      let crcLocal := crc8P93N 0 ((List.range (length - 1).toNat).map fun k : Nat => bs k)
      let checked := offset 0 :: (c.src + ((length.toNat : Int) - 1)) ::
        (List.range (length - 1).toNat).map offset
      if crcIn ≠ crcLocal then checked
      else
        checked ++ offset 1 ::
          (List.range (c.dataRead (bs 1) length)).map fun k => offset (2 + k)

/-- The packet loop ends, reads only received bytes, and its eight-bit offset does not wrap. -/
structure StaysInside (env : Surroundings) (c : Call) : Prop where
  /-- given `n` turns the loop takes fewer -/
  ends : ∃ n, (c.packetCalls env n).length < n
  inside : ∀ n, ∀ d ∈ c.packetCalls env n, ∀ o ∈ d.reads env, 0 ≤ o ∧ o < c.gate.twiIn.length
  noWrap : ∀ n, ∀ d ∈ c.packetCalls env n, d.i.toNat + (d.result env).2.toNat < 256

variable {env : Surroundings} {c : Call}

theorem result_twiIn (env : Surroundings) (c : Call) : (c.result env).1.twiIn = c.gate.twiIn :=
  (c.result_commanded env).twiIn

/-- The call stands at an offset into the received bytes that has not wrapped. -/
structure At (c : Call) : Prop where
  src : c.src = c.i.toNat
  fits : c.src ≤ c.gate.twiIn.length
  running : c.gate.mode = .running

def rest (c : Call) : List UInt8 := c.gate.twiIn.stored.drop c.src

theorem rest_length (c : Call) : c.rest.length = c.gate.twiIn.length - c.src := by
  rw [rest, List.length_drop, Buffer.stored_length]

theorem At.maxLength (h : c.At) : c.maxLength.toNat = c.rest.length := by
  have bound := c.gate.twiIn.fits
  have fits := h.fits
  have length : (UInt8.ofNat c.gate.twiIn.length).toNat = c.gate.twiIn.length := by
    rw [UInt8.toNat_ofNat']
    exact Nat.mod_eq_of_lt (by simp only [commandMaxLength] at bound; omega)
  rw [rest_length, h.src] at *
  rw [Call.maxLength, toNat_sub_of_toNat_le (by rw [length]; omega), length]

theorem peek_rest {k : Nat} (h : k < c.rest.length) :
    c.gate.peek env (c.src + k) = c.rest.getD k 0 := by
  have bound := c.gate.twiIn.fits
  rw [rest_length] at h
  have inside : (c.src : Int) + k < commandMaxLength := by
    have := c.gate.twiIn.fits
    omega
  rw [Gate.peek, dif_pos ⟨by omega, inside⟩, Buffer.read_eq_getD]
  have offset : ((c.src : Int) + k).toNat = c.src + k := by omega
  rw [offset, rest, Buffer.stored, List.getD_eq_getElem?_getD, List.getD_eq_getElem?_getD,
    List.getElem?_drop, List.getElem?_take_of_lt (by omega)]

theorem map_peek_rest {n : Nat} (h : n ≤ c.rest.length) :
    ((List.range n).map fun k : Nat => c.gate.peek env (c.src + k)) = c.rest.take n := by
  apply List.ext_getElem
  · simp [h]
  · intro k hk _
    rw [List.length_map, List.length_range] at hk
    rw [List.getElem_map, List.getElem_range, peek_rest (by omega), List.getElem_take,
      List.getD_eq_getElem?_getD, List.getElem?_eq_getElem (by omega), Option.getD_some]

theorem result_short (h : c.maxLength < 3) : (c.result env).2 = c.maxLength := by
  unfold result Gate.masterCommand
  simp [h]

theorem result_consumed (h : ¬ c.maxLength < 3) : (c.result env).2 = c.gate.peek env c.src := by
  unfold result Gate.masterCommand
  simp only [h, ↓reduceIte, Int.add_zero]
  split
  · rfl
  · split <;> rfl

theorem At.not_short (h : c.At) (enough : 3 ≤ c.rest.length) : ¬ c.maxLength < 3 := by
  rw [UInt8.lt_iff_toNat_lt, h.maxLength]
  change ¬ c.rest.length < 3
  omega

theorem peek_src (enough : 0 < c.rest.length) : c.gate.peek env c.src = c.rest.headD 0 := by
  have first : c.gate.peek env (c.src + (0 : Nat)) = c.rest.getD 0 0 := peek_rest enough
  rw [Int.natCast_zero, Int.add_zero] at first
  rw [first]
  cases c.rest <;> rfl

/-- The checksum that the call computes and the one it finds, for a length byte in range. -/
theorem crc_rest {length : UInt8} (zero : length ≠ 0) (fits : length.toNat ≤ c.rest.length) :
    c.gate.peek env (c.src + ((length.toNat : Int) - 1)) = c.rest.getD (length.toNat - 1) 0 ∧
      crc8P93N 0 ((List.range (length - 1).toNat).map fun k : Nat => c.gate.peek env (c.src + k)) =
        crc8P93N 0 (c.rest.take (length.toNat - 1)) := by
  have pos : 0 < length.toNat := UInt8.lt_iff_toNat_lt.mp (UInt8.pos_iff_ne_zero.mpr zero)
  have pred : (length - 1).toNat = length.toNat - 1 := toNat_sub_of_toNat_le pos
  have offset : (c.src : Int) + ((length.toNat : Int) - 1) = c.src + ((length.toNat - 1 : Nat) : Int) := by
    omega
  rw [offset, peek_rest (by omega), pred, map_peek_rest (by omega)]
  exact ⟨rfl, rfl⟩

theorem At.halts_iff (h : c.At) (enough : 3 ≤ c.rest.length) (zero : c.rest.headD 0 ≠ 0) :
    (c.result env).1.mode ≠ .running ↔ Halts c.rest := by
  have first : c.gate.peek env c.src = c.rest.headD 0 := peek_src (by omega)
  have header : c.gate.peek env ((c.src : Int) + 1) = c.rest.getD 1 0 := peek_rest (k := 1) (by omega)
  have max := h.maxLength
  unfold result Gate.masterCommand Halts
  simp only [h.not_short enough, ↓reduceIte, Int.add_zero, first]
  split
  next big =>
    have out : c.rest.length < (c.rest.headD 0).toNat := max ▸ UInt8.lt_iff_toNat_lt.mp big
    rw [(Gate.masterOut2_puts ..).mode]
    simp only [h.running, ne_eq, not_true_eq_false, false_iff]
    omega
  next small =>
    have fits : (c.rest.headD 0).toNat ≤ c.rest.length :=
      max ▸ UInt8.le_iff_toNat_le.mp (UInt8.not_lt.mp small)
    obtain ⟨crcIn, crcLocal⟩ := @crc_rest env c _ zero fits
    rw [crcIn, crcLocal]
    split
    next corrupt =>
      rw [(Gate.masterOut2_puts ..).mode]
      simp only [h.running, ne_eq, not_true_eq_false, false_iff]
      exact fun halts => corrupt halts.2.1
    next valid =>
      rw [Gate.dispatch_mode, header, h.running]
      have checked := not_not.mp valid
      simp only [fits, checked, true_and]
      cases Command.ofByte (c.rest.getD 1 0) with
      | none => simp
      | some command => cases command <;> simp

/-- A packet of two bytes is no command: its header is the checksum of its length. -/
theorem crc_not_short : Command.ofByte (crc8P93N 0 [2]) = none ∧ (crc8P93N 0 [] : UInt8) ≠ 1 := by
  decide

/-- Only the data that is read makes a difference to the command. -/
theorem dispatch_congr {ready : Bool} {header length : UInt8} {data data' : List UInt8}
    (size : data.length = (length - 3).toNat) (size' : data'.length = (length - 3).toNat)
    (same : data.take (c.dataRead header length) = data'.take (c.dataRead header length)) :
    c.gate.dispatch ready header length data = c.gate.dispatch ready header length data' := by
  unfold Gate.dispatch
  unfold dataRead at same
  cases known : Command.ofByte header with
  | none => rfl
  | some command =>
    simp only [known] at same
    cases command with
    | mdbBusReset =>
      simp only at same ⊢
      by_cases two : length - 3 = 2
      · by_cases idle : c.gate.mdbState = .idle
        · have whole : data = data' := by
            rw [two] at size size'
            change data.length = 2 at size
            change data'.length = 2 at size'
            simp only [two, idle, ne_eq, not_true_eq_false, or_self, ↓reduceIte] at same
            rwa [← size, List.take_length, size, ← size', List.take_length] at same
          rw [whole]
        · simp [Gate.mdbBusReset, size, size', idle]
      · have other : (length - 3).toNat ≠ 2 := fun h => two (UInt8.toNat_inj.mp h)
        simp [Gate.mdbBusReset, size, size', other]
    | mdbTransactionSimple =>
      simp only at same ⊢
      by_cases idle : c.gate.mdbState = .idle
      · have whole : data = data' := by
          simp only [idle, ne_eq, not_true_eq_false, ↓reduceIte] at same
          rwa [List.take_of_length_le (Nat.le_of_eq size),
            List.take_of_length_le (Nat.le_of_eq size')] at same
        rw [whole]
      · simp [Gate.mdbTransactionSimple, idle]
    | _ => rfl

/-- The memory at the offsets in `reads` is all that the call depends on. -/
theorem result_congr {env' : Surroundings} (ready : env.sendReady c.src = env'.sendReady c.src)
    (same : ∀ o ∈ c.reads env, env.memory o = env'.memory o) : c.result env = c.result env' := by
  have peek : ∀ o ∈ c.reads env, c.gate.peek env o = c.gate.peek env' o := by
    intro o ho
    unfold Gate.peek
    rw [same o ho]
  unfold result Gate.masterCommand
  unfold reads at peek
  by_cases short : c.maxLength < 3
  · simp only [short, ↓reduceIte]
  · simp only [short, ↓reduceIte] at peek ⊢
    have first : c.gate.peek env (c.src + 0) = c.gate.peek env' (c.src + 0) := by
      apply peek
      split
      · exact List.mem_cons_self
      · split <;> exact List.mem_cons_self
    rw [← first]
    split
    next => rfl
    next small =>
      simp only [small, ↓reduceIte] at peek
      generalize c.gate.peek env (c.src + 0) = length at peek
      have last : c.gate.peek env (c.src + ((length.toNat : Int) - 1)) =
          c.gate.peek env' (c.src + ((length.toNat : Int) - 1)) := by
        apply peek
        split <;> simp
      have summed : ((List.range (length - 1).toNat).map fun k : Nat => c.gate.peek env (c.src + k)) =
          (List.range (length - 1).toNat).map fun k : Nat => c.gate.peek env' (c.src + k) := by
        apply List.map_congr_left
        intro k hk
        have inRange := List.mem_cons_of_mem ((c.src : Int) + (0 : Nat)) <| List.mem_cons_of_mem
          ((c.src : Int) + ((length.toNat : Int) - 1)) <|
            List.mem_map_of_mem (f := fun k : Nat => (c.src : Int) + k) hk
        apply peek
        split
        · exact inRange
        · exact List.mem_append_left _ inRange
      rw [← last, ← summed]
      split
      next => rfl
      next valid =>
        simp only [valid, ↓reduceIte] at peek
        have header : c.gate.peek env (c.src + 1) = c.gate.peek env' (c.src + 1) := by
          apply peek
          simp
        have data : ∀ k < c.dataRead (c.gate.peek env (c.src + 1)) length,
            c.gate.peek env (c.src + (2 + k)) = c.gate.peek env' (c.src + (2 + k)) := by
          intro k hk
          apply peek
          refine List.mem_append_right _ (List.mem_cons_of_mem _ ?_)
          exact List.mem_map.mpr ⟨k, List.mem_range.mpr hk, by simp⟩
        rw [← ready, ← header]
        refine congrArg (·, length) (c.dispatch_congr (by simp) (by simp) ?_)
        rw [← List.map_take, ← List.map_take, List.take_range]
        apply List.map_congr_left
        intro k hk
        exact data k (by rw [List.mem_range] at hk; omega)

/-- A checked packet with a command that has data is at least three bytes long. -/
theorem command_length {bs : List UInt8} (enough : 3 ≤ bs.length) (zero : bs.headD 0 ≠ 0)
    (checked : bs.getD ((bs.headD 0).toNat - 1) 0 = crc8P93N 0 (bs.take ((bs.headD 0).toNat - 1)))
    {command : Command} (header : Command.ofByte (bs.getD 1 0) = some command) :
    3 ≤ (bs.headD 0).toNat := by
  obtain ⟨two, one⟩ := crc_not_short
  match bs, enough with
  | length :: header' :: bs, _ =>
    simp only [List.headD_cons] at zero checked header ⊢
    by_contra short
    have pos : 0 < length.toNat := UInt8.lt_iff_toNat_lt.mp (UInt8.pos_iff_ne_zero.mpr zero)
    have cases : length = 1 ∨ length = 2 := by
      rw [← UInt8.toNat_inj, ← UInt8.toNat_inj]
      change _ = 1 ∨ _ = 2
      omega
    rcases cases with rfl | rfl
    · exact one checked.symm
    · have header'' : header' = crc8P93N 0 [2] := checked
      have known : Command.ofByte header' = some command := header
      rw [header'', two] at known
      cases known

theorem dataRead_pos {header length : UInt8} (h : 0 < c.dataRead header length) :
    c.dataRead header length ≤ (length - 3).toNat ∧
      ∃ command, Command.ofByte header = some command := by
  unfold dataRead at h ⊢
  cases known : Command.ofByte header with
  | none => simp [known] at h
  | some command =>
    refine ⟨?_, command, rfl⟩
    cases command with
    | mdbBusReset =>
      simp only
      split
      next => exact Nat.zero_le _
      next started =>
        have two : length - 3 = 2 := not_not.mp (not_or.mp started).1
        rw [two]
        exact Nat.le_refl 2
    | mdbTransactionSimple => simp only; split <;> omega
    | _ => exact Nat.zero_le _

theorem At.reads_inside (h : c.At) (zero : 3 ≤ c.rest.length → c.rest.headD 0 ≠ 0) :
    ∀ o ∈ c.reads env, 0 ≤ o ∧ o < c.gate.twiIn.length := by
  have length := c.rest_length
  have offset : ∀ k : Nat, k < c.rest.length → 0 ≤ (c.src : Int) + k ∧ (c.src : Int) + k < c.gate.twiIn.length := by
    intro k hk
    omega
  have max := h.maxLength
  unfold reads
  by_cases short : c.maxLength < 3
  · simp [short]
  · have enough : 3 ≤ c.rest.length := by
      have := UInt8.le_iff_toNat_le.mp (UInt8.not_lt.mp short)
      rw [max] at this
      exact this
    have pos := zero enough
    have first : c.gate.peek env c.src = c.rest.headD 0 := peek_src (by omega)
    have header : c.gate.peek env ((c.src : Int) + 1) = c.rest.getD 1 0 := peek_rest (k := 1) (by omega)
    simp only [short, ↓reduceIte, Int.add_zero, first]
    split
    next big => simpa using offset 0 (by omega)
    next small =>
      have fits : (c.rest.headD 0).toNat ≤ c.rest.length :=
        max ▸ UInt8.le_iff_toNat_le.mp (UInt8.not_lt.mp small)
      have some_byte : 0 < (c.rest.headD 0).toNat :=
        UInt8.lt_iff_toNat_lt.mp (UInt8.pos_iff_ne_zero.mpr pos)
      have pred : (c.rest.headD 0 - 1).toNat = (c.rest.headD 0).toNat - 1 := toNat_sub_of_toNat_le some_byte
      obtain ⟨crcIn, crcLocal⟩ := @crc_rest env c _ pos fits
      rw [crcIn, crcLocal, header, pred]
      have summed : ∀ o ∈ ((c.src : Int) + (0 : Nat)) :: (c.src + (((c.rest.headD 0).toNat : Int) - 1)) ::
          (List.range ((c.rest.headD 0).toNat - 1)).map (fun k : Nat => (c.src : Int) + k),
          0 ≤ o ∧ o < c.gate.twiIn.length := by
        simp only [List.forall_mem_cons, List.forall_mem_map, List.mem_range]
        refine ⟨offset 0 (by omega), by omega, fun k hk => offset k (by omega)⟩
      split
      next => exact summed
      next valid =>
        have checked := not_not.mp valid
        refine List.forall_mem_append.mpr ⟨summed, List.forall_mem_cons.mpr ⟨offset 1 (by omega), ?_⟩⟩
        simp only [List.forall_mem_map, List.mem_range]
        intro k hk
        obtain ⟨less, command, known⟩ := dataRead_pos (Nat.zero_lt_of_lt hk)
        have long := command_length enough pos checked known
        have minus : (c.rest.headD 0 - 3).toNat = (c.rest.headD 0).toNat - 3 := toNat_sub_of_toNat_le long
        exact offset (2 + k) (by omega)

/-- A length byte of zero makes the checksum run over 255 bytes. -/
theorem At.reads_outside (h : c.At) (enough : 3 ≤ c.rest.length) (zero : c.rest.headD 0 = 0) :
    ∃ o ∈ c.reads env, (c.gate.twiIn.length : Int) ≤ o := by
  have bound := c.gate.twiIn.fits
  have length := c.rest_length
  have first : c.gate.peek env c.src = c.rest.headD 0 := peek_src (by omega)
  have past : (c.src : Int) + (c.rest.length : Nat) ∈ (List.range ((0 : UInt8) - 1).toNat).map
      (fun k : Nat => (c.src : Int) + k) := by
    refine List.mem_map.mpr ⟨c.rest.length, List.mem_range.mpr ?_, rfl⟩
    change _ < 255
    simp only [commandMaxLength] at bound
    omega
  refine ⟨c.src + (c.rest.length : Nat), ?_, by omega⟩
  have small : ¬ (0 : UInt8) > c.maxLength := UInt8.not_lt_zero
  unfold reads
  simp only [h.not_short enough, ↓reduceIte, Int.add_zero, first, zero, small]
  split
  · exact List.mem_cons_of_mem _ (List.mem_cons_of_mem _ past)
  · exact List.mem_append_left _ (List.mem_cons_of_mem _ (List.mem_cons_of_mem _ past))

theorem staysInside_of_last (last : c.Last env)
    (inside : ∀ o ∈ c.reads env, 0 ≤ o ∧ o < c.gate.twiIn.length)
    (noWrap : c.i.toNat + (c.result env).2.toNat < 256) : c.StaysInside env := by
  have only : ∀ n, ∀ d ∈ c.packetCalls env n, d = c := by
    intro n d hd
    cases n with
    | zero => simp [packetCalls] at hd
    | succ n => simpa [packetCalls, last] using hd
  refine ⟨⟨2, by simp [packetCalls, last]⟩, fun n d hd => ?_, fun n d hd => ?_⟩
  · rw [only n d hd]
    exact inside
  · rw [only n d hd]
    exact noWrap

/-- A call that is not the last stays inside with all calls that follow it. -/
theorem staysInside_iff_next (more : ¬ c.Last env) :
    c.StaysInside env ↔ (∀ o ∈ c.reads env, 0 ≤ o ∧ o < c.gate.twiIn.length) ∧
      c.i.toNat + (c.result env).2.toNat < 256 ∧ (c.next env).StaysInside env := by
  have unfolded : ∀ n, c.packetCalls env (n + 1) = c :: (c.next env).packetCalls env n := by
    intro n
    simp [packetCalls, more]
  have same : (c.next env).gate.twiIn = c.gate.twiIn := result_twiIn env c
  constructor
  · rintro ⟨⟨n, ends⟩, inside, noWrap⟩
    refine ⟨inside 1 c (by simp [packetCalls]), noWrap 1 c (by simp [packetCalls]), ?_, ?_, ?_⟩
    · cases n with
      | zero => exact absurd ends (Nat.not_lt_zero _)
      | succ n =>
        rw [unfolded, List.length_cons] at ends
        exact ⟨n, by omega⟩
    · intro n d hd
      rw [same]
      exact inside (n + 1) d (unfolded n ▸ List.mem_cons_of_mem c hd)
    · exact fun n d hd => noWrap (n + 1) d (unfolded n ▸ List.mem_cons_of_mem c hd)
  · rintro ⟨inside, noWrap, ⟨n, ends⟩, insideNext, noWrapNext⟩
    refine ⟨⟨n + 1, ?_⟩, fun m d hd => ?_, fun m d hd => ?_⟩
    · rw [unfolded, List.length_cons]
      omega
    · cases m with
      | zero => simp [packetCalls] at hd
      | succ m =>
        rw [unfolded] at hd
        rcases List.mem_cons.mp hd with rfl | hd
        · exact inside
        · exact same ▸ insideNext m d hd
    · cases m with
      | zero => simp [packetCalls] at hd
      | succ m =>
        rw [unfolded] at hd
        rcases List.mem_cons.mp hd with rfl | hd
        · exact noWrap
        · exact noWrapNext m d hd

/-- A loop that stays inside returns with the result of its last call. -/
theorem StaysInside.returns (h : c.StaysInside env) :
    ∃ n d, (c.packetCalls env n).getLast? = some d ∧ c.gate.packetLoop env n c.i c.src = (d.result env).1 := by
  obtain ⟨n, ends⟩ := h.ends
  have some_call : c.packetCalls env n ≠ [] := by
    obtain ⟨turns, rfl⟩ : ∃ m, n = m + 1 := ⟨n - 1, by omega⟩
    simp [packetCalls]
  have found := List.getLast?_eq_some_getLast some_call
  exact ⟨n, _, found, (packetLoop_last found).trans (if_pos (last_of_length_lt ends found))⟩

theorem At.consumed (h : c.At) (enough : 3 ≤ c.rest.length) : (c.result env).2 = c.rest.headD 0 := by
  rw [result_consumed (h.not_short enough), peek_src (by omega)]

theorem At.length_toNat (h : c.At) : (UInt8.ofNat c.gate.twiIn.length).toNat = c.src + c.rest.length := by
  have bound := c.gate.twiIn.fits
  have fits := h.fits
  simp only [commandMaxLength] at bound
  rw [UInt8.toNat_ofNat', rest_length, Nat.mod_eq_of_lt (by omega)]
  omega

theorem At.last_of_short (h : c.At) (short : c.rest.length < 3) :
    c.Last env ∧ c.i.toNat + (c.result env).2.toNat < 256 := by
  have bound := c.gate.twiIn.fits
  have fits := h.fits
  have src := h.src
  have length := c.rest_length
  have max := h.maxLength
  have consumed : (c.result env).2 = c.maxLength :=
    result_short (UInt8.lt_iff_toNat_lt.mpr (by rw [max]; exact short))
  simp only [commandMaxLength] at bound
  have noWrap : c.i.toNat + (c.result env).2.toNat < 256 := by
    rw [consumed, max]
    omega
  refine ⟨Or.inr (Or.inr ?_), noWrap⟩
  rw [UInt8.le_iff_toNat_le, h.length_toNat, UInt8.toNat_add, Nat.mod_eq_of_lt noWrap, consumed, max]
  omega

theorem At.last_iff (h : c.At) (enough : 3 ≤ c.rest.length) (zero : c.rest.headD 0 ≠ 0)
    (noWrap : c.src + (c.rest.headD 0).toNat < 256) :
    c.Last env ↔ c.rest.length ≤ (c.rest.headD 0).toNat ∨ Halts c.rest := by
  have stop : UInt8.ofNat c.gate.twiIn.length ≤ c.i + c.rest.headD 0 ↔
      c.rest.length ≤ (c.rest.headD 0).toNat := by
    rw [h.src] at noWrap
    rw [UInt8.le_iff_toNat_le, h.length_toNat, UInt8.toNat_add, Nat.mod_eq_of_lt noWrap, h.src]
    omega
  unfold Last
  rw [h.halts_iff enough zero, h.consumed enough, stop]
  simp only [zero, false_or]
  exact or_comm

theorem At.next (h : c.At) (enough : 3 ≤ c.rest.length) (zero : c.rest.headD 0 ≠ 0)
    (noWrap : c.src + (c.rest.headD 0).toNat < 256) (more : ¬ c.Last env) :
    (c.next env).At ∧ (c.next env).src = c.src + (c.rest.headD 0).toNat ∧
      (c.next env).rest = c.rest.drop (c.rest.headD 0).toNat := by
  have consumed : (c.result env).2 = c.rest.headD 0 := h.consumed enough
  have same : (c.next env).gate.twiIn = c.gate.twiIn := result_twiIn env c
  have before : ¬ c.rest.length ≤ (c.rest.headD 0).toNat :=
    fun past => more ((h.last_iff enough zero noWrap).mpr (Or.inl past))
  have length := c.rest_length
  have fits := h.fits
  have src : (c.next env).src = c.src + (c.rest.headD 0).toNat := by
    unfold Call.next
    rw [consumed]
  refine ⟨⟨?_, ?_, not_not.mp fun mode => more (Or.inl mode)⟩, src, ?_⟩
  · rw [src]
    unfold Call.next
    rw [h.src] at noWrap
    rw [consumed, UInt8.toNat_add, Nat.mod_eq_of_lt noWrap, h.src]
  · rw [src, same]
    omega
  · rw [Call.rest, src, same, Call.rest, List.drop_drop]

theorem At.staysInside_of_short (h : c.At) (short : c.rest.length < 3) : c.StaysInside env := by
  obtain ⟨last, noWrap⟩ := @At.last_of_short env c h short
  exact staysInside_of_last last (h.reads_inside fun enough => by omega) noWrap

theorem staysInside_of_wellCut {i : Nat} {bs : List UInt8} (cut : WellCut i bs) (h : c.At)
    (hi : c.src = i) (hb : c.rest = bs) : c.StaysInside env := by
  induction cut generalizing c with
  | short short => exact h.staysInside_of_short (hb ▸ short)
  | @last i length bs zero byte stop =>
    by_cases enough : 3 ≤ c.rest.length
    · have head : c.rest.headD 0 = length := by rw [hb, List.headD_cons]
      rw [← hb] at stop
      rw [← head] at zero byte stop
      rw [← hi] at byte
      have last := (@At.last_iff env c h enough zero byte).mpr stop
      refine staysInside_of_last last (h.reads_inside fun _ => zero) ?_
      rw [h.consumed enough, ← h.src]
      exact byte
    · exact h.staysInside_of_short (by omega)
  | @next i length bs zero more rest ih =>
    by_cases enough : 3 ≤ c.rest.length
    · have head : c.rest.headD 0 = length := by rw [hb, List.headD_cons]
      have bound := c.gate.twiIn.fits
      have total := c.rest_length
      simp only [commandMaxLength] at bound
      rw [← head] at zero
      rw [← hb, ← head] at more
      have byte : c.src + (c.rest.headD 0).toNat < 256 := by omega
      have noWrap : c.i.toNat + (c.result env).2.toNat < 256 := by
        rw [h.consumed enough, ← h.src]
        exact byte
      have inside := @At.reads_inside env c h fun _ => zero
      by_cases last : c.Last env
      · exact staysInside_of_last last inside noWrap
      · obtain ⟨at', src, dropped⟩ := h.next enough zero byte last
        refine (staysInside_iff_next last).mpr ⟨inside, noWrap, ih at' ?_ ?_⟩
        · rw [src, hi, head]
        · rw [dropped, hb, List.headD_cons]
    · exact h.staysInside_of_short (by omega)

theorem wellCut_of_staysInside (h : c.At) (inside : c.StaysInside env) : WellCut c.src c.rest := by
  induction size : c.rest.length using Nat.strongRecOn generalizing c with
  | ind n ih =>
    by_cases enough : 3 ≤ c.rest.length
    · have zero : c.rest.headD 0 ≠ 0 := by
        intro zero
        obtain ⟨o, read, out⟩ := @At.reads_outside env c h enough zero
        have within := inside.inside 1 c (by simp [packetCalls]) o read
        omega
      have byte : c.src + (c.rest.headD 0).toNat < 256 := by
        have noWrap := inside.noWrap 1 c (by simp [packetCalls])
        rwa [h.consumed enough, ← h.src] at noWrap
      have split : c.rest = c.rest.headD 0 :: c.rest.tail := by
        cases hr : c.rest with
        | nil => simp [hr] at enough
        | cons => rfl
      by_cases last : c.Last env
      · have stop := (h.last_iff enough zero byte).mp last
        rw [split] at stop ⊢
        exact .last zero byte stop
      · obtain ⟨_, _, after⟩ := (staysInside_iff_next last).mp inside
        obtain ⟨at', src, dropped⟩ := h.next enough zero byte last
        have more : (c.rest.headD 0).toNat < c.rest.length := by
          by_contra past
          exact last ((h.last_iff enough zero byte).mpr (Or.inl (Nat.not_lt.mp past)))
        have pos : 0 < (c.rest.headD 0).toNat :=
          UInt8.lt_iff_toNat_lt.mp (UInt8.pos_iff_ne_zero.mpr zero)
        have rest := ih _ (by rw [dropped, List.length_drop]; omega) at' after rfl
        rw [src, dropped] at rest
        rw [split] at more rest ⊢
        exact .next zero more rest
    · exact .short (by omega)

end Call

def received (frame : List UInt8) : Gate :=
  frame.foldl (fun g b => g.twiVect .srDataAck b) (.boot 1 ⟨[], [], []⟩)

/-- The packet loop of `twi_step` stays inside the frame that was received exactly when the
frame is well cut. -/
theorem commandLoop_staysInside_iff (env : Surroundings) (g : Gate) (running : g.mode = .running) :
    Call.StaysInside env ⟨g, 0, 0⟩ ↔ WellCut 0 g.twiIn.stored := by
  have start : Call.At ⟨g, 0, 0⟩ := ⟨rfl, Nat.zero_le _, running⟩
  exact ⟨fun inside => Call.wellCut_of_staysInside start inside,
    fun cut => Call.staysInside_of_wellCut cut start rfl rfl⟩

theorem commandLoop_staysInside_poll :
    Call.StaysInside ⟨fun _ => 0xff, fun _ => true, 100⟩ ⟨received [3, 1, 0xc8], 0, 0⟩ := by
  have stored : (received [3, 1, 0xc8]).twiIn.stored = [3, 1, 0xc8] := by decide
  refine (commandLoop_staysInside_iff _ _ rfl).mpr ?_
  rw [stored]
  exact .last (by decide) (by decide) (Or.inl (by decide))

/-- A length byte of zero: the checksum is looked for in front of the buffer. -/
theorem zeroLength_reads_outside :
    ¬ Call.StaysInside ⟨fun _ => 0, fun _ => true, 100⟩ ⟨received [0, 1, 2], 0, 0⟩ := by
  intro inside
  have first := inside.inside 1 ⟨received [0, 1, 2], 0, 0⟩ (by simp [Call.packetCalls])
  have within := first (-1) (by decide +kernel)
  omega

end Vender.Firmware
