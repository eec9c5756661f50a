import Vender.Firmware.Armed
import Vender.Firmware.CommandLoop

namespace Vender.Firmware

/-- Bytes as they go out, the ninth bit set on the first one alone. -/
def addressed : List UInt8 → List (UInt8 × Bool)
  | [] => []
  | b :: bs => (b, true) :: bs.map (·, false)

/-- What a transaction is to put on the line. -/
def block (data : List UInt8) : List (UInt8 × Bool) := addressed (data ++ [Gate.memsum data])

@[simp] theorem addressed_length (out : List UInt8) : (addressed out).length = out.length := by
  cases out <;> simp [addressed]

theorem block_length (data : List UInt8) : (block data).length = data.length + 1 := by
  simp [block]

theorem addressed_take_succ {out : List UInt8} {n : Nat} (first : 1 ≤ n) (more : n < out.length) :
    (addressed out).take (n + 1) = (addressed out).take n ++ [(out.getD n 0, false)] := by
  match out, n, first, more with
  | b :: bs, n + 1, _, more =>
    rw [List.length_cons] at more
    have inside : n < (bs.map fun b => (b, false)).length := by
      rw [List.length_map]
      omega
    have entry : bs[n]? = some bs[n] := List.getElem?_eq_getElem (by omega)
    simp only [addressed, List.take_succ_cons, List.cons_append, List.getD_cons_succ]
    rw [List.take_succ_eq_append_getElem inside, List.getElem_map, List.getD_eq_getElem?_getD, entry]
    rfl

/-- What can come while a block is sent: the steps of the firmware, up to the end of the
transmission and without the receiver, the timer and a reset, and further calls of
`master_command` by the packet loop that the transaction came in. -/
inductive Meanwhile
  | event (e : Event)
  | call (env : Surroundings) (i : UInt8) (src : Nat)

def Meanwhile.step (g : Gate) : Meanwhile → Option Gate
  | .event (.usartRx ..) => none
  | .event .usartTx => none
  | .event .timer0Ovf => none
  | .event .watchdog => none
  | .event e => Firmware.step g e
  | .call env i src => if g.mode = .running then some (Call.result env ⟨g, i, src⟩).1 else none

/-- From the command on, the bytes written to `UDR0` are those of its block, the engine goes
on with them, and they are complete when the transmission is. -/
def Call.Sends (env : Surroundings) (c : Call) : Prop :=
  ∀ ms g, Runs.run Meanwhile.step (c.result env).1 ms = some g →
    g.mdbFastErrorCode = none ∧ (g.udrie0 = true ∨ g.txcie0 = true) ∧
    (∃ written, g.history.sent = c.gate.history.sent ++ written ∧ written <+: block (c.data env)) ∧
    ∀ g', step g .usartTx = some g' → g'.history.sent = c.gate.history.sent ++ block (c.data env)

/-- The command is answered with an error, and no byte is written to `UDR0`. -/
def Call.Refuses (env : Surroundings) (c : Call) : Prop :=
  (∃ r ∈ (c.result env).1.history.emitted.drop c.gate.history.emitted.length, r.1.terminal = true) ∧
  ∀ ms g, Runs.run Meanwhile.step (c.result env).1 ms = some g → g.history.sent = c.gate.history.sent

namespace Gate

/-- What has to do with the transmission. -/
def sender (g : Gate) :=
  (g.mdbState, g.mdbFastErrorCode, g.txb80, g.udrie0, g.txcie0, g.mdbOut, g.history.sent)

theorem twiVect_sender (st : TwStatus) (data : UInt8) (g : Gate) : (g.twiVect st data).sender = g.sender :=
  twiVect_keeps (fun _ _ _ _ _ _ => rfl) st data

end Gate

theorem Puts.sender {header : Response} {data : List UInt8} {g g' : Gate} (h : Puts header data g g') :
    g'.sender = g.sender := by
  cases h <;> rfl

theorem Commanded.sender {env : Surroundings} {c : Call} {g' : Gate} (h : Commanded env c g')
    (busy : c.gate.mdbState ≠ .idle) : g'.sender = c.gate.sender :=
  h.keeps busy Puts.sender (fun _ _ => rfl) (fun _ _ => rfl)

theorem Gate.twiStep_sender {env : Surroundings} {g : Gate} (busy : g.mdbState ≠ .idle) :
    (g.twiStep env).sender = g.sender :=
  twiStep_keeps busy Puts.sender (fun _ _ => rfl) (fun _ _ => rfl) (fun _ => rfl) (fun _ _ _ => rfl)

/-- The engine sends the bytes `out`, and has written as many as `mdb_out` has used. -/
structure Sending (before : List (UInt8 × Bool)) (out : List UInt8) (g : Gate) : Prop where
  state : g.mdbState = .send
  clean : g.mdbFastErrorCode = none
  txb80 : g.txb80 = false
  stored : g.mdbOut.stored = out
  begun : 1 ≤ g.mdbOut.used
  within : g.mdbOut.used ≤ out.length
  sent : g.history.sent = before ++ (addressed out).take g.mdbOut.used
  udrie0 : g.udrie0 = true ↔ g.mdbOut.used < out.length
  txcie0 : g.txcie0 = true ↔ g.mdbOut.used = out.length

namespace Sending

variable {before : List (UInt8 × Bool)} {out : List UInt8} {g g' : Gate}

theorem congr (h : Sending before out g) (same : g'.sender = g.sender) : Sending before out g' := by
  simp only [Gate.sender, Prod.mk.injEq] at same
  obtain ⟨state, code, txb80, udrie0, txcie0, mdbOut, sent⟩ := same
  constructor
  · rw [state, h.state]
  · rw [code, h.clean]
  · rw [txb80, h.txb80]
  · rw [mdbOut, h.stored]
  · rw [mdbOut]
    exact h.begun
  · rw [mdbOut]
    exact h.within
  · rw [sent, mdbOut, h.sent]
  · rw [udrie0, mdbOut, h.udrie0]
  · rw [txcie0, mdbOut, h.txcie0]

theorem length (h : Sending before out g) : g.mdbOut.length = out.length := by
  rw [← h.stored, Buffer.stored_length]

theorem busy (h : Sending before out g) : g.mdbState ≠ .idle := by
  rw [h.state]
  simp

theorem udre (h : Sending before out g) (enabled : g.udrie0 = true) : Sending before out g.usartUdre := by
  have more : g.mdbOut.used < out.length := h.udrie0.mp enabled
  have length := h.length
  have begun := h.begun
  have room : ¬ g.timer0Stop.mdbOut.used ≥ g.timer0Stop.mdbOut.length := by
    change ¬ g.mdbOut.length ≤ g.mdbOut.used
    omega
  have byte : g.mdbOut.read g.mdbOut.used (g.mdbOut.lt_size_of_lt_length (by omega)) = out.getD g.mdbOut.used 0 := by
    rw [Buffer.read_eq_getD, ← h.stored, Buffer.stored, List.getD_eq_getElem?_getD, List.getD_eq_getElem?_getD,
      List.getElem?_take_of_lt (by omega)]
  have off : g.txcie0 = false := by
    by_contra on
    have last := h.txcie0.mp (by simpa using on)
    omega
  have sent : g.history.sent ++
      [(g.mdbOut.read g.mdbOut.used (g.mdbOut.lt_size_of_lt_length (by omega)), g.txb80)] =
      before ++ (addressed out).take (g.mdbOut.used + 1) := by
    rw [addressed_take_succ begun more, ← List.append_assoc, ← h.sent, byte, h.txb80]
  unfold Gate.usartUdre
  simp only [dif_neg room]
  by_cases last : g.mdbOut.used + 1 = g.mdbOut.length
  · rw [if_pos (show g.timer0Stop.mdbOut.used + 1 = g.timer0Stop.mdbOut.length from last)]
    refine ⟨h.state, h.clean, h.txb80, h.stored, Nat.le_add_left .., ?_, sent, ?_, ?_⟩
    · change g.mdbOut.used + 1 ≤ out.length
      omega
    · change false = true ↔ g.mdbOut.used + 1 < out.length
      simp
      omega
    · change true = true ↔ g.mdbOut.used + 1 = out.length
      simp
      omega
  · rw [if_neg (show ¬ g.timer0Stop.mdbOut.used + 1 = g.timer0Stop.mdbOut.length from last)]
    refine ⟨h.state, h.clean, h.txb80, h.stored, Nat.le_add_left .., ?_, sent, ?_, ?_⟩
    · change g.mdbOut.used + 1 ≤ out.length
      omega
    · change g.udrie0 = true ↔ g.mdbOut.used + 1 < out.length
      rw [enabled]
      simp
      omega
    · change g.txcie0 = true ↔ g.mdbOut.used + 1 = out.length
      rw [off]
      simp
      omega

theorem step {m : Meanwhile} (taken : m.step g = some g') (h : Sending before out g) :
    Sending before out g' := by
  cases m with
  | call env i src =>
    obtain ⟨_, rfl⟩ := enabled_step taken
    exact h.congr ((Call.result_commanded env ⟨g, i, src⟩).sender h.busy)
  | event e =>
    cases e with
    | usartRx | usartTx | timer0Ovf | watchdog => cases taken
    | twiStep env =>
      obtain ⟨_, rfl⟩ := enabled_step taken
      exact h.congr (Gate.twiStep_sender h.busy)
    | mdbStep =>
      obtain ⟨_, rfl⟩ := enabled_step taken
      have waits : g.mdbStep = g := by
        unfold Gate.mdbStep
        simp [h.clean, h.state]
      rw [waits]
      exact h
    | usartUdre =>
      obtain ⟨⟨_, enabled⟩, rfl⟩ := enabled_step taken
      exact h.udre enabled
    | twi st data =>
      obtain ⟨_, rfl⟩ := enabled_step taken
      exact h.congr (g.twiVect_sender st data)

theorem run {ms : List Meanwhile} (taken : Runs.run Meanwhile.step g ms = some g') (h : Sending before out g) :
    Sending before out g' :=
  Runs.invariant_of_run (fun _ _ _ taken h _ => h.step taken) h (Runs.along_true g ms) taken

/-- With nothing in between, the remaining bytes go out one by one. -/
theorem exists_run_to_end (h : Sending before out g) (running : g.mode ≠ .softReset) :
    ∃ ms g', Runs.run Meanwhile.step g ms = some g' ∧ Sending before out g' ∧ g'.mode ≠ .softReset ∧
      g'.mdbOut.used = out.length := by
  obtain ⟨left, hleft⟩ : ∃ left, left = out.length - g.mdbOut.used := ⟨_, rfl⟩
  induction left generalizing g with
  | zero =>
    have within := h.within
    exact ⟨[], g, rfl, h, running, by omega⟩
  | succ left ih =>
    have enabled : g.udrie0 = true := h.udrie0.mpr (by omega)
    have taken : Meanwhile.step g (.event .usartUdre) = some g.usartUdre := if_pos ⟨running, enabled⟩
    have length := h.length
    have used : g.usartUdre.mdbOut.used = g.mdbOut.used + 1 ∧ g.usartUdre.mode = g.mode := by
      have room : ¬ g.timer0Stop.mdbOut.used ≥ g.timer0Stop.mdbOut.length := by
        change ¬ g.mdbOut.length ≤ g.mdbOut.used
        omega
      unfold Gate.usartUdre
      simp only [dif_neg room]
      split <;> exact ⟨rfl, rfl⟩
    obtain ⟨ms, g', rest, ended⟩ := ih (h.udre enabled) (by rw [used.2]; exact running) (by omega)
    exact ⟨.event .usartUdre :: ms, g', Runs.run_cons.mpr ⟨_, taken, rest⟩, ended⟩

end Sending

namespace Gate

/-- The block where it fits, the data alone where only they do, and the checksum alone where
they do not. -/
theorem mdbBlock_stored (data : List UInt8) (g : Gate) :
    (g.mdbBlock data).stored =
      if data.length ≤ 35 then data ++ [memsum data] else if data.length = 36 then data else [memsum data] := by
  have empty : g.mdbOut.clearFull.stored = [] := Buffer.stored_of_empty rfl
  have none : g.mdbOut.clearFull.length = 0 := rfl
  unfold mdbBlock
  by_cases fits : data.length ≤ 36
  · obtain ⟨out, appended, stored⟩ := @Buffer.appendN_of_room _ g.mdbOut.clearFull data
      (by simp only [mdbPacketSize]; omega)
    have length := Buffer.length_of_stored stored
    rw [empty, List.nil_append] at stored
    simp only [appended, Option.getD_some]
    by_cases room : data.length ≤ 35
    · obtain ⟨out', appended', stored'⟩ := @Buffer.append_of_room _ out (memsum data)
        (by simp only [mdbPacketSize]; omega)
      rw [appended', Option.getD_some, stored', stored, if_pos room]
    · have full : data.length = 36 := by omega
      have refused : out.append (memsum data) = Option.none := by
        unfold Buffer.append
        rw [dif_pos (by simp only [mdbPacketSize]; omega)]
      rw [refused, Option.getD_none, stored, if_neg room, if_pos full]
  · have refused : g.mdbOut.clearFull.appendN data = Option.none :=
      Buffer.appendN_eq_none.mpr (by simp only [mdbPacketSize]; omega)
    obtain ⟨out, appended, stored⟩ := @Buffer.append_of_room _ g.mdbOut.clearFull (memsum data)
      (by simp only [mdbPacketSize]; omega)
    rw [empty, List.nil_append] at stored
    simp only [refused, Option.getD_none, appended, Option.getD_some]
    rw [stored, if_neg (by omega), if_neg (by omega)]

theorem usartUdre_of_past {g : Gate} (past : g.mdbOut.length ≤ g.mdbOut.used) :
    g.usartUdre = g.timer0Stop.mdbFastError .mdbSendOverflow (UInt8.ofNat g.mdbOut.used) := by
  unfold usartUdre
  exact dif_pos past

theorem mdbStartSend_sender (g : Gate) :
    (mdbStartSend true g).sender =
      (.send, g.mdbFastErrorCode, false, true, g.txcie0, { g.mdbOut with used := 1 },
        g.history.sent ++ [(g.mdbOut.read 0 (Nat.zero_lt_succ _), true)]) := rfl

end Gate

theorem addressed_one {b : Buffer mdbPacketSize} (some_byte : 1 ≤ b.stored.length) :
    (addressed b.stored).take 1 = [(b.read 0 (Nat.zero_lt_succ _), true)] := by
  have length := b.stored_length
  obtain ⟨byte, bytes, stored⟩ := List.exists_cons_of_length_pos some_byte
  have first : b.stored[0]? = some byte := by rw [stored]; rfl
  rw [Buffer.stored, List.getElem?_take_of_lt (by omega)] at first
  rw [stored, Buffer.read_eq_getD, List.getD_eq_getElem?_getD, first]
  rfl

theorem sending_of_sender {g : Gate} {out : Buffer mdbPacketSize} {before : List (UInt8 × Bool)}
    (sender : g.sender =
      (.send, none, false, true, false, { out with used := 1 }, before ++ [(out.read 0 (Nat.zero_lt_succ _), true)]))
    (two : 2 ≤ out.stored.length) : Sending before out.stored g := by
  simp only [Gate.sender, Prod.mk.injEq] at sender
  obtain ⟨state, code, txb80, udrie0, txcie0, mdbOut, sent⟩ := sender
  refine ⟨state, code, txb80, ?_, ?_, ?_, ?_, ?_, ?_⟩
  · rw [mdbOut]
    rfl
  · rw [mdbOut]
  · rw [mdbOut]
    exact Nat.le_of_lt two
  · rw [sent, mdbOut, addressed_one (Nat.le_of_lt two)]
  · rw [udrie0, mdbOut]
    exact iff_of_true rfl two
  · rw [txcie0, mdbOut]
    simp only [Bool.false_eq_true, false_iff]
    omega

/-- A transaction that is taken, the UART being ready for it. -/
structure Call.Begins (env : Surroundings) (c : Call) : Prop where
  accepted : c.Accepts env .mdbTransactionSimple
  ready : env.sendReady c.src = true
  running : c.gate.mode = .running
  clean : c.gate.mdbFastErrorCode = none

namespace Call.Begins

variable {env : Surroundings} {c : Call}

theorem sender (h : c.Begins env) :
    (c.result env).1.sender =
      (.send, none, false, true, c.gate.txcie0, { c.gate.mdbBlock (c.data env) with used := 1 },
        c.gate.history.sent ++ [((c.gate.mdbBlock (c.data env)).read 0 (Nat.zero_lt_succ _), true)]) := by
  rw [Call.result_of_accepts h.accepted, Gate.mdbTransactionSimple_of_idle _ _ h.accepted.2, h.ready,
    (Gate.masterOut1_puts ..).sender, Gate.mdbStartSend_sender]
  simp only [h.clean]

theorem mode (h : c.Begins env) : (c.result env).1.mode ≠ .softReset := by
  rw [Call.result_of_accepts h.accepted, Gate.mdbTransactionSimple_mode, h.running]
  simp

theorem sent (h : c.Begins env) :
    (c.result env).1.history.sent =
      c.gate.history.sent ++ [((c.gate.mdbBlock (c.data env)).read 0 (Nat.zero_lt_succ _), true)] := by
  have sender := h.sender
  simp only [Gate.sender, Prod.mk.injEq] at sender
  exact sender.2.2.2.2.2.2

theorem not_refuses (h : c.Begins env) : ¬ c.Refuses env := by
  intro refuses
  have sent := refuses.2 [] (c.result env).1 rfl
  rw [h.sent] at sent
  have length := congrArg List.length sent
  simp at length

/-- With at least two bytes to send, and no TXCIE0 left of the last transmission, the sending
begins. -/
theorem sending (h : c.Begins env) (two : 2 ≤ (c.gate.mdbBlock (c.data env)).stored.length)
    (off : c.gate.txcie0 = false) :
    Sending c.gate.history.sent (c.gate.mdbBlock (c.data env)).stored (c.result env).1 := by
  have sender := h.sender
  rw [off] at sender
  exact sending_of_sender sender two

theorem sends (h : c.Begins env) (some_data : 1 ≤ (c.data env).length) (fits : (c.data env).length ≤ 35)
    (off : c.gate.txcie0 = false) : c.Sends env := by
  have stored := c.gate.mdbBlock_stored (c.data env)
  rw [if_pos fits] at stored
  have two : 2 ≤ (c.gate.mdbBlock (c.data env)).stored.length := by
    rw [stored, List.length_append, List.length_singleton]
    omega
  have begins := h.sending two off
  rw [stored] at begins
  intro ms g run
  have sending := begins.run run
  refine ⟨sending.clean, ?_, ⟨_, sending.sent, List.take_prefix _ _⟩, ?_⟩
  · rcases Nat.lt_or_eq_of_le sending.within with more | last
    · exact Or.inl (sending.udrie0.mpr more)
    · exact Or.inr (sending.txcie0.mpr last)
  · intro g' ended
    obtain ⟨⟨_, enabled⟩, rfl⟩ := enabled_step ended
    have last := sending.txcie0.mp enabled
    change g.history.sent = _
    rw [sending.sent, List.take_of_length_le (by rw [addressed_length, last])]
    rfl

/-- An interrupt for a finished transmission that is still enabled ends the new one. -/
theorem not_sends_of_txcie0 (h : c.Begins env) (some_data : 1 ≤ (c.data env).length)
    (on : c.gate.txcie0 = true) : ¬ c.Sends env := by
  intro sends
  have sender := h.sender
  simp only [Gate.sender, Prod.mk.injEq] at sender
  have enabled : (c.result env).1.txcie0 = true := sender.2.2.2.2.1.trans on
  have whole := (sends [] (c.result env).1 rfl).2.2.2 _ (if_pos ⟨h.mode, enabled⟩)
  change (c.result env).1.history.sent = _ at whole
  rw [h.sent] at whole
  have length := congrArg List.length whole
  simp only [List.length_append, List.length_singleton, block_length] at length
  omega

/-- Where only one byte is left to send, the next interrupt is a `Send_Overflow`. -/
theorem not_sends_of_single (h : c.Begins env) (single : (c.gate.mdbBlock (c.data env)).stored.length = 1) :
    ¬ c.Sends env := by
  intro sends
  have sender := h.sender
  simp only [Gate.sender, Prod.mk.injEq] at sender
  obtain ⟨_, _, _, enabled, _, mdbOut, _⟩ := sender
  have length : (c.gate.mdbBlock (c.data env)).length = 1 := by rw [← Buffer.stored_length, single]
  have past : (c.result env).1.mdbOut.length ≤ (c.result env).1.mdbOut.used := by
    rw [mdbOut]
    simp only
    omega
  have failed : (c.result env).1.usartUdre.mdbFastErrorCode = some .mdbSendOverflow := by
    rw [Gate.usartUdre_of_past past]
    rfl
  have run : Runs.run Meanwhile.step (c.result env).1 [.event .usartUdre] = some (c.result env).1.usartUdre :=
    Runs.run_cons.mpr ⟨_, if_pos ⟨h.mode, enabled⟩, rfl⟩
  have clean := (sends _ _ run).1
  rw [failed] at clean
  cases clean

/-- Data that fill `mdb_out` go out without their checksum. -/
theorem not_sends_of_full (h : c.Begins env) (full : (c.data env).length = 36) : ¬ c.Sends env := by
  intro sends
  by_cases on : c.gate.txcie0 = true
  · exact h.not_sends_of_txcie0 (by omega) on sends
  · have stored := c.gate.mdbBlock_stored (c.data env)
    rw [if_neg (by omega), if_pos full] at stored
    have begins := h.sending (by rw [stored]; omega) (by simpa using on)
    obtain ⟨ms, g, run, sending, running, last⟩ := begins.exists_run_to_end h.mode
    have enabled := sending.txcie0.mpr last
    have whole := (sends ms g run).2.2.2 _ (if_pos ⟨running, enabled⟩)
    change g.history.sent = _ at whole
    rw [sending.sent, stored] at whole
    have length := congrArg List.length whole
    simp only [List.length_append, List.length_take, addressed_length, block_length] at length
    omega

theorem sends_iff (h : c.Begins env) :
    c.Sends env ∨ c.Refuses env ↔
      1 ≤ (c.data env).length ∧ (c.data env).length ≤ 35 ∧ c.gate.txcie0 = false := by
  have stored := c.gate.mdbBlock_stored (c.data env)
  constructor
  · intro result
    have sends := result.resolve_right h.not_refuses
    have some_data : 1 ≤ (c.data env).length := by
      by_contra none
      have empty : c.data env = [] := List.length_eq_zero_iff.mp (by omega)
      rw [empty, if_pos (by simp)] at stored
      exact h.not_sends_of_single (by rw [empty, stored]; rfl) sends
    have fits : (c.data env).length ≤ 35 := by
      by_contra long
      rw [if_neg long] at stored
      by_cases full : (c.data env).length = 36
      · exact h.not_sends_of_full full sends
      · rw [if_neg full] at stored
        exact h.not_sends_of_single (by rw [stored]; rfl) sends
    refine ⟨some_data, fits, ?_⟩
    by_contra on
    exact h.not_sends_of_txcie0 some_data (by simpa using on) sends
  · rintro ⟨some_data, fits, off⟩
    exact Or.inl (h.sends some_data fits off)

end Call.Begins

/-- The packet loop makes its calls in a running firmware. -/
theorem Call.running_of_packetCalls {env : Surroundings} {patience : Nat} {c d : Call}
    (running : c.gate.mode = .running) (found : d ∈ c.packetCalls env patience) : d.gate.mode = .running := by
  induction patience generalizing c with
  | zero => cases found
  | succ patience ih =>
    rw [Call.packetCalls, List.mem_cons] at found
    rcases found with rfl | found
    · exact running
    · split at found
      · cases found
      next more =>
        have goesOn : ¬ (c.result env).1.mode ≠ .running := fun left => more (Or.inl left)
        exact ih (not_not.mp goesOn) found

theorem Call.running_of_calls {g g' : Gate} {env : Surroundings} {c : Call}
    (next : step g (.twiStep env) = some g') (found : c ∈ g.calls env) : c.gate.mode = .running := by
  obtain ⟨⟨running, _⟩, _⟩ := enabled_step next
  unfold Gate.calls at found
  split at found
  · exact running_of_packetCalls running found
  · cases found

theorem Call.begins {mcusrSaved : UInt8} {es : List Event} {g g' : Gate} {env : Surroundings} {c : Call}
    (reached : Runs.run step (.boot mcusrSaved ⟨[], [], []⟩) es = some g)
    (next : step g (.twiStep env) = some g') (found : c ∈ g.calls env)
    (accepted : c.Accepts env .mdbTransactionSimple) (ready : env.sendReady c.src = true) : c.Begins env := by
  have sound : g.engine.Sound := by
    refine Runs.invariant_of_run (fun _ _ _ h sound _ => (step_moves h).sound sound) ?_
      (Runs.along_true _ _) reached
    rw [Gate.boot_engine]
    exact fun _ => rfl
  have kept := @Gate.takeCommands_invariant (fun g => g.engine.Sound) env g (fun _ h => h) (fun _ h => h)
    (by rw [(Gate.masterOut2_puts ..).engine]; exact sound)
    (fun c _ h => (c.result_commanded env).engine.sound h) sound
  exact ⟨accepted, ready, Call.running_of_calls next found, by simpa using kept.2 c found (Or.inl accepted.2)⟩

/-- A transaction that a reachable firmware takes sends its block, or is refused, exactly when
it has between 1 and 35 data bytes and finds TXCIE0 disabled. -/
theorem transaction_sends_iff {mcusrSaved : UInt8} {es : List Event} {g g' : Gate} {env : Surroundings}
    {c : Call} (reached : Runs.run step (.boot mcusrSaved ⟨[], [], []⟩) es = some g)
    (next : step g (.twiStep env) = some g') (found : c ∈ g.calls env)
    (accepted : c.Accepts env .mdbTransactionSimple) (ready : env.sendReady c.src = true) :
    c.Sends env ∨ c.Refuses env ↔
      1 ≤ (c.data env).length ∧ (c.data env).length ≤ 35 ∧ c.gate.txcie0 = false :=
  (Call.begins reached next found accepted ready).sends_iff

/-- A write of the frame, with its checksum. -/
def commandWrite (frame : List UInt8) : List Event :=
  .twi .srSlaAck 0 :: (frame ++ [crc8P93N 0 frame]).map (.twi .srDataAck) ++ [.twi .srStop 0]

/-- The first command of a write that has ended is found by the next step of the loop. -/
theorem found_of_write {frame : List UInt8} {P : Gate → Prop}
    (h : ∃ g ∈ Runs.run step (.boot 0x01 ⟨[], [], []⟩) (commandWrite frame),
      (g.mode = .running ∧ g.twiIdle = true) ∧ 2 ≤ g.twiIn.length ∧ P g) :
    ∃ g g' : Gate, Runs.run step (.boot 0x01 ⟨[], [], []⟩) (commandWrite frame) = some g ∧
      step g (.twiStep ⟨fun _ => 0, fun _ => true, 100⟩) = some g' ∧
      ⟨g, 0, 0⟩ ∈ g.calls ⟨fun _ => 0, fun _ => true, 100⟩ ∧ P g := by
  obtain ⟨g, reached, enabled, more, holds⟩ := h
  refine ⟨g, _, reached, if_pos enabled, ?_, holds⟩
  rw [Gate.calls, if_pos more]
  exact List.mem_cons_self

/-- The firmware after the write, if the first command of it is a transaction that is taken
with these data and flags. -/
theorem transaction_of_write {frame : List UInt8} {n : Nat}
    (h : ∃ g ∈ Runs.run step (.boot 0x01 ⟨[], [], []⟩) (commandWrite frame),
      (g.mode = .running ∧ g.twiIdle = true) ∧ 2 ≤ g.twiIn.length ∧ g.txcie0 = false ∧
      Call.Accepts ⟨fun _ => 0, fun _ => true, 100⟩ ⟨g, 0, 0⟩ .mdbTransactionSimple ∧
      (Call.data ⟨fun _ => 0, fun _ => true, 100⟩ ⟨g, 0, 0⟩).length = n) :
    ∃ g g' : Gate, Runs.run step (.boot 0x01 ⟨[], [], []⟩) (commandWrite frame) = some g ∧
      step g (.twiStep ⟨fun _ => 0, fun _ => true, 100⟩) = some g' ∧
      ⟨g, 0, 0⟩ ∈ g.calls ⟨fun _ => 0, fun _ => true, 100⟩ ∧ g.txcie0 = false ∧
      Call.Accepts ⟨fun _ => 0, fun _ => true, 100⟩ ⟨g, 0, 0⟩ .mdbTransactionSimple ∧
      (Call.data ⟨fun _ => 0, fun _ => true, 100⟩ ⟨g, 0, 0⟩).length = n :=
  found_of_write h

theorem transaction_sends_poll :
    ∃ g : Gate, Runs.run step (.boot 0x01 ⟨[], [], []⟩) (commandWrite [4, 0x08, 0x0b]) = some g ∧
      (Call.Sends ⟨fun _ => 0, fun _ => true, 100⟩ ⟨g, 0, 0⟩ ∨
        Call.Refuses ⟨fun _ => 0, fun _ => true, 100⟩ ⟨g, 0, 0⟩) := by
  obtain ⟨g, g', reached, next, found, off, accepted, size⟩ :=
    @transaction_of_write [4, 0x08, 0x0b] 1 (by decide +kernel)
  exact ⟨g, reached, (transaction_sends_iff reached next found accepted rfl).mpr ⟨by omega, by omega, off⟩⟩

/-- Thirty-seven data bytes do not fit: their checksum is written alone. -/
theorem transaction_of_37_bytes :
    ∃ g g' : Gate, Runs.run step (.boot 0x01 ⟨[], [], []⟩)
    (commandWrite (40 :: 0x08 :: List.replicate 37 1)) = some g ∧
      step g (.twiStep ⟨fun _ => 0, fun _ => true, 100⟩) = some g' ∧
      ⟨g, 0, 0⟩ ∈ g.calls ⟨fun _ => 0, fun _ => true, 100⟩ ∧
      Call.Accepts ⟨fun _ => 0, fun _ => true, 100⟩ ⟨g, 0, 0⟩ .mdbTransactionSimple ∧
      ¬ (Call.Sends ⟨fun _ => 0, fun _ => true, 100⟩ ⟨g, 0, 0⟩ ∨
        Call.Refuses ⟨fun _ => 0, fun _ => true, 100⟩ ⟨g, 0, 0⟩) := by
  obtain ⟨g, g', reached, next, found, off, accepted, size⟩ :=
    @transaction_of_write (40 :: 0x08 :: List.replicate 37 1) 37 (by decide +kernel)
  refine ⟨g, g', reached, next, found, accepted, fun result => ?_⟩
  obtain ⟨_, fits, _⟩ := (Call.begins reached next found accepted rfl).sends_iff.mp result
  omega

end Vender.Firmware
