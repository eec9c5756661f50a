import Vender.Firmware.Packet
import Vender.Firmware.Twi

namespace Vender.Firmware

/-- The responses that end an MDB transaction. -/
def Response.terminal : Response → Bool
  | .mdbSuccess | .mdbNak | .mdbInvalidChk | .mdbInvalidEnd | .mdbTimeout | .mdbReceiveOverflow => true
  | .mdbSendOverflow | .uartReadUnexpected | .uartReadError | .uartSendBusy => true
  | _ => false

/-- A command that leaves the MDB engine alone. -/
inductive Aside (g : Gate) : Gate → Prop
  | quiet : Aside g g
  | answered {header : Response} {data : List UInt8} {g' : Gate}
      (other : header ≠ .mdbStarted ∧ header.terminal = false) (puts : Puts header data g g') : Aside g g'
  | config {g' : Gate} (puts : Puts .notImplemented [] { g with mcusrSaved := 0 } g') : Aside g g'
  | halted {mode : Mode} (h : mode ≠ .running) : Aside g { g with mode := mode }

/-- A command aside keeps whatever a response, the mode and `mcusr_saved` do not touch. -/
theorem Aside.keeps {α : Type*} {f : Gate → α} {g g' : Gate} (h : Aside g g')
    (response : ∀ {header data g g'}, Puts header data g g' → f g' = f g)
    (mode : ∀ (g : Gate) m, f { g with mode := m } = f g)
    (mcusr : ∀ (g : Gate) b, f { g with mcusrSaved := b } = f g) : f g' = f g := by
  cases h with
  | quiet => rfl
  | answered _ puts => exact response puts
  | config puts => exact (response puts).trans (mcusr g 0)
  | halted => exact mode g _

/-- A call of `master_command` in the packet loop: the state it finds, the eight-bit offset
and the pointer. -/
structure Call where
  gate : Gate
  i : UInt8
  src : Nat

namespace Call

def maxLength (c : Call) : UInt8 := UInt8.ofNat c.gate.twiIn.length - c.i

def result (env : Surroundings) (c : Call) : Gate × UInt8 :=
  c.gate.masterCommand env c.src c.maxLength

/-- The loop is left after this call. -/
def Last (env : Surroundings) (c : Call) : Prop :=
  (c.result env).1.mode ≠ .running ∨ (c.result env).2 = 0 ∨
    UInt8.ofNat c.gate.twiIn.length ≤ c.i + (c.result env).2

instance (env : Surroundings) (c : Call) : Decidable (c.Last env) :=
  inferInstanceAs (Decidable (_ ∨ _ ∨ _))

def next (env : Surroundings) (c : Call) : Call where
  gate := (c.result env).1
  i := c.i + (c.result env).2
  src := c.src + (c.result env).2.toNat

/-- The calls that the packet loop makes from this one on, in order. -/
def packetCalls (env : Surroundings) : (patience : Nat) → Call → List Call
  | 0, _ => []
  | patience + 1, c => c :: if c.Last env then [] else packetCalls env patience (c.next env)

theorem packetLoop_succ (env : Surroundings) (patience : Nat) (c : Call) :
    c.gate.packetLoop env (patience + 1) c.i c.src =
      if c.Last env then (c.result env).1
      else (c.next env).gate.packetLoop env patience (c.next env).i (c.next env).src := by
  rw [Gate.packetLoop]
  change (if (c.result env).1.mode ≠ .running then (c.result env).1
    else if (c.result env).2 = 0 then (c.result env).1
    else if c.i + (c.result env).2 ≥ UInt8.ofNat c.gate.twiIn.length then (c.result env).1
    else (c.next env).gate.packetLoop env patience (c.next env).i (c.next env).src) = _
  by_cases mode : (c.result env).1.mode ≠ .running
  · rw [if_pos mode, if_pos (show c.Last env from Or.inl mode)]
  · by_cases zero : (c.result env).2 = 0
    · rw [if_neg mode, if_pos zero, if_pos (show c.Last env from Or.inr (Or.inl zero))]
    · by_cases stop : UInt8.ofNat c.gate.twiIn.length ≤ c.i + (c.result env).2
      · rw [if_neg mode, if_neg zero, if_pos stop,
          if_pos (show c.Last env from Or.inr (Or.inr stop))]
      · have more : ¬ c.Last env := by
          rintro (h | h | h)
          · exact mode h
          · exact zero h
          · exact stop h
        rw [if_neg mode, if_neg zero, if_neg stop, if_neg more]

/-- The packet loop ends with the result of its last call, or sticks behind it when the
watchdog has no more patience. -/
theorem packetLoop_last {env : Surroundings} {patience : Nat} {c d : Call}
    (found : (c.packetCalls env patience).getLast? = some d) :
    c.gate.packetLoop env patience c.i c.src =
      if d.Last env then (d.result env).1 else { (d.result env).1 with mode := .stuck } := by
  induction patience generalizing c with
  | zero => cases found
  | succ patience ih =>
    rw [packetLoop_succ]
    rw [packetCalls] at found
    by_cases last : c.Last env
    · rw [if_pos last] at found ⊢
      obtain rfl : c = d := Option.some.inj found
      rw [if_pos last]
    · rw [if_neg last] at found ⊢
      cases patience with
      | zero =>
        obtain rfl : c = d := Option.some.inj found
        rw [if_neg last]
        rfl
      | succ patience =>
        rw [List.getLast?_cons_of_ne_nil (by simp [packetCalls])] at found
        exact ih found

theorem last_of_length_lt {env : Surroundings} {patience : Nat} {c d : Call}
    (ends : (c.packetCalls env patience).length < patience)
    (found : (c.packetCalls env patience).getLast? = some d) : d.Last env := by
  induction patience generalizing c with
  | zero => cases found
  | succ patience ih =>
    rw [packetCalls] at ends found
    by_cases last : c.Last env
    · rw [if_pos last] at found
      obtain rfl : c = d := Option.some.inj found
      exact last
    · rw [if_neg last] at ends found
      have fewer : ((c.next env).packetCalls env patience).length < patience := by
        rw [List.length_cons] at ends
        omega
      obtain ⟨turns, rfl⟩ : ∃ n, patience = n + 1 := ⟨patience - 1, by omega⟩
      rw [List.getLast?_cons_of_ne_nil (by simp [packetCalls])] at found
      exact ih fewer found

/-- What each call keeps, the packet loop keeps, and every call of it finds. -/
theorem packetLoop_invariant {I : Gate → Prop} {env : Surroundings} {patience : Nat} {c : Call}
    (stuck : ∀ g, I g → I { g with mode := .stuck })
    (keeps : ∀ d ∈ c.packetCalls env patience, I d.gate → I (d.result env).1) (start : I c.gate) :
    I (c.gate.packetLoop env patience c.i c.src) ∧ ∀ d ∈ c.packetCalls env patience, I d.gate := by
  induction patience generalizing c with
  | zero => exact ⟨stuck _ start, by simp [packetCalls]⟩
  | succ patience ih =>
    simp only [packetCalls] at keeps ⊢
    have one := keeps c (List.mem_cons_self ..) start
    rw [packetLoop_succ]
    by_cases last : c.Last env
    · simp only [last, ↓reduceIte, List.mem_singleton, forall_eq]
      exact ⟨one, start⟩
    · simp only [last, ↓reduceIte, List.forall_mem_cons] at keeps ⊢
      obtain ⟨after, calls⟩ := ih keeps.2 one
      exact ⟨after, start, calls⟩

end Call

namespace Gate

theorem debugStatus_length (g : Gate) : g.debugStatus.length = 40 := rfl

/-- What stands in `mdb_out` when a transaction with these data begins. -/
def mdbBlock (data : List UInt8) (g : Gate) : Buffer mdbPacketSize :=
  let out := g.mdbOut.clearFull
  let out := (out.appendN data).getD out
  (out.append (memsum data)).getD out

theorem mdbTransactionSimple_of_idle (ready : Bool) (data : List UInt8) {g : Gate} (idle : g.mdbState = .idle) :
    g.mdbTransactionSimple ready data =
      (mdbStartSend ready { g with mdbOut := g.mdbBlock data }).masterOut1 .mdbStarted :=
  if_neg (not_not.mpr idle)

end Gate

namespace Call

/-- The command that the call finds: `none` if its length or its checksum is wrong, or its
header is unknown. -/
def command (env : Surroundings) (c : Call) : Option Command :=
  let bs := fun k : Int => c.gate.peek env (c.src + k)
  if c.maxLength < 3 then none
  else if bs 0 > c.maxLength then none
  else if bs (((bs 0).toNat : Int) - 1) ≠
      crc8P93N 0 ((List.range (bs 0 - 1).toNat).map fun k : Nat => bs k) then none
  else Command.ofByte (bs 1)

def data (env : Surroundings) (c : Call) : List UInt8 :=
  let bs := fun k : Int => c.gate.peek env (c.src + k)
  (List.range (bs 0 - 3).toNat).map fun k : Nat => bs (2 + k)

/-- The call finds the MDB command, and the engine is free for it. -/
def Accepts (env : Surroundings) (c : Call) (command : Command) : Prop :=
  c.command env = some command ∧ c.gate.mdbState = .idle

instance (env : Surroundings) (c : Call) (command : Command) : Decidable (c.Accepts env command) :=
  inferInstanceAs (Decidable (_ ∧ _))

theorem result_of_command {env : Surroundings} {c : Call} {command : Command} (found : c.command env = some command) :
    ∃ header length, Command.ofByte header = some command ∧
      (c.result env).1 = c.gate.dispatch (env.sendReady c.src) header length (c.data env) := by
  unfold Call.command at found
  unfold result Gate.masterCommand
  simp only at found ⊢
  split at found
  · cases found
  next enough =>
    split at found
    · cases found
    next fits =>
      split at found
      · cases found
      next valid =>
        refine ⟨_, c.gate.peek env (c.src + 0), found, ?_⟩
        simp only [enough, fits, valid, ↓reduceIte, data]

theorem result_of_accepts {env : Surroundings} {c : Call} (h : c.Accepts env .mdbTransactionSimple) :
    (c.result env).1 = c.gate.mdbTransactionSimple (env.sendReady c.src) (c.data env) := by
  obtain ⟨header, length, found, result⟩ := result_of_command h.1
  rw [result]
  simp only [Gate.dispatch, found]

end Call

/-- What one `master_command` does. -/
inductive Commanded (env : Surroundings) (c : Call) : Gate → Prop
  | aside {g' : Gate} (h : Aside c.gate g') : Commanded env c g'
  | busReset {ms : UInt8} {g' : Gate} (accepted : c.Accepts env .mdbBusReset) (two : (c.data env).length = 2)
      (puts : Puts .mdbStarted [] { c.gate with mdbState := .busReset, txen0 := false, timer0 := some ms } g') :
      Commanded env c g'
  | started {out : Buffer mdbPacketSize} {g' : Gate} (accepted : c.Accepts env .mdbTransactionSimple)
      (ready : env.sendReady c.src = true)
      (puts : Puts .mdbStarted [] (Gate.mdbStartSend true { c.gate with mdbOut := out }) g') :
      Commanded env c g'
  | refused {out : Buffer mdbPacketSize} {g₁ g' : Gate} (accepted : c.Accepts env .mdbTransactionSimple)
      (ready : env.sendReady c.src = false)
      (busy : Puts .uartSendBusy [0] { c.gate with mdbOut := out } g₁)
      (puts : Puts .mdbStarted [] g₁.mdbReset g') : Commanded env c g'

namespace Call

theorem mdbBusReset_commanded {env : Surroundings} {c : Call} (found : c.command env = some .mdbBusReset)
    {data : List UInt8} (same : data = c.data env) : Commanded env c (c.gate.mdbBusReset data) := by
  subst same
  unfold Gate.mdbBusReset
  split
  · exact .aside (.answered (by simp [Response.terminal]) (Gate.masterOut1_puts .badPacket _))
  next two =>
    split
    · exact .aside (.answered (by simp [Response.terminal]) (Gate.masterOut1_puts .mdbBusy _))
    next state => exact .busReset ⟨found, not_not.mp state⟩ (not_not.mp two) (Gate.masterOut1_puts .mdbStarted _)

theorem mdbTransactionSimple_commanded {env : Surroundings} {c : Call}
    (found : c.command env = some .mdbTransactionSimple) (data : List UInt8) :
    Commanded env c (c.gate.mdbTransactionSimple (env.sendReady c.src) data) := by
  by_cases idle : c.gate.mdbState = .idle
  · rw [Gate.mdbTransactionSimple_of_idle _ data idle]
    cases ready : env.sendReady c.src with
    | true => exact .started ⟨found, idle⟩ ready (Gate.masterOut1_puts .mdbStarted _)
    | false =>
      exact .refused ⟨found, idle⟩ ready (Gate.masterOut2_puts .uartSendBusy 0 _)
        (Gate.masterOut1_puts .mdbStarted _)
  · rw [Gate.mdbTransactionSimple, if_pos idle]
    exact .aside (.answered (by simp [Response.terminal]) (Gate.masterOut1_puts .mdbBusy _))

theorem dispatch_commanded {env : Surroundings} {c : Call} {header length : UInt8} {data : List UInt8}
    (found : c.command env = Command.ofByte header) (same : data = c.data env) :
    Commanded env c (c.gate.dispatch (env.sendReady c.src) header length data) := by
  unfold Gate.dispatch
  split
  · split
    · exact .aside (.answered (by simp [Response.terminal]) (Gate.masterOut2_puts .badPacket 1 _))
    · exact .aside .quiet
  · exact .aside (.config (Gate.masterOut1_puts .notImplemented _))
  · exact .aside (.halted (by simp))
  · have short : c.gate.debugStatus.length ≤ 252 := by
      rw [Gate.debugStatus_length]
      omega
    exact .aside (.answered (by simp [Response.terminal]) (Gate.masterOutN_puts .debug _ short))
  · exact .aside (.halted (by simp))
  next command => exact mdbBusReset_commanded (found.trans command) same
  next command => exact mdbTransactionSimple_commanded (found.trans command) data
  · exact .aside (.answered (by simp [Response.terminal]) (Gate.masterOut1_puts .notImplemented _))
  · exact .aside (.answered (by simp [Response.terminal]) (Gate.masterOut1_puts .unknownCommand _))

theorem result_commanded (env : Surroundings) (c : Call) : Commanded env c (c.result env).1 := by
  have found : c.command env = c.command env := rfl
  conv_rhs at found => unfold command
  unfold result Gate.masterCommand
  simp only at found ⊢
  split
  · exact .aside (.answered (by simp [Response.terminal]) (Gate.masterOut2_puts .badPacket 0 _))
  next enough =>
    split
    · exact .aside (.answered (by simp [Response.terminal]) (Gate.masterOut2_puts .badPacket 0 _))
    next fits =>
      split
      · exact .aside (.answered (by simp [Response.terminal]) (Gate.masterOut2_puts .invalidCrc _ _))
      next valid =>
        simp only [enough, fits, valid, ↓reduceIte] at found
        exact dispatch_commanded found rfl

end Call

/-- A busy engine is left alone, with whatever a response, the mode and `mcusr_saved` do not
touch. -/
theorem Commanded.keeps {α : Type*} {f : Gate → α} {env : Surroundings} {c : Call} {g' : Gate}
    (h : Commanded env c g') (busy : c.gate.mdbState ≠ .idle)
    (response : ∀ {header data g g'}, Puts header data g g' → f g' = f g)
    (mode : ∀ (g : Gate) m, f { g with mode := m } = f g)
    (mcusr : ∀ (g : Gate) b, f { g with mcusrSaved := b } = f g) : f g' = f c.gate := by
  cases h with
  | aside h => exact h.keeps response mode mcusr
  | busReset accepted | started accepted | refused accepted => exact absurd accepted.2 busy

/-- The calls of `master_command` that `twi_step` makes. -/
def Gate.calls (env : Surroundings) (g : Gate) : List Call :=
  if 2 ≤ g.twiIn.length then Call.packetCalls env env.patience ⟨g, 0, 0⟩ else []

/-- What the calls and the rest of `twi_step` keep, it keeps as a whole, and every call of
it finds. -/
theorem Gate.takeCommands_invariant {I : Gate → Prop} {env : Surroundings} {g : Gate}
    (stuck : ∀ g, I g → I { g with mode := .stuck })
    (clear : ∀ g, I g → I { g with twiIn := g.twiIn.clearFast })
    (keyboard : I (g.masterOut2 .twi (g.twiIn.read 0 (Nat.zero_lt_succ _))))
    (keeps : ∀ c ∈ g.calls env, I c.gate → I (c.result env).1) (start : I g) :
    I (g.takeCommands env) ∧ ∀ c ∈ g.calls env, I c.gate := by
  have cleared : ∀ g' : Gate, I g' →
      I (if g'.mode ≠ .running then g' else { g' with twiIn := g'.twiIn.clearFast }) := by
    intro g' taken
    split
    · exact taken
    · exact clear g' taken
  unfold takeCommands
  unfold calls at keeps ⊢
  by_cases empty : g.twiIn.length = 0
  · have short : ¬ 2 ≤ g.twiIn.length := by omega
    rw [if_pos empty, if_neg short]
    exact ⟨start, by simp⟩
  · by_cases one : g.twiIn.length = 1
    · have short : ¬ 2 ≤ g.twiIn.length := by omega
      rw [if_neg empty, if_pos one, if_neg short]
      exact ⟨cleared _ keyboard, by simp⟩
    · have more : 2 ≤ g.twiIn.length := by omega
      rw [if_pos more] at keeps
      rw [if_neg empty, if_neg one, if_pos more]
      obtain ⟨loop, found⟩ := @Call.packetLoop_invariant I env env.patience ⟨g, 0, 0⟩ stuck keeps start
      exact ⟨cleared _ loop, found⟩

theorem Gate.twiStep_invariant {I : Gate → Prop} {env : Surroundings} {g : Gate}
    (stuck : ∀ g, I g → I { g with mode := .stuck })
    (clear : ∀ g, I g → I { g with twiIn := g.twiIn.clearFast })
    (swap : ∀ (g : Gate) out back, I g → I { g with twiOut := out, masterOut := back })
    (keyboard : I (g.masterOut2 .twi (g.twiIn.read 0 (Nat.zero_lt_succ _))))
    (keeps : ∀ c ∈ g.calls env, I c.gate → I (c.result env).1) (start : I g) :
    I (g.twiStep env) := by
  have taken := (takeCommands_invariant stuck clear keyboard keeps start).1
  unfold twiStep swapOut
  simp only
  split
  · exact taken
  · split
    · exact swap _ _ _ taken
    · exact taken

theorem Gate.twiStep_keeps {α : Type*} {f : Gate → α} {env : Surroundings} {g : Gate} (busy : g.mdbState ≠ .idle)
    (response : ∀ {header data g g'}, Puts header data g g' → f g' = f g)
    (mode : ∀ (g : Gate) m, f { g with mode := m } = f g)
    (mcusr : ∀ (g : Gate) b, f { g with mcusrSaved := b } = f g)
    (clear : ∀ g : Gate, f { g with twiIn := g.twiIn.clearFast } = f g)
    (swap : ∀ (g : Gate) out back, f { g with twiOut := out, masterOut := back } = f g) :
    f (g.twiStep env) = f g := by
  have state {header : Response} {data : List UInt8} {g g' : Gate} (h : Puts header data g g') :
      g'.mdbState = g.mdbState := by
    cases h <;> rfl
  refine (@twiStep_invariant (fun g' => f g' = f g ∧ g'.mdbState = g.mdbState) env g
    (fun g' h => ⟨(mode g' _).trans h.1, h.2⟩) (fun g' h => ⟨(clear g').trans h.1, h.2⟩)
    (fun g' _ _ h => ⟨(swap g' _ _).trans h.1, h.2⟩) ?_ ?_ ⟨rfl, rfl⟩).1
  · exact ⟨response (masterOut2_puts ..), state (masterOut2_puts ..)⟩
  · intro c _ h
    have stays : c.gate.mdbState ≠ .idle := by rw [h.2]; exact busy
    have commanded := c.result_commanded env
    exact ⟨(commanded.keeps stays response mode mcusr).trans h.1,
      (commanded.keeps stays state (fun _ _ => rfl) (fun _ _ => rfl)).trans h.2⟩

end Vender.Firmware
