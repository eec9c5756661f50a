import Vender.Firmware.Slave
import Vender.Mega.Client

namespace Vender

namespace Firmware

/-- What happened in between has only put responses of this kind on record. -/
def Emits (P : Response → Prop) (g g' : Gate) : Prop :=
  ∃ new, g'.history.emitted = g.history.emitted ++ new ∧ ∀ r ∈ new, P r.1

theorem Emits.of_eq {P : Response → Prop} {g g' : Gate} (h : g'.history.emitted = g.history.emitted) : Emits P g g' :=
  ⟨[], by simp [h], by simp⟩

theorem Emits.trans {P : Response → Prop} {g g' g'' : Gate} (h : Emits P g g') (h' : Emits P g' g'') :
    Emits P g g'' := by
  obtain ⟨new, emitted, all⟩ := h
  obtain ⟨new', emitted', all'⟩ := h'
  refine ⟨new ++ new', by rw [emitted', emitted, List.append_assoc], fun r mem => ?_⟩
  rcases List.mem_append.mp mem with mem | mem
  · exact all r mem
  · exact all' r mem

theorem Puts.emits {P : Response → Prop} {header : Response} {data : List UInt8} {g g' : Gate}
    (h : Puts header data g g') (kind : P header) : Emits P g g' := by
  cases h with
  | fits => exact ⟨[(header, data)], rfl, by simpa using kind⟩
  | overflows => exact .of_eq rfl

/-- Data that the command itself has no use for: `Poll` takes none, `MDB_Bus_Reset` two bytes. -/
def OwnBadPacket (header : UInt8) (data : List UInt8) : Prop :=
  Command.ofByte header = some .poll ∧ data ≠ [] ∨ Command.ofByte header = some .mdbBusReset ∧ data.length ≠ 2

/-- A response that is no complaint about the frame: `Invalid_CRC` not at all, `Bad_Packet`
only where the command asks for other data. -/
def Undisputed (header : UInt8) (data : List UInt8) (r : Response) : Prop :=
  r ≠ .invalidCrc ∧ (r = .badPacket → OwnBadPacket header data)

theorem undisputed_of_ne {header : UInt8} {data : List UInt8} {r : Response} (crc : r ≠ .invalidCrc)
    (bad : r ≠ .badPacket) : Undisputed header data r :=
  ⟨crc, fun h => absurd h bad⟩

namespace Gate

theorem mdbStartSend_emits {P : Response → Prop} (busy : P .uartSendBusy) (ready : Bool) (g : Gate) :
    Emits P g (mdbStartSend ready g) := by
  unfold mdbStartSend
  split
  · exact ((masterOut2_puts .uartSendBusy 0 g).emits busy).trans (.of_eq rfl)
  · exact .of_eq rfl

theorem mdbBusReset_emits {header : UInt8} (known : Command.ofByte header = some .mdbBusReset) (data : List UInt8)
    (g : Gate) : Emits (Undisputed header data) g (g.mdbBusReset data) := by
  unfold mdbBusReset
  split
  next other => exact (masterOut1_puts .badPacket g).emits ⟨by decide, fun _ => Or.inr ⟨known, other⟩⟩
  next =>
    split
    · exact (masterOut1_puts .mdbBusy g).emits (undisputed_of_ne (by decide) (by decide))
    · refine Emits.trans (.of_eq rfl) ((masterOut1_puts .mdbStarted _).emits ?_)
      exact undisputed_of_ne (by decide) (by decide)

theorem mdbTransactionSimple_emits (header : UInt8) (ready : Bool) (data : List UInt8) (g : Gate) :
    Emits (Undisputed header data) g (g.mdbTransactionSimple ready data) := by
  have undisputed : ∀ r, r ≠ .invalidCrc → r ≠ .badPacket → Undisputed header data r :=
    fun r => undisputed_of_ne
  by_cases idle : g.mdbState = .idle
  · rw [mdbTransactionSimple_of_idle ready data idle]
    have sent := mdbStartSend_emits (undisputed _ (by decide) (by decide)) ready { g with mdbOut := g.mdbBlock data }
    have started := (masterOut1_puts .mdbStarted (mdbStartSend ready { g with mdbOut := g.mdbBlock data })).emits
      (undisputed _ (by decide) (by decide))
    exact Emits.trans (.of_eq rfl) (sent.trans started)
  · rw [mdbTransactionSimple, if_pos idle]
    exact (masterOut1_puts .mdbBusy g).emits (undisputed _ (by decide) (by decide))

/-- A command that is handed its data raises no complaint about the frame. -/
theorem dispatch_emits (ready : Bool) (header length : UInt8) {data : List UInt8}
    (size : length.toNat = data.length + 3)
    (g : Gate) : Emits (Undisputed header data) g (g.dispatch ready header length data) := by
  have undisputed : ∀ r, r ≠ .invalidCrc → r ≠ .badPacket → Undisputed header data r :=
    fun r => undisputed_of_ne
  unfold dispatch
  cases known : Command.ofByte header with
  | none => exact (masterOut1_puts ..).emits (undisputed _ (by decide) (by decide))
  | some command =>
    cases command with
    | poll =>
      simp only
      split
      next other =>
        refine (masterOut2_puts .badPacket 1 g).emits ⟨by decide, fun _ => Or.inl ⟨known, ?_⟩⟩
        rintro rfl
        exact other (UInt8.toNat_inj.mp size)
      next => exact .of_eq rfl
    | config =>
      exact Emits.trans (.of_eq rfl) ((masterOut1_puts ..).emits (undisputed _ (by decide) (by decide)))
    | reset => exact .of_eq rfl
    | debug =>
      have short : g.debugStatus.length ≤ 252 := by
        rw [debugStatus_length]
        omega
      exact (masterOutN_puts .debug g short).emits (undisputed _ (by decide) (by decide))
    | flash => exact .of_eq rfl
    | mdbBusReset => exact mdbBusReset_emits known data g
    | mdbTransactionSimple => exact mdbTransactionSimple_emits header ready data g
    | mdbTransactionCustom => exact (masterOut1_puts ..).emits (undisputed _ (by decide) (by decide))

end Gate

end Firmware

namespace Mega

open Firmware

theorem frame_eq (rq : List UInt8) :
    frame rq = UInt8.ofNat (rq.length + 2) :: (rq ++ [crc8P93N 0 (UInt8.ofNat (rq.length + 2) :: rq)]) := rfl

@[simp] theorem frame_length (rq : List UInt8) : (frame rq).length = rq.length + 2 := by
  simp [frame_eq]

/-- A call of `master_command` that takes the frame of a request for what it is. -/
structure Dispatches (env : Surroundings) (rq : List UInt8) (c : Call) : Prop where
  running : c.gate.mode = .running
  stands : frame rq <+: c.rest
  /-- the checksum that is computed and the one in the frame -/
  crc : crc8P93N 0 ((List.range (c.gate.peek env c.src - 1).toNat).map fun k : Nat => c.gate.peek env (c.src + k)) =
    c.gate.peek env (c.src + (((c.gate.peek env c.src).toNat : Int) - 1))
  result : c.result env = (c.gate.dispatch (env.sendReady c.src) (rq.headD 0) (UInt8.ofNat (rq.length + 2)) rq.tail,
    UInt8.ofNat (rq.length + 2))
  undisputed : Emits (Undisputed (rq.headD 0) rq.tail) c.gate (c.result env).1

variable {env : Surroundings} {c : Call} {rq : List UInt8}

theorem rest_bound (c : Call) : c.rest.length ≤ commandMaxLength := by
  have bound := c.gate.twiIn.fits
  have length := c.rest_length
  omega

theorem frame_bound (stands : frame rq <+: c.rest) : rq.length + 2 ≤ c.rest.length := by
  have short := stands.length_le
  rwa [frame_length] at short

/-- The number that the host puts in front of a frame fits its byte. -/
theorem lengthByte_toNat (stands : frame rq <+: c.rest) : (UInt8.ofNat (rq.length + 2)).toNat = rq.length + 2 := by
  have short := frame_bound stands
  have bound := rest_bound c
  simp only [commandMaxLength] at bound
  rw [UInt8.toNat_ofNat', Nat.mod_eq_of_lt (by omega)]

theorem peek_frame (stands : frame rq <+: c.rest) {k : Nat} (inside : k < rq.length + 2) :
    c.gate.peek env (c.src + k) = (frame rq).getD k 0 := by
  have short := frame_bound stands
  obtain ⟨more, hmore⟩ := stands
  rw [Call.peek_rest (by omega), ← hmore, List.getD_eq_getElem?_getD, List.getD_eq_getElem?_getD,
    List.getElem?_append_left (by rw [frame_length]; exact inside)]

theorem peek_length (stands : frame rq <+: c.rest) : c.gate.peek env c.src = UInt8.ofNat (rq.length + 2) := by
  have first : c.gate.peek env (c.src + (0 : Nat)) = (frame rq).getD 0 0 := peek_frame stands (by omega)
  rwa [Int.natCast_zero, Int.add_zero] at first

theorem peek_header (stands : frame rq <+: c.rest) (nonempty : rq ≠ []) :
    c.gate.peek env ((c.src : Int) + 1) = rq.headD 0 := by
  have second : c.gate.peek env (c.src + (1 : Nat)) = (frame rq).getD 1 0 := peek_frame stands (by omega)
  rw [Int.natCast_one] at second
  rw [second]
  cases rq with
  | nil => exact absurd rfl nonempty
  | cons header data => rfl

theorem peek_crc (stands : frame rq <+: c.rest) :
    c.gate.peek env (c.src + (((UInt8.ofNat (rq.length + 2)).toNat : Int) - 1)) =
      crc8P93N 0 (UInt8.ofNat (rq.length + 2) :: rq) := by
  have last : c.gate.peek env (c.src + (rq.length + 1 : Nat)) = (frame rq).getD (rq.length + 1) 0 :=
    peek_frame stands (by omega)
  have offset : (((UInt8.ofNat (rq.length + 2)).toNat : Int) - 1) = (rq.length + 1 : Nat) := by
    rw [lengthByte_toNat stands]
    omega
  rw [offset, last, frame_eq]
  simp

theorem peek_body (stands : frame rq <+: c.rest) :
    ((List.range (UInt8.ofNat (rq.length + 2) - 1).toNat).map fun k : Nat => c.gate.peek env (c.src + k)) =
      UInt8.ofNat (rq.length + 2) :: rq := by
  have short := frame_bound stands
  have byte := lengthByte_toNat stands
  have one : (1 : UInt8).toNat ≤ (UInt8.ofNat (rq.length + 2)).toNat := by
    rw [byte]
    exact Nat.succ_le_succ (Nat.zero_le _)
  have size : (UInt8.ofNat (rq.length + 2) - 1).toNat = rq.length + 1 := by
    rw [toNat_sub_of_toNat_le one, byte]
    rfl
  obtain ⟨more, hmore⟩ := stands
  rw [size, Call.map_peek_rest (by omega), ← hmore, frame_eq]
  simp

theorem peek_data (stands : frame rq <+: c.rest) (nonempty : rq ≠ []) :
    ((List.range (UInt8.ofNat (rq.length + 2) - 3).toNat).map
      fun k : Nat => c.gate.peek env (c.src + (2 + (k : Int)))) = rq.tail := by
  have byte := lengthByte_toNat stands
  have header : 0 < rq.length := List.length_pos_iff.mpr nonempty
  have three : (3 : UInt8).toNat ≤ (UInt8.ofNat (rq.length + 2)).toNat := by
    rw [byte]
    exact Nat.succ_le_succ (Nat.succ_le_succ header)
  have size : (UInt8.ofNat (rq.length + 2) - 3).toNat = rq.length - 1 := by
    rw [toNat_sub_of_toNat_le three, byte]
    rfl
  rw [size]
  apply List.ext_getElem
  · simp
  · intro k hk _
    rw [List.length_map, List.length_range] at hk
    have offset : (c.src : Int) + (2 + (k : Int)) = c.src + (k + 2 : Nat) := by omega
    rw [List.getElem_map, List.getElem_range, offset, peek_frame stands (by omega), List.getElem_tail, frame_eq,
      List.getD_eq_getElem?_getD, List.getElem?_cons_succ, List.getElem?_append_left (by omega),
      List.getElem?_eq_getElem (by omega), Option.getD_some]

/-- The call finds the length, the header, the data and the checksum that the host put in. -/
theorem dispatches_of_stands (h : c.At) (nonempty : rq ≠ []) (stands : frame rq <+: c.rest) :
    Dispatches env rq c := by
  have short := frame_bound stands
  have header : 0 < rq.length := List.length_pos_iff.mpr nonempty
  have byte := lengthByte_toNat stands
  have length := @peek_length env c rq stands
  have crc := (congrArg (crc8P93N 0) (@peek_body env c rq stands)).trans (@peek_crc env c rq stands).symm
  have fits : ¬ UInt8.ofNat (rq.length + 2) > c.maxLength := by
    rw [gt_iff_lt, UInt8.lt_iff_toNat_lt, h.maxLength, byte]
    omega
  have result : c.result env = (c.gate.dispatch (env.sendReady c.src) (rq.headD 0) (UInt8.ofNat (rq.length + 2))
      rq.tail, UInt8.ofNat (rq.length + 2)) := by
    unfold Call.result Gate.masterCommand
    simp only [h.not_short (by omega : 3 ≤ c.rest.length), Int.add_zero, length, fits, crc, ne_eq, not_true_eq_false,
      ↓reduceIte, peek_header stands nonempty, peek_data stands nonempty]
  refine ⟨h.running, stands, by rw [length]; exact crc, result, ?_⟩
  rw [result]
  apply Gate.dispatch_emits
  rw [byte, List.length_tail]
  omega

theorem headD_of_stands (stands : frame rq <+: c.rest) :
    c.rest.headD 0 = UInt8.ofNat (rq.length + 2) ∧ c.rest.headD 0 ≠ 0 := by
  have byte := lengthByte_toNat stands
  obtain ⟨more, hmore⟩ := stands
  have head : c.rest.headD 0 = UInt8.ofNat (rq.length + 2) := by
    rw [← hmore, frame_eq]
    rfl
  refine ⟨head, fun zero => ?_⟩
  rw [← head, zero] at byte
  exact absurd byte (by simp)

theorem three_le_of_stands (nonempty : rq ≠ []) (stands : frame rq <+: c.rest) : 3 ≤ c.rest.length := by
  have short := frame_bound stands
  have header : 0 < rq.length := List.length_pos_iff.mpr nonempty
  omega

/-- The 8-bit offset behind a frame does not wrap. -/
theorem noWrap_of_stands (h : c.At) (stands : frame rq <+: c.rest) : c.src + (c.rest.headD 0).toNat < 256 := by
  have short := frame_bound stands
  have bound := c.gate.twiIn.fits
  have length := c.rest_length
  have fits := h.fits
  rw [(headD_of_stands stands).1, lengthByte_toNat stands]
  simp only [commandMaxLength] at bound
  omega

/-- The loop goes on behind a frame if and only if there is more, as long as its command returns. -/
theorem last_iff_of_stands (h : c.At) (nonempty : rq ≠ []) (stands : frame rq <+: c.rest)
    (returns : Command.ofByte (rq.headD 0) ≠ some .reset ∧ Command.ofByte (rq.headD 0) ≠ some .flash) :
    c.Last env ↔ c.rest.length ≤ rq.length + 2 := by
  obtain ⟨head, zero⟩ := headD_of_stands stands
  have enough := three_le_of_stands nonempty stands
  have goesOn : ¬ Halts c.rest := by
    rw [← @Call.At.halts_iff env c h enough zero, (dispatches_of_stands h nonempty stands).result,
      Gate.dispatch_mode, h.running]
    split
    next reset => exact absurd reset returns.1
    next flash => exact absurd flash returns.2
    next => simp
  rw [h.last_iff enough zero (noWrap_of_stands h stands), head, lengthByte_toNat stands]
  simp only [goesOn, or_false]

/-- The next call stands behind the frame of this one. -/
theorem next_of_stands {behind : List UInt8} (h : c.At) (nonempty : rq ≠ []) (stands : c.rest = frame rq ++ behind)
    (more : ¬ c.Last env) : (c.next env).At ∧ (c.next env).rest = behind := by
  have front : frame rq <+: c.rest := ⟨behind, stands.symm⟩
  obtain ⟨head, zero⟩ := headD_of_stands front
  obtain ⟨at_, -, rest⟩ := h.next (three_le_of_stands nonempty front) zero (noWrap_of_stands h front) more
  refine ⟨at_, ?_⟩
  rw [rest, head, lengthByte_toNat front, stands, ← frame_length rq, List.drop_left]

/-- The commands of the requests one after another, each with its own data and, for the one
that starts a transaction, the UART as it then is. `src` is where the frame stands. -/
def dispatchAll (env : Surroundings) : (src : Nat) → List (List UInt8) → Gate → Gate
  | _, [], g => g
  | src, rq :: requests, g =>
    dispatchAll env (src + (rq.length + 2)) requests
      (g.dispatch (env.sendReady src) (rq.headD 0) (UInt8.ofNat (rq.length + 2)) rq.tail)

theorem dispatchAll_mode {requests : List (List UInt8)} {src : Nat} {g : Gate} (running : g.mode = .running)
    (returns : ∀ rq ∈ requests,
      Command.ofByte (rq.headD 0) ≠ some .reset ∧ Command.ofByte (rq.headD 0) ≠ some .flash) :
    (dispatchAll env src requests g).mode = .running := by
  induction requests generalizing src g with
  | nil => exact running
  | cons rq requests ih =>
    obtain ⟨this, later⟩ := List.forall_mem_cons.mp returns
    refine ih ?_ later
    rw [Gate.dispatch_mode, running]
    split
    next reset => exact absurd reset this.1
    next flash => exact absurd flash this.2
    next => rfl

/-- From a call that stands at a series of frames on, the loop makes one call for each and
leaves the gate as their commands do. -/
theorem packetCalls_frames {requests : List (List UInt8)} {n : Nat} (h : c.At) (some_frame : requests ≠ [])
    (stands : c.rest = requests.flatMap frame) (nonempty : ∀ rq ∈ requests, rq ≠ [])
    (returns : ∀ rq ∈ requests, Command.ofByte (rq.headD 0) ≠ some .reset ∧ Command.ofByte (rq.headD 0) ≠ some .flash)
    (turns : requests.length ≤ n) :
    List.Forall₂ (Dispatches env) requests (c.packetCalls env n) ∧
      (∀ d ∈ (c.packetCalls env n).getLast?, d.src + (d.result env).2.toNat = c.gate.twiIn.length ∧ d.Last env ∧
        (d.result env).1 = dispatchAll env c.src requests c.gate) := by
  induction requests generalizing c n with
  | nil => exact absurd rfl some_frame
  | cons rq requests ih =>
    obtain ⟨header, laterHeaders⟩ := List.forall_mem_cons.mp nonempty
    obtain ⟨this, later⟩ := List.forall_mem_cons.mp returns
    rw [List.flatMap_cons] at stands
    have front : frame rq <+: c.rest := ⟨requests.flatMap frame, stands.symm⟩
    have dispatched : Dispatches env rq c := dispatches_of_stands h header front
    have last := @last_iff_of_stands env c rq h header front this
    have total : c.rest.length = rq.length + 2 + (requests.flatMap frame).length := by
      rw [stands, List.length_append, frame_length]
    have consumed : (c.result env).2.toNat = rq.length + 2 := by
      rw [dispatched.result, lengthByte_toNat front]
    obtain ⟨m, rfl⟩ : ∃ m, n = m + 1 := ⟨n - 1, by simp only [List.length_cons] at turns; omega⟩
    cases requests with
    | nil =>
      have only : c.Last env := last.mpr (by rw [total]; simp)
      have calls : c.packetCalls env (m + 1) = [c] := by simp [Call.packetCalls, only]
      have fits := h.fits
      have length := c.rest_length
      have whole : c.rest.length = rq.length + 2 := by simpa using total
      rw [calls]
      refine ⟨List.Forall₂.cons dispatched List.Forall₂.nil, ?_⟩
      intro d mem
      obtain rfl : c = d := by simpa using mem
      refine ⟨by omega, only, ?_⟩
      rw [dispatched.result]
      rfl
    | cons rq' requests =>
      have more : ¬ c.Last env := by
        rw [last, total, List.flatMap_cons, List.length_append, frame_length]
        omega
      obtain ⟨at_, behind⟩ := next_of_stands h header stands more
      obtain ⟨calls, ends⟩ := ih at_ (by simp) behind laterHeaders later (by simpa using turns)
      have unfolded : c.packetCalls env (m + 1) = c :: (c.next env).packetCalls env m := by
        simp [Call.packetCalls, more]
      have someCall : (c.next env).packetCalls env m ≠ [] := by
        intro none
        rw [none] at calls
        cases calls
      rw [unfolded]
      refine ⟨List.Forall₂.cons dispatched calls, fun d mem => ?_⟩
      rw [List.getLast?_cons_of_ne_nil someCall] at mem
      have same : (c.next env).gate.twiIn = c.gate.twiIn := Call.result_twiIn env c
      have after : (c.next env).gate =
        c.gate.dispatch (env.sendReady c.src) (rq.headD 0) (UInt8.ofNat (rq.length + 2))
          rq.tail := congrArg Prod.fst dispatched.result
      have behind : (c.next env).src = c.src + (rq.length + 2) := congrArg (c.src + ·) consumed
      obtain ⟨total, last, result⟩ := ends d mem
      refine ⟨by rw [← same]; exact total, last, ?_⟩
      rw [result, behind, after]
      rfl

/-- The loop from its start, on frames that stand in `twi_in`. -/
theorem calls_frames {g : Gate} {requests : List (List UInt8)} (running : g.mode = .running)
    (received : g.twiIn.stored = requests.flatMap frame) (nonempty : ∀ rq ∈ requests, rq ≠ [])
    (returns : ∀ rq ∈ requests, Command.ofByte (rq.headD 0) ≠ some .reset ∧ Command.ofByte (rq.headD 0) ≠ some .flash)
    (turns : requests.length ≤ env.patience) :
    List.Forall₂ (Dispatches env) requests (g.calls env) ∧
      (∀ c ∈ (g.calls env).getLast?, c.src + (c.result env).2.toNat = g.twiIn.length ∧
        g.packetLoop env env.patience 0 0 = (c.result env).1) ∧
      g.takeCommands env = if requests = [] then g else
        { dispatchAll env 0 requests g with twiIn := (dispatchAll env 0 requests g).twiIn.clearFast } := by
  have size : g.twiIn.length = (requests.flatMap frame).length := by rw [← received, Buffer.stored_length]
  cases requests with
  | nil =>
    have none : g.twiIn.length = 0 := size
    have short : ¬ 2 ≤ g.twiIn.length := by omega
    unfold Gate.calls Gate.takeCommands
    rw [if_neg short, if_pos none, if_pos rfl]
    exact ⟨List.Forall₂.nil, by simp, rfl⟩
  | cons rq requests =>
    have more : 3 ≤ g.twiIn.length := by
      have header := List.length_pos_iff.mpr (nonempty rq List.mem_cons_self)
      rw [size, List.flatMap_cons, List.length_append, frame_length]
      omega
    have calls : g.calls env = Call.packetCalls env env.patience ⟨g, 0, 0⟩ := if_pos (by omega)
    obtain ⟨dispatched, ends⟩ := @packetCalls_frames env ⟨g, 0, 0⟩ (rq :: requests) env.patience
      ⟨rfl, Nat.zero_le _, running⟩ (by simp) received nonempty returns turns
    rw [calls]
    have some_call : Call.packetCalls env env.patience ⟨g, 0, 0⟩ ≠ [] := by
      intro none
      rw [none] at dispatched
      cases dispatched
    obtain ⟨d, found⟩ : ∃ d, (Call.packetCalls env env.patience ⟨g, 0, 0⟩).getLast? = some d :=
      ⟨_, List.getLast?_eq_some_getLast some_call⟩
    obtain ⟨total, last, result⟩ := ends d found
    have loop : g.packetLoop env env.patience 0 0 = (d.result env).1 :=
      (Call.packetLoop_last found).trans (if_pos last)
    refine ⟨dispatched, fun c mem => ?_, ?_⟩
    · obtain rfl : d = c := Option.some.inj (found.symm.trans mem)
      exact ⟨total, loop⟩
    · have some_bytes : ¬ g.twiIn.length = 0 := by omega
      have more_bytes : ¬ g.twiIn.length = 1 := by omega
      unfold Gate.takeCommands
      simp only [if_neg some_bytes, if_neg more_bytes, loop, result]
      rw [if_neg (not_not.mpr (dispatchAll_mode running returns)), if_neg (by simp)]

/-- The interrupts of one write to the slave, with what TWDR holds at its START and STOP. -/
def oneWrite (sla : UInt8) (bs : List UInt8) (stop : UInt8) : List Event :=
  .twi .srSlaAck sla :: (bs.map (Event.twi .srDataAck) ++ [.twi .srStop stop])

/-- The events of a run that are not of the MDB engine. -/
def busEvents (es : List Event) : List Event := es.filter fun e => !e.mdb

theorem busEvents_mdb {e : Event} (mdb : e.mdb = true) (es : List Event) : busEvents (e :: es) = busEvents es := by
  simp [busEvents, mdb]

theorem busEvents_bus {e : Event} (bus : e.mdb = false) (es : List Event) :
    busEvents (e :: es) = e :: busEvents es := by
  simp [busEvents, bus]

theorem bus_of_quiet {g g' : Gate} {es : List Event} (quiet : busEvents es = [])
    (reached : Runs.run Firmware.step g es = some g') : g'.bus = g.bus := by
  induction es generalizing g with
  | nil => rw [Option.some.inj reached]
  | cons e es ih =>
    obtain ⟨g₁, hstep, hrest⟩ := Runs.run_cons.mp reached
    cases mdb : e.mdb with
    | true =>
      rw [busEvents_mdb mdb] at quiet
      exact (ih quiet hrest).trans (step_bus hstep mdb)
    | false =>
      rw [busEvents_bus mdb] at quiet
      cases quiet

theorem bus_fields {g g' : Gate} (same : g'.bus = g.bus) : g'.mode = g.mode ∧ g'.twiIn = g.twiIn := by
  simp only [Gate.bus, Prod.mk.injEq] at same
  exact ⟨same.1, same.2.2.2.2⟩

/-- The bytes of a write and its STOP, with steps of the MDB engine in between. -/
theorem received_of_data {g g' : Gate} {bs : List UInt8} {stop : UInt8} {es : List Event}
    (data : busEvents es = bs.map (Event.twi .srDataAck) ++ [.twi .srStop stop])
    (reached : Runs.run Firmware.step g es = some g') (room : g.twiIn.length + bs.length ≤ commandMaxLength) :
    g'.mode = g.mode ∧ g'.twiIn.stored = g.twiIn.stored ++ bs := by
  induction es generalizing g bs with
  | nil =>
    have size := congrArg List.length data
    simp [busEvents] at size
  | cons e es ih =>
    obtain ⟨g₁, hstep, hrest⟩ := Runs.run_cons.mp reached
    cases mdb : e.mdb with
    | true =>
      rw [busEvents_mdb mdb] at data
      obtain ⟨mode, twiIn⟩ := bus_fields (step_bus hstep mdb)
      obtain ⟨mode', stored⟩ := ih data hrest (by rw [twiIn]; exact room)
      exact ⟨mode'.trans mode, by rw [stored, twiIn]⟩
    | false =>
      rw [busEvents_bus mdb] at data
      cases bs with
      | nil =>
        obtain ⟨rfl, quiet⟩ := List.cons.inj data
        obtain ⟨_, rfl⟩ := enabled_step hstep
        obtain ⟨mode, twiIn⟩ := bus_fields (bus_of_quiet quiet hrest)
        exact ⟨mode, by rw [twiIn, List.append_nil]; rfl⟩
      | cons b bs =>
        rw [List.map_cons, List.cons_append] at data
        obtain ⟨rfl, rest⟩ := List.cons.inj data
        obtain ⟨_, rfl⟩ := enabled_step hstep
        rw [List.length_cons] at room
        obtain ⟨out, taken, stored⟩ := Buffer.append_of_room (b := g.twiIn) b (by omega)
        have twiIn : (g.twiVect .srDataAck b).twiIn = out := by
          change (g.twiIn.append b).getD g.twiIn = out
          rw [taken, Option.getD_some]
        have length := Buffer.length_of_stored stored
        rw [List.length_singleton] at length
        obtain ⟨mode, stored'⟩ := ih rest hrest (by rw [twiIn]; omega)
        refine ⟨mode, ?_⟩
        rw [stored', twiIn, stored, List.append_assoc, List.singleton_append]

theorem received_of_oneWrite {g g' : Gate} {bs : List UInt8} {sla stop : UInt8} {es : List Event}
    (written : busEvents es = oneWrite sla bs stop) (reached : Runs.run Firmware.step g es = some g')
    (fits : bs.length ≤ commandMaxLength) : g'.mode = g.mode ∧ g'.twiIn.stored = bs := by
  induction es generalizing g with
  | nil => cases written
  | cons e es ih =>
    obtain ⟨g₁, hstep, hrest⟩ := Runs.run_cons.mp reached
    cases mdb : e.mdb with
    | true =>
      rw [busEvents_mdb mdb] at written
      obtain ⟨mode, _⟩ := bus_fields (step_bus hstep mdb)
      obtain ⟨mode', stored⟩ := ih written hrest
      exact ⟨mode'.trans mode, stored⟩
    | false =>
      rw [busEvents_bus mdb] at written
      obtain ⟨rfl, data⟩ := List.cons.inj written
      obtain ⟨_, rfl⟩ := enabled_step hstep
      have cleared : (g.twiVect .srSlaAck sla).twiIn.length = 0 := rfl
      obtain ⟨mode, stored⟩ := received_of_data data hrest (by omega)
      refine ⟨mode, ?_⟩
      rw [stored, Buffer.stored_of_empty cleared, List.nil_append]

/-- One write of frames, whatever the MDB engine does meanwhile: the packet loop
of `twi_step` hands over each request as the host framed it, ends with the last byte of the
write, and leaves the gate as the commands of the requests leave it. -/
theorem frames_dispatched {g g' : Gate} {requests : List (List UInt8)} {sla stop : UInt8} {es : List Event}
    (nonempty : ∀ rq ∈ requests, rq ≠ [])
    (returns : ∀ rq ∈ requests, Command.ofByte (rq.headD 0) ≠ some .reset ∧ Command.ofByte (rq.headD 0) ≠ some .flash)
    (fits : (requests.flatMap frame).length ≤ commandMaxLength) (running : g.mode = .running)
    (written : busEvents es = oneWrite sla (requests.flatMap frame) stop)
    (reached : Runs.run Firmware.step g es = some g') (turns : requests.length ≤ env.patience) :
    List.Forall₂ (Dispatches env) requests (g'.calls env) ∧
      (∀ c ∈ (g'.calls env).getLast?, c.src + (c.result env).2.toNat = (requests.flatMap frame).length ∧
        g'.packetLoop env env.patience 0 0 = (c.result env).1) ∧
      g'.takeCommands env = if requests = [] then g' else
        { dispatchAll env 0 requests g' with twiIn := (dispatchAll env 0 requests g').twiIn.clearFast } := by
  obtain ⟨mode, stored⟩ := received_of_oneWrite written reached fits
  have size : g'.twiIn.length = (requests.flatMap frame).length := by rw [← stored, Buffer.stored_length]
  rw [← size]
  exact calls_frames (mode.trans running) stored nonempty returns turns

/-- `Poll` and an `MDB_Bus_Reset` in one write, with a byte of a peripheral in the middle of it. -/
def pollThenReset : List (List UInt8) := [[0x01], [0x07, 0x00, 0xc8]]

def pollThenResetWrite : List Event :=
  .usartRx 0 0x55 false :: oneWrite 0x78 (pollThenReset.flatMap frame) 0

def quietSurroundings : Surroundings where
  memory := fun _ => 0
  sendReady := fun _ => true
  patience := 100

def booted : Gate := .boot 0x01 ⟨[], [], []⟩

theorem pollThenReset_dispatched :
    ∃ g', Runs.run Firmware.step booted pollThenResetWrite = some g' ∧
      List.Forall₂ (Dispatches quietSurroundings) pollThenReset (g'.calls quietSurroundings) ∧
      g'.takeCommands quietSurroundings = if pollThenReset = [] then g' else
        { dispatchAll quietSurroundings 0 pollThenReset g' with
          twiIn := (dispatchAll quietSurroundings 0 pollThenReset g').twiIn.clearFast } := by
  have some_state : (Runs.run Firmware.step booted pollThenResetWrite).isSome := by decide +kernel
  obtain ⟨g', reached⟩ := Option.isSome_iff_exists.mp some_state
  have dispatched := @frames_dispatched quietSurroundings booted g' pollThenReset 0x78 0 pollThenResetWrite
    (by decide) (by decide) (by decide) rfl rfl reached (by decide)
  exact ⟨g', reached, dispatched.1, dispatched.2.2⟩

end Mega

end Vender
