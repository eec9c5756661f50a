import Vender.Firmware.Accesses

namespace Vender.Firmware

namespace Buffer

variable {size : Nat} {name : BufferName} {a : Access}

theorem ext_of_data {b b' : Buffer size} (data : b.data = b'.data) (length : b.length = b'.length)
    (used : b.used = b'.used) : b = b' := by
  cases b
  cases b'
  cases data
  cases length
  cases used
  rfl

/-- The buffer with another byte in its storage, if the access is one to this buffer. -/
def poke (name : BufferName) (a : Access) (v : UInt8) (b : Buffer size) : Buffer size :=
  { b with
    data := if a.buffer = name then b.data.set a.index v else b.data
    sized := by
      split
      · rw [List.length_set, b.sized]
      · exact b.sized }

@[simp] theorem poke_length (v : UInt8) (b : Buffer size) : (b.poke name a v).length = b.length := rfl

@[simp] theorem poke_used (v : UInt8) (b : Buffer size) : (b.poke name a v).used = b.used := rfl

/-- A poke beyond the storage, or with the byte that is there. -/
theorem poke_of_same {v : UInt8} {b : Buffer size} (same : a.buffer = name → ∀ old ∈ b.data[a.index]?, old = v) :
    b.poke name a v = b := by
  refine ext_of_data ?_ rfl rfl
  unfold poke
  split
  next own =>
    apply List.ext_getElem?
    intro i
    rw [List.getElem?_set]
    split
    next here =>
      subst here
      split
      next inside =>
        have old := same own (b.data[a.index]) (by rw [List.getElem?_eq_getElem inside, Option.mem_some])
        rw [List.getElem?_eq_getElem inside, old]
      next outside => rw [List.getElem?_eq_none (Nat.not_lt.mp outside)]
    next => rfl
  next => rfl

theorem poke_of_out {v : UInt8} {b : Buffer size} (out : a.buffer = name → size ≤ a.index) : b.poke name a v = b := by
  refine poke_of_same fun own old there => ?_
  rw [List.getElem?_eq_none (by rw [b.sized]; exact out own)] at there
  cases there

theorem read_poke {v : UInt8} {b : Buffer size} {i : Nat} (inside : i < size) (out : a ≠ ⟨name, i⟩) :
    (b.poke name a v).read i inside = b.read i inside := by
  rw [read_eq_getD, read_eq_getD]
  unfold poke
  split
  next own =>
    have other : a.index ≠ i := by
      rintro rfl
      exact out (by rw [← own])
    rw [List.getD_eq_getElem?_getD, List.getD_eq_getElem?_getD, List.getElem?_set_ne other]
  next => rfl

theorem stored_poke {v : UInt8} {b : Buffer size} (out : ∀ i < b.length, a ≠ ⟨name, i⟩) :
    (b.poke name a v).stored = b.stored := by
  unfold stored poke
  split
  next own =>
    refine List.take_set_of_le (Nat.not_lt.mp fun received => ?_)
    exact out a.index received (by rw [← own])
  next => rfl

theorem clearFull_poke {v : UInt8} {b : Buffer size} (out : a ∉ b.clearFullAccesses name) :
    (b.poke name a v).clearFull = b.clearFull.poke name a v := by
  have past : a.buffer = name → size ≤ a.index := by
    rintro rfl
    by_contra small
    exact out (List.mem_map.mpr ⟨a.index, List.mem_range.mpr (Nat.not_le.mp small), rfl⟩)
  rw [poke_of_out past, poke_of_out past]

theorem append_poke {v : UInt8} {b : Buffer size} (data : UInt8) (out : a ∉ b.appendAccesses name) :
    (b.poke name a v).append data = (b.append data).map (poke name a v) := by
  unfold append
  unfold appendAccesses at out
  by_cases full : b.length + 1 > size
  · rw [dif_pos (show (b.poke name a v).length + 1 > size from full), dif_pos full, Option.map_none]
  · rw [dif_neg (show ¬ (b.poke name a v).length + 1 > size from full), dif_neg full, Option.map_some]
    rw [if_neg full, List.mem_singleton] at out
    refine congrArg some (ext_of_data ?_ rfl rfl)
    unfold poke
    dsimp only
    split
    next own =>
      refine List.set_comm _ _ fun same => out ?_
      rw [← own, ← same]
    next => rfl

theorem append_getD_poke {v : UInt8} {b : Buffer size} (data : UInt8) (out : a ∉ b.appendAccesses name) :
    ((b.poke name a v).append data).getD (b.poke name a v) = ((b.append data).getD b).poke name a v := by
  rw [append_poke data out]
  cases b.append data <;> rfl

theorem overwrite_set {data src : List UInt8} {at_ i : Nat} (v : UInt8) (room : at_ + src.length ≤ data.length)
    (out : i < at_ ∨ at_ + src.length ≤ i) : overwrite (data.set i v) at_ src = (overwrite data at_ src).set i v := by
  have before : (data.take at_).length = at_ := by
    rw [List.length_take]
    omega
  unfold overwrite
  rcases out with less | past
  · have inside : i < (data.take at_).length := by omega
    rw [List.append_assoc, List.append_assoc, List.set_append_left _ _ inside, List.take_set,
      List.drop_set_of_lt (by omega)]
  · have outside : (data.take at_ ++ src).length ≤ i := by
      rw [List.length_append]
      omega
    rw [List.set_append_right _ _ outside, List.take_set_of_le (by omega), List.drop_set,
      if_neg (by omega), List.length_append, before]

theorem appendN_poke {v : UInt8} {b : Buffer size} (src : List UInt8) (out : a ∉ b.appendNAccesses name src.length) :
    (b.poke name a v).appendN src = (b.appendN src).map (poke name a v) := by
  unfold appendN
  unfold appendNAccesses at out
  by_cases full : b.length + src.length > size
  · rw [dif_pos (show (b.poke name a v).length + src.length > size from full), dif_pos full, Option.map_none]
  · rw [dif_neg (show ¬ (b.poke name a v).length + src.length > size from full), dif_neg full, Option.map_some]
    rw [if_neg full] at out
    refine congrArg some (ext_of_data ?_ rfl rfl)
    unfold poke
    dsimp only
    split
    next own =>
      refine overwrite_set v (by rw [b.sized]; omega) ?_
      by_contra inside
      refine out (List.mem_map.mpr ⟨a.index - b.length, List.mem_range.mpr (by omega), ?_⟩)
      rw [← own, show b.length + (a.index - b.length) = a.index by omega]
    next => rfl

theorem appendN_getD_poke {v : UInt8} {b : Buffer size} (src : List UInt8)
    (out : a ∉ b.appendNAccesses name src.length) :
    ((b.poke name a v).appendN src).getD (b.poke name a v) = ((b.appendN src).getD b).poke name a v := by
  rw [appendN_poke src out]
  cases b.appendN src <;> rfl

theorem copy_poke {v : UInt8} {b : Buffer size} (src : List UInt8) (out : a ∉ b.copyAccesses name src.length) :
    (b.poke name a v).copy src = (b.copy src).poke name a v := by
  refine ext_of_data ?_ rfl rfl
  unfold copyAccesses at out
  unfold copy poke
  dsimp only
  have short := List.length_take_le (if src.length < size then src.length else size) src
  have small : (if src.length < size then src.length else size) ≤ size := by split <;> omega
  split
  next own =>
    refine overwrite_set v (by rw [b.sized]; omega) (Or.inr (Nat.not_lt.mp fun inside => ?_))
    exact out (List.mem_map.mpr ⟨a.index, List.mem_range.mpr (by omega), by rw [← own]⟩)
  next => rfl

end Buffer

namespace Gate

/-- The bytes that a buffer's `data` points to. -/
def storage (g : Gate) : BufferName → List UInt8
  | .twiIn => g.twiIn.data
  | .twiOut => g.twiOut.data
  | .masterOut => g.masterOut.data
  | .mdbIn => g.mdbIn.data
  | .mdbOut => g.mdbOut.data

theorem storage_length (g : Gate) (name : BufferName) : (g.storage name).length = name.size := by
  cases name with
  | twiIn => exact g.twiIn.sized
  | twiOut => exact g.twiOut.sized
  | masterOut => exact g.masterOut.sized
  | mdbIn => exact g.mdbIn.sized
  | mdbOut => exact g.mdbOut.sized

/-- The gate with another byte in the storage of a buffer. -/
def poke (a : Access) (v : UInt8) (g : Gate) : Gate :=
  { g with
    twiIn := g.twiIn.poke .twiIn a v
    twiOut := g.twiOut.poke .twiOut a v
    masterOut := g.masterOut.poke .masterOut a v
    mdbIn := g.mdbIn.poke .mdbIn a v
    mdbOut := g.mdbOut.poke .mdbOut a v }

variable {a : Access} {v : UInt8} {g : Gate}

@[simp] theorem poke_mode : (g.poke a v).mode = g.mode := rfl

@[simp] theorem poke_mdbState : (g.poke a v).mdbState = g.mdbState := rfl

@[simp] theorem poke_mdbFastErrorCode : (g.poke a v).mdbFastErrorCode = g.mdbFastErrorCode := rfl

@[simp] theorem poke_mdbInLastByte : (g.poke a v).mdbInLastByte = g.mdbInLastByte := rfl

@[simp] theorem poke_mdbInChecksum : (g.poke a v).mdbInChecksum = g.mdbInChecksum := rfl

@[simp] theorem poke_mdbStateRetry : (g.poke a v).mdbStateRetry = g.mdbStateRetry := rfl

@[simp] theorem poke_twiIn : (g.poke a v).twiIn = g.twiIn.poke .twiIn a v := rfl

@[simp] theorem poke_twiOut : (g.poke a v).twiOut = g.twiOut.poke .twiOut a v := rfl

@[simp] theorem poke_masterOut : (g.poke a v).masterOut = g.masterOut.poke .masterOut a v := rfl

@[simp] theorem poke_mdbIn : (g.poke a v).mdbIn = g.mdbIn.poke .mdbIn a v := rfl

@[simp] theorem poke_mdbOut : (g.poke a v).mdbOut = g.mdbOut.poke .mdbOut a v := rfl

theorem timer0Stop_poke : (g.poke a v).timer0Stop = g.timer0Stop.poke a v := rfl

theorem twiOutSet2_poke (header : Response) (data : UInt8) (out : a ∉ g.twiOutSet2Accesses) :
    (g.poke a v).twiOutSet2 header data = (g.twiOutSet2 header data).poke a v := by
  unfold twiOutSet2
  dsimp only
  rw [poke_twiOut, Buffer.copy_poke _ out]
  rfl

theorem masterOutPacket_poke (header : Response) (data packet : List UInt8) (length : UInt8)
    (out : a ∉ g.masterOutPacketAccesses packet.length) :
    (g.poke a v).masterOutPacket header data packet length =
      (g.masterOutPacket header data packet length).poke a v := by
  rw [masterOutPacketAccesses, List.mem_append, not_or] at out
  unfold masterOutPacket
  rw [poke_masterOut, Buffer.appendN_poke packet out.1]
  cases taken : g.masterOut.appendN packet with
  | some => rfl
  | none =>
    have full := Buffer.appendN_eq_none.mp taken
    exact twiOutSet2_poke _ _ (by rw [if_pos full] at out; exact out.2)

theorem masterOut1_poke (header : Response) (out : a ∉ g.masterOutPacketAccesses 3) :
    (g.poke a v).masterOut1 header = (g.masterOut1 header).poke a v :=
  masterOutPacket_poke header [] [3, header.code, _] _ out

theorem masterOut2_poke (header : Response) (data : UInt8) (out : a ∉ g.masterOutPacketAccesses 4) :
    (g.poke a v).masterOut2 header data = (g.masterOut2 header data).poke a v :=
  masterOutPacket_poke header [data] [4, header.code, data, _] _ out

/-- `source` is where the data come from; with no room for them only their number counts. -/
theorem masterOutN_poke {source : List Access} (header : Response) {data data' : List UInt8}
    (size : data'.length = data.length) (same : a ∉ source → data' = data)
    (out : a ∉ g.masterOutNAccesses source header data) :
    (g.poke a v).masterOutN header data' = (g.masterOutN header data).poke a v := by
  unfold masterOutNAccesses at out
  unfold masterOutN
  dsimp only at out ⊢
  rw [poke_masterOut, Buffer.poke_length, size]
  split at out
  next full =>
    rw [if_pos full, if_pos full]
    exact twiOutSet2_poke _ _ out
  next room =>
    rw [if_neg room, if_neg room]
    simp only [List.mem_append, not_or] at out
    obtain ⟨⟨⟨⟨length, code⟩, read, bytes⟩, _⟩, crc⟩ := out
    rw [same read, Buffer.append_getD_poke _ length, Buffer.append_getD_poke _ code, Buffer.appendN_getD_poke _ bytes,
      Buffer.append_getD_poke _ crc]
    rfl

theorem mdbReset_poke (out : a ∉ g.mdbResetAccesses) : (g.poke a v).mdbReset = g.mdbReset.poke a v := by
  rw [mdbResetAccesses, List.mem_append, not_or] at out
  have mdbIn : (g.timer0Stop.poke a v).mdbIn.clearFull = g.mdbIn.clearFull.poke .mdbIn a v :=
    Buffer.clearFull_poke out.1
  have mdbOut : (g.timer0Stop.poke a v).mdbOut.clearFull = g.mdbOut.clearFull.poke .mdbOut a v :=
    Buffer.clearFull_poke out.2
  change { (g.timer0Stop.poke a v) with
    mdbFastErrorCode := none, mdbIn := (g.timer0Stop.poke a v).mdbIn.clearFull
    mdbOut := (g.timer0Stop.poke a v).mdbOut.clearFull, mdbInChecksum := 0, mdbInLastByte := 0, mdbState := .idle
    mdbStateRetry := false } = _
  rw [mdbIn, mdbOut]
  rfl

/-- A response and `mdb_reset` behind it. -/
theorem mdbFinish_poke {as : List Access} {g₁ g₂ : Gate} (out : a ∉ as ++ g.mdbResetAccesses)
    (answer : a ∉ as → g₂ = g₁.poke a v) : g₂.mdbReset = g₁.mdbReset.poke a v := by
  rw [List.mem_append, not_or] at out
  rw [answer out.1]
  exact mdbReset_poke out.2

theorem mdbStartSend_poke (ready : Bool) (out : a ∉ g.mdbStartSendAccesses ready) :
    (g.poke a v).mdbStartSend ready = (g.mdbStartSend ready).poke a v := by
  cases ready with
  | false => exact mdbFinish_poke out (masterOut2_poke _ _)
  | true =>
    have first : (g.poke a v).mdbOut.read 0 (Nat.zero_lt_succ _) = g.mdbOut.read 0 (Nat.zero_lt_succ _) :=
      Buffer.read_poke _ fun same => out (by rw [same]; exact List.mem_cons_self)
    unfold mdbStartSend
    dsimp only
    rw [if_neg (by simp), if_neg (by simp)]
    change { setUdr0 ((g.poke a v).mdbOut.read 0 (Nat.zero_lt_succ _))
        { (g.poke a v).timer0Set mdbTimeout with mdbState := .send, mdbStateRetry := false, txb80 := true } with
      txb80 := false, mdbOut := { (g.poke a v).mdbOut with used := 1 }, udrie0 := true } = _
    rw [first]
    rfl

theorem mdbStep_poke (out : a ∉ g.mdbStepAccesses) : (g.poke a v).mdbStep = g.mdbStep.poke a v := by
  unfold mdbStepAccesses at out
  unfold mdbStep
  rw [poke_mdbFastErrorCode, poke_mdbState, poke_mdbIn, Buffer.poke_length, poke_mdbInLastByte, poke_mdbInChecksum,
    poke_mdbStateRetry]
  cases failed : g.mdbFastErrorCode with
  | some code =>
    rw [failed] at out
    exact mdbFinish_poke out (masterOutN_poke code rfl fun _ => rfl)
  | none =>
    rw [failed] at out
    cases state : g.mdbState with
    | recvEnd =>
      rw [state] at out
      dsimp only at out ⊢
      by_cases empty : g.mdbIn.length = 0
      · rw [if_pos empty] at out ⊢
        by_cases ack : g.mdbInLastByte = mdbAck
        · rw [if_pos ack] at out ⊢
          rw [if_pos empty, if_pos ack]
          exact mdbFinish_poke out (masterOut1_poke _)
        · rw [if_neg ack] at out ⊢
          rw [if_pos empty, if_neg ack]
          split
          · exact mdbFinish_poke out (masterOut2_poke _ _)
          · exact mdbFinish_poke out (masterOut2_poke _ _)
      · rw [if_neg empty] at out ⊢
        rw [if_neg empty]
        by_cases wrong : g.mdbInLastByte ≠ g.mdbInChecksum
        · rw [if_pos wrong] at out ⊢
          rw [if_pos wrong]
          by_cases again : g.mdbStateRetry = true
          · rw [if_pos again] at out ⊢
            rw [if_pos again]
            exact mdbFinish_poke out fun out => @masterOut2_poke a v (g.setUdr0 mdbNak) _ _ out
          · rw [if_neg again, if_neg again]
            rfl
        · rw [if_neg wrong] at out ⊢
          rw [if_neg wrong]
          refine mdbFinish_poke out fun out => @masterOutN_poke a v (g.setUdr0 mdbAck) _ .mdbSuccess _ _ ?_ ?_ out
          · rw [Buffer.stored_length, Buffer.stored_length]
            rfl
          · intro unread
            refine Buffer.stored_poke fun i received same => unread ?_
            exact List.mem_map.mpr ⟨i, List.mem_range.mpr received, same.symm⟩
    | _ => rfl

theorem usartRx_poke (err data : UInt8) (bit9 : Bool) (out : a ∉ g.usartRxAccesses err bit9) :
    (g.poke a v).usartRx err data bit9 = (g.usartRx err data bit9).poke a v := by
  change a ∉ g.timer0Stop.usartRxAccesses err bit9 at out
  unfold usartRxAccesses at out
  unfold usartRx
  rw [timer0Stop_poke]
  generalize g.timer0Stop = g at out ⊢
  dsimp only
  by_cases fault : err ≠ 0
  · rw [if_pos fault, if_pos fault]
    rfl
  · rw [if_neg fault] at out
    rw [if_neg fault, if_neg fault]
    by_cases other : g.mdbState ≠ .recv
    · rw [if_pos other]
      exact if_pos other
    · rw [if_neg other] at out ⊢
      refine (if_neg other).trans ?_
      cases bit9 with
      | true => rfl
      | false =>
        rw [if_neg (by simp)] at out
        rw [if_neg (by simp), if_neg (by simp), poke_mdbIn, Buffer.append_poke data out]
        cases g.mdbIn.append data <;> rfl

theorem usartUdre_poke (out : a ∉ g.usartUdreAccesses) : (g.poke a v).usartUdre = g.usartUdre.poke a v := by
  unfold usartUdreAccesses at out
  unfold usartUdre
  dsimp only
  by_cases sent : g.mdbOut.used ≥ g.mdbOut.length
  · rw [dif_pos (show (g.poke a v).timer0Stop.mdbOut.used ≥ (g.poke a v).timer0Stop.mdbOut.length from sent),
      dif_pos (show g.timer0Stop.mdbOut.used ≥ g.timer0Stop.mdbOut.length from sent)]
    rfl
  · rw [if_neg sent, List.mem_singleton] at out
    have inside : g.mdbOut.used < mdbPacketSize := g.mdbOut.lt_size_of_lt_length (Nat.not_le.mp sent)
    have byte : (g.poke a v).timer0Stop.mdbOut.read g.mdbOut.used inside = g.mdbOut.read g.mdbOut.used inside :=
      Buffer.read_poke inside out
    rw [dif_neg (show ¬ (g.poke a v).timer0Stop.mdbOut.used ≥ (g.poke a v).timer0Stop.mdbOut.length from sent),
      dif_neg (show ¬ g.timer0Stop.mdbOut.used ≥ g.timer0Stop.mdbOut.length from sent)]
    change timer0Set mdbTimeout (setUdr0 ((g.poke a v).timer0Stop.mdbOut.read g.mdbOut.used inside) _) = _
    rw [byte]
    by_cases last : g.mdbOut.used + 1 = g.mdbOut.length
    · rw [if_pos (show (g.poke a v).timer0Stop.mdbOut.used + 1 = (g.poke a v).timer0Stop.mdbOut.length from last),
        if_pos (show g.timer0Stop.mdbOut.used + 1 = g.timer0Stop.mdbOut.length from last)]
      rfl
    · rw [if_neg (show ¬ (g.poke a v).timer0Stop.mdbOut.used + 1 = (g.poke a v).timer0Stop.mdbOut.length from last),
        if_neg (show ¬ g.timer0Stop.mdbOut.used + 1 = g.timer0Stop.mdbOut.length from last)]
      rfl

theorem timer0Ovf_poke : (g.poke a v).timer0Ovf = g.timer0Ovf.poke a v := by
  unfold timer0Ovf
  dsimp only
  rw [show (g.poke a v).timer0Stop.mdbState = g.timer0Stop.mdbState from rfl]
  cases g.timer0Stop.mdbState <;> rfl

theorem mdbBusReset_poke (data : List UInt8) (out : a ∉ g.masterOutPacketAccesses 3) :
    (g.poke a v).mdbBusReset data = (g.mdbBusReset data).poke a v := by
  unfold mdbBusReset
  rw [poke_mdbState]
  split
  · exact masterOut1_poke _ out
  · split
    · exact masterOut1_poke _ out
    · exact @masterOut1_poke a v (timer0Set _ { g with mdbState := .busReset, txen0 := false }) .mdbStarted out

theorem mdbBlock_poke (data : List UInt8)
    (out : a ∉ g.mdbOut.clearFull.clearFullAccesses .mdbOut ++
      g.mdbOut.clearFull.appendNAccesses .mdbOut data.length ++
        ((g.mdbOut.clearFull.appendN data).getD g.mdbOut.clearFull).appendAccesses .mdbOut) :
    (g.poke a v).mdbBlock data = (g.mdbBlock data).poke .mdbOut a v := by
  simp only [List.mem_append, not_or] at out
  obtain ⟨⟨clear, bytes⟩, sum⟩ := out
  have cleared : (g.mdbOut.poke .mdbOut a v).clearFull = g.mdbOut.clearFull.poke .mdbOut a v :=
    Buffer.clearFull_poke clear
  unfold mdbBlock
  dsimp only
  rw [poke_mdbOut, cleared, Buffer.appendN_getD_poke _ bytes, Buffer.append_getD_poke _ sum]

theorem mdbTransactionSimple_poke (ready : Bool) (data : List UInt8)
    (out : a ∉ g.mdbTransactionSimpleAccesses ready data) :
    (g.poke a v).mdbTransactionSimple ready data = (g.mdbTransactionSimple ready data).poke a v := by
  unfold mdbTransactionSimpleAccesses at out
  by_cases busy : g.mdbState ≠ .idle
  · rw [if_pos busy] at out
    rw [mdbTransactionSimple, mdbTransactionSimple, if_pos (show (g.poke a v).mdbState ≠ .idle from busy),
      if_pos busy]
    exact masterOut1_poke _ out
  · rw [if_neg busy] at out
    dsimp only at out
    rw [List.mem_append, List.mem_append, not_or, not_or] at out
    obtain ⟨⟨block, start⟩, answer⟩ := out
    rw [mdbTransactionSimple_of_idle _ _ (show (g.poke a v).mdbState = .idle from not_not.mp busy),
      mdbTransactionSimple_of_idle _ _ (not_not.mp busy), mdbBlock_poke data block]
    have sends : mdbStartSend ready { g.poke a v with mdbOut := (g.mdbBlock data).poke .mdbOut a v } =
        (mdbStartSend ready { g with mdbOut := g.mdbBlock data }).poke a v :=
      @mdbStartSend_poke a v { g with mdbOut := g.mdbBlock data } ready start
    rw [sends]
    exact masterOut1_poke _ answer

theorem dispatch_poke (ready : Bool) (header length : UInt8) (data : List UInt8)
    (out : a ∉ g.dispatchAccesses ready header length data) :
    (g.poke a v).dispatch ready header length data = (g.dispatch ready header length data).poke a v := by
  unfold dispatchAccesses at out
  unfold dispatch
  cases known : Command.ofByte header with
  | none =>
    rw [known] at out
    exact masterOut1_poke _ out
  | some command =>
    rw [known] at out
    cases command with
    | poll =>
      dsimp only at out ⊢
      split at out
      next other =>
        rw [if_pos other, if_pos other]
        exact masterOut2_poke _ _ out
      next other =>
        rw [if_neg other, if_neg other]
    | config => exact @masterOut1_poke a v { g with mcusrSaved := 0 } .notImplemented out
    | reset | flash => rfl
    | debug => exact masterOutN_poke .debug rfl (fun _ => rfl) out
    | mdbBusReset => exact mdbBusReset_poke data out
    | mdbTransactionSimple => exact mdbTransactionSimple_poke ready data out
    | mdbTransactionCustom => exact masterOut1_poke _ out

theorem peek_poke {env : Surroundings} {offset : Int}
    (out : a ∉ (List.range commandMaxLength).map (Access.mk .twiIn)) :
    (g.poke a v).peek env offset = g.peek env offset := by
  unfold peek
  split
  next inside =>
    refine Buffer.read_poke _ fun same => out ?_
    rw [same]
    exact List.mem_map.mpr ⟨offset.toNat, List.mem_range.mpr (toNat_lt_commandMaxLength inside), rfl⟩
  next => rfl

end Gate

namespace Call

variable {a : Access} {v : UInt8} {env : Surroundings}

def poke (a : Access) (v : UInt8) (c : Call) : Call := { c with gate := c.gate.poke a v }

theorem result_poke {c : Call} (out : a ∉ c.accesses env) :
    (c.poke a v).result env = ((c.result env).1.poke a v, (c.result env).2) := by
  unfold accesses at out
  dsimp only at out
  rw [List.mem_append, not_or] at out
  obtain ⟨command, out⟩ := out
  have peek (k : Int) : (c.gate.poke a v).peek env (c.src + k) = c.gate.peek env (c.src + k) := Gate.peek_poke command
  unfold result Gate.masterCommand
  dsimp only [poke]
  simp only [peek]
  change (if c.maxLength < 3 then _ else _) = _
  by_cases short : c.maxLength < 3
  · rw [if_pos short] at out ⊢
    rw [if_pos short, Gate.masterOut2_poke _ _ out]
    rfl
  · rw [if_neg short] at out ⊢
    rw [if_neg short]
    change (if c.gate.peek env (c.src + 0) > c.maxLength then _ else _) = _
    by_cases long : c.gate.peek env (c.src + 0) > c.maxLength
    · rw [if_pos long] at out ⊢
      rw [if_pos long, Gate.masterOut2_poke _ _ out]
    · rw [if_neg long] at out ⊢
      rw [if_neg long]
      split at out
      next wrong =>
        rw [if_pos wrong, if_pos wrong, Gate.masterOut2_poke _ _ out]
      next valid =>
        rw [if_neg valid, if_neg valid]
        exact congrArg (·, _) (Gate.dispatch_poke _ _ _ _ out)

theorem packetLoop_poke {patience : Nat} {c : Call} (out : ∀ d ∈ c.packetCalls env patience, a ∉ d.accesses env) :
    (c.gate.poke a v).packetLoop env patience c.i c.src = (c.gate.packetLoop env patience c.i c.src).poke a v := by
  induction patience generalizing c with
  | zero => rfl
  | succ patience ih =>
    rw [packetCalls] at out
    have this := @result_poke a v env c (out c List.mem_cons_self)
    have last : (c.poke a v).Last env ↔ c.Last env := by
      unfold Last
      rw [this]
      rfl
    have unfolded := packetLoop_succ env patience (c.poke a v)
    have next : (c.poke a v).next env = (c.next env).poke a v := by
      unfold next
      rw [this]
      rfl
    rw [this, next] at unfolded
    refine unfolded.trans ?_
    rw [packetLoop_succ]
    by_cases ends : c.Last env
    · rw [if_pos ends, if_pos (last.mpr ends)]
    · rw [if_neg ends] at out ⊢
      rw [if_neg (mt last.mp ends)]
      exact ih fun d found => out d (List.mem_cons_of_mem c found)

end Call

namespace Gate

variable {a : Access} {v : UInt8} {g : Gate} {env : Surroundings}

theorem takeCommands_poke (out : a ∉ g.takeCommandsAccesses env) :
    (g.poke a v).takeCommands env = (g.takeCommands env).poke a v := by
  have cleared (g' : Gate) : (if (g'.poke a v).mode ≠ .running then g'.poke a v
      else { g'.poke a v with twiIn := (g'.poke a v).twiIn.clearFast }) =
        (if g'.mode ≠ .running then g' else { g' with twiIn := g'.twiIn.clearFast }).poke a v := by
    rw [poke_mode]
    split <;> rfl
  unfold takeCommandsAccesses at out
  unfold takeCommands
  rw [poke_twiIn, Buffer.poke_length]
  by_cases empty : g.twiIn.length = 0
  · rw [if_pos empty, if_pos empty]
  · rw [if_neg empty, if_neg empty]
    by_cases one : g.twiIn.length = 1
    · rw [if_pos one, List.mem_cons, not_or] at out
      dsimp only
      rw [if_pos one, if_pos one, Buffer.read_poke _ out.1, masterOut2_poke _ _ out.2]
      exact cleared _
    · rw [if_neg one, calls, if_pos (show 2 ≤ g.twiIn.length by omega)] at out
      have loop := @Call.packetLoop_poke a v env env.patience ⟨g, 0, 0⟩ fun d found mem =>
        out (List.mem_flatMap.mpr ⟨d, found, mem⟩)
      dsimp only at loop ⊢
      rw [if_neg one, if_neg one, loop]
      exact cleared _

/-- `twi_step` is about to exchange the two buffers towards the master. -/
def Swaps (g : Gate) : Prop := g.twiOut.used ≥ g.twiOut.length ∧ g.masterOut.length > 0

instance (g : Gate) : Decidable g.Swaps := inferInstanceAs (Decidable (_ ∧ _))

end Gate

/-- The same byte of the storage, under the name of its buffer after `Buffer_Swap`. -/
def Access.exchange (a : Access) : Access where
  buffer :=
    match a.buffer with
    | .twiOut => .masterOut
    | .masterOut => .twiOut
    | name => name
  index := a.index

namespace Gate

variable {a : Access} {v : UInt8} {g : Gate} {env : Surroundings}

theorem swapOut_eq (g : Gate) :
    g.swapOut =
      if g.Swaps then { g with twiOut := { g.masterOut with used := 0 }, masterOut := g.twiOut.clearFull } else g :=
  rfl

theorem swapOutAccesses_eq (g : Gate) :
    g.swapOutAccesses = if g.Swaps then g.twiOut.clearFullAccesses .twiOut else [] := rfl

theorem swaps_poke : (g.poke a v).Swaps ↔ g.Swaps := Iff.rfl

theorem swapOut_poke (out : a ∉ g.swapOutAccesses) :
    (g.poke a v).swapOut = g.swapOut.poke (if g.Swaps then a.exchange else a) v := by
  rw [swapOutAccesses_eq] at out
  rw [swapOut_eq, swapOut_eq]
  by_cases swaps : g.Swaps
  · rw [if_pos swaps] at out
    rw [if_pos (swaps_poke.mpr swaps), if_pos swaps, if_pos swaps, poke_twiOut, Buffer.clearFull_poke out]
    obtain ⟨name, i⟩ := a
    cases name <;> rfl
  · rw [if_neg (mt swaps_poke.mp swaps), if_neg swaps, if_neg swaps]

theorem twiVect_poke (st : TwStatus) (data : UInt8) (out : a ∉ g.twiVectAccesses st) :
    (g.poke a v).twiVect st data = (g.twiVect st data).poke a v := by
  have received (taken : a ∉ g.twiIn.appendAccesses .twiIn) :
      ((g.poke a v).twiIn.append data).getD (g.poke a v).twiIn =
        ((g.twiIn.append data).getD g.twiIn).poke .twiIn a v :=
    Buffer.append_getD_poke data taken
  cases st with
  | srDataAck | srGcallDataAck =>
    unfold twiVect
    dsimp only
    rw [received out]
    rfl
  | stSlaAck =>
    unfold twiVect
    dsimp only
    by_cases empty : g.twiOut.length = 0
    · rw [if_pos (show (g.poke a v).twiOut.length = 0 from empty), if_pos empty]
      rfl
    · rw [if_neg (show ¬ (g.poke a v).twiOut.length = 0 from empty), if_neg empty]
      rfl
  | stDataAck =>
    unfold twiVectAccesses at out
    unfold twiVect
    dsimp only at out ⊢
    by_cases more : g.twiOut.used < g.twiOut.length
    · rw [if_pos more, List.mem_singleton] at out
      rw [dif_pos (show (g.poke a v).twiOut.used < (g.poke a v).twiOut.length from more), dif_pos more]
      have byte : (g.poke a v).twiOut.read g.twiOut.used (g.twiOut.lt_size_of_lt_length more) =
          g.twiOut.read g.twiOut.used _ := Buffer.read_poke _ out
      change setTwcr true { (g.poke a v) with
        twiStat := _, twiIdle := false,
        twdr := (g.poke a v).twiOut.read g.twiOut.used (g.twiOut.lt_size_of_lt_length more)
        twiOut := _ } = _
      rw [byte]
      rfl
    · rw [dif_neg (show ¬ (g.poke a v).twiOut.used < (g.poke a v).twiOut.length from more), dif_neg more]
      rfl
  | _ => rfl

theorem storage_poke : (g.poke a v).storage a.buffer = (g.storage a.buffer).set a.index v := by
  obtain ⟨name, i⟩ := a
  cases name <;> rfl

theorem poke_of_same (same : ∀ old ∈ (g.storage a.buffer)[a.index]?, old = v) : g.poke a v = g := by
  have there (name : BufferName) (own : a.buffer = name) : ∀ old ∈ (g.storage name)[a.index]?, old = v := own ▸ same
  have twiIn : g.twiIn.poke .twiIn a v = g.twiIn := Buffer.poke_of_same (there .twiIn)
  have twiOut : g.twiOut.poke .twiOut a v = g.twiOut := Buffer.poke_of_same (there .twiOut)
  have masterOut : g.masterOut.poke .masterOut a v = g.masterOut := Buffer.poke_of_same (there .masterOut)
  have mdbIn : g.mdbIn.poke .mdbIn a v = g.mdbIn := Buffer.poke_of_same (there .mdbIn)
  have mdbOut : g.mdbOut.poke .mdbOut a v = g.mdbOut := Buffer.poke_of_same (there .mdbOut)
  rw [poke, twiIn, twiOut, masterOut, mdbIn, mdbOut]

theorem poke_of_out (out : ¬ a.Inside) : g.poke a v = g := by
  refine poke_of_same fun old there => ?_
  rw [List.getElem?_eq_none (by rw [storage_length]; exact Nat.not_lt.mp out)] at there
  cases there

/-- The boot clears all there is. -/
theorem mem_bootAccesses (inside : a.Inside) : a ∈ g.bootAccesses := by
  obtain ⟨name, i⟩ := a
  have cleared : ⟨name, i⟩ ∈ (List.range name.size).map (Access.mk name) :=
    List.mem_map.mpr ⟨i, List.mem_range.mpr inside, rfl⟩
  simp only [bootAccesses, mdbResetAccesses, List.mem_append]
  cases name with
  | twiIn => exact Or.inl (Or.inl (Or.inl (Or.inl cleared)))
  | masterOut => exact Or.inl (Or.inl (Or.inl (Or.inr cleared)))
  | twiOut => exact Or.inl (Or.inl (Or.inr cleared))
  | mdbIn => exact Or.inl (Or.inr (Or.inl cleared))
  | mdbOut => exact Or.inl (Or.inr (Or.inr cleared))

end Gate

/-- Where a byte of the storage is to be found behind the step. -/
def Event.carries (g : Gate) (e : Event) (a : Access) : Access :=
  match e with
  | .twiStep env => if (g.takeCommands env).mode = .running ∧ (g.takeCommands env).Swaps then a.exchange else a
  | _ => a

theorem step_poke {g g' : Gate} {e : Event} {a : Access} (h : step g e = some g') (out : a ∉ e.accesses g)
    (v : UInt8) :
    step (g.poke a v) e = some (g'.poke (e.carries g a) v) := by
  cases e with
  | twiStep env =>
    obtain ⟨enabled, rfl⟩ := enabled_step h
    refine (if_pos enabled).trans (congrArg some ?_)
    change a ∉ g.takeCommandsAccesses env ++ _ at out
    rw [List.mem_append, not_or] at out
    unfold Gate.twiStep Event.carries
    dsimp only
    rw [Gate.takeCommands_poke out.1, Gate.poke_mode]
    by_cases running : (g.takeCommands env).mode = .running
    · have swapped := out.2
      rw [if_neg (not_not.mpr running)] at swapped ⊢
      rw [if_neg (not_not.mpr running), Gate.swapOut_poke swapped]
      simp only [running, true_and]
    · rw [if_pos running, if_pos running, if_neg fun swaps => running swaps.1]
  | mdbStep =>
    obtain ⟨enabled, rfl⟩ := enabled_step h
    exact (if_pos enabled).trans (congrArg some (Gate.mdbStep_poke out))
  | usartRx err data bit9 =>
    obtain ⟨enabled, rfl⟩ := enabled_step h
    exact (if_pos enabled).trans (congrArg some (Gate.usartRx_poke err data bit9 out))
  | usartUdre =>
    obtain ⟨enabled, rfl⟩ := enabled_step h
    exact (if_pos enabled).trans (congrArg some (Gate.usartUdre_poke out))
  | usartTx =>
    obtain ⟨enabled, rfl⟩ := enabled_step h
    exact (if_pos enabled).trans rfl
  | timer0Ovf =>
    obtain ⟨enabled, rfl⟩ := enabled_step h
    exact (if_pos enabled).trans (congrArg some Gate.timer0Ovf_poke)
  | twi st data =>
    obtain ⟨enabled, rfl⟩ := enabled_step h
    exact (if_pos enabled).trans (congrArg some (Gate.twiVect_poke st data out))
  | watchdog =>
    have past : ¬ a.Inside := fun inside => out (Gate.mem_bootAccesses inside)
    rw [Gate.poke_of_out past]
    change step g .watchdog = some (g'.poke a v)
    rw [Gate.poke_of_out past, h]

theorem Event.carries_inside {g : Gate} {e : Event} {a : Access} : (e.carries g a).Inside ↔ a.Inside := by
  have exchanged : a.exchange.Inside ↔ a.Inside := by
    obtain ⟨name, i⟩ := a
    cases name <;> rfl
  cases e with
  | twiStep env =>
    unfold carries
    dsimp only
    split
    · exact exchanged
    · rfl
  | _ => rfl

/-- The step has no part in the byte: it is as it was, and with another byte in its place the
step does the same. -/
structure Spares (g : Gate) (e : Event) (g' : Gate) (a : Access) : Prop where
  kept : (g'.storage (e.carries g a).buffer)[(e.carries g a).index]? = (g.storage a.buffer)[a.index]?
  unread : ∀ v, step (g.poke a v) e = some (g'.poke (e.carries g a) v)

/-- What a step does not access it neither stores into nor reads. -/
theorem step_spares {g g' : Gate} {e : Event} {a : Access} (h : step g e = some g') (out : a ∉ e.accesses g) :
    Spares g e g' a := by
  refine ⟨?_, step_poke h out⟩
  by_cases inside : a.Inside
  · have there : a.index < (g.storage a.buffer).length := by rwa [Gate.storage_length]
    have carried : (e.carries g a).index < (g'.storage (e.carries g a).buffer).length := by
      rw [Gate.storage_length]
      exact Event.carries_inside.mpr inside
    -- the byte that is there put in its own place makes no difference, so the step leaves it there
    obtain ⟨v, old⟩ : ∃ v, (g.storage a.buffer)[a.index]? = some v := ⟨_, List.getElem?_eq_getElem there⟩
    have same : g.poke a v = g := Gate.poke_of_same fun w found => Option.some.inj (found.symm.trans old)
    have again := step_poke h out v
    rw [same, h] at again
    rw [Option.some.inj again, Gate.storage_poke, List.getElem?_set_self carried, old]
  · have past (g : Gate) (a : Access) (outside : ¬ a.Inside) : (g.storage a.buffer)[a.index]? = none :=
      List.getElem?_eq_none (by rw [Gate.storage_length]; exact Nat.not_lt.mp outside)
    rw [past g a inside, past g' _ (mt Event.carries_inside.mp inside)]

end Vender.Firmware
