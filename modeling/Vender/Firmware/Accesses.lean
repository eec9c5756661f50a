import Vender.Firmware.Slave

namespace Vender.Firmware

inductive BufferName
  | twiIn
  | twiOut
  | masterOut
  | mdbIn
  | mdbOut
  deriving DecidableEq, Repr

def BufferName.size : BufferName → Nat
  | .twiIn => commandMaxLength
  | .twiOut | .masterOut => responseMaxLength
  | .mdbIn | .mdbOut => mdbPacketSize

/-- A read or write of one byte of a buffer's `data`. -/
structure Access where
  buffer : BufferName
  index : Nat
  deriving DecidableEq, Repr

/-- The byte is one of the array that the buffer was declared with. -/
def Access.Inside (a : Access) : Prop := a.index < a.buffer.size

def AllInside (as : List Access) : Prop := ∀ a ∈ as, a.Inside

namespace Buffer

variable {size : Nat}

def clearFullAccesses (name : BufferName) (_ : Buffer size) : List Access := (List.range size).map (⟨name, ·⟩)

def appendAccesses (name : BufferName) (b : Buffer size) : List Access :=
  if b.length + 1 > size then [] else [⟨name, b.length⟩]

def appendNAccesses (name : BufferName) (n : Nat) (b : Buffer size) : List Access :=
  if b.length + n > size then [] else (List.range n).map fun k => ⟨name, b.length + k⟩

def copyAccesses (name : BufferName) (n : Nat) (_ : Buffer size) : List Access :=
  let len := if n < size then n else size
  (List.range len).map (⟨name, ·⟩)

end Buffer

namespace Gate

def twiOutSet2Accesses (g : Gate) : List Access := g.twiOut.copyAccesses .twiOut 4

/-- `master_out_1` and `master_out_2`, with the length of their packet. -/
def masterOutPacketAccesses (n : Nat) (g : Gate) : List Access :=
  g.masterOut.appendNAccesses .masterOut n ++
    if g.masterOut.length + n > responseMaxLength then g.twiOutSet2Accesses else []

/-- `source` is what one pass over the data reads: the packet and the checksum take one each. -/
def masterOutNAccesses (source : List Access) (header : Response) (data : List UInt8) (g : Gate) : List Access :=
  let packetLength : UInt8 := 3 + UInt8.ofNat data.length
  if g.masterOut.length + packetLength.toNat > responseMaxLength then
    g.twiOutSet2Accesses
  else
    let out₁ := (g.masterOut.append packetLength).getD g.masterOut
    let out₂ := (out₁.append header.code).getD out₁
    let out₃ := (out₂.appendN data).getD out₂
    g.masterOut.appendAccesses .masterOut ++ out₁.appendAccesses .masterOut ++
      (source ++ out₂.appendNAccesses .masterOut data.length) ++ source ++ out₃.appendAccesses .masterOut

def mdbResetAccesses (g : Gate) : List Access :=
  g.mdbIn.clearFullAccesses .mdbIn ++ g.mdbOut.clearFullAccesses .mdbOut

def mdbFinish1Accesses (g : Gate) : List Access := g.masterOutPacketAccesses 3 ++ g.mdbResetAccesses

def mdbFinish2Accesses (g : Gate) : List Access := g.masterOutPacketAccesses 4 ++ g.mdbResetAccesses

def mdbFinish3Accesses (code : Response) (data1 data2 : UInt8) (g : Gate) : List Access :=
  g.masterOutNAccesses [] code [data1, data2] ++ g.mdbResetAccesses

def mdbFinishInAccesses (code : Response) (g : Gate) : List Access :=
  g.masterOutNAccesses ((List.range g.mdbIn.length).map (⟨.mdbIn, ·⟩)) code g.mdbIn.stored ++ g.mdbResetAccesses

def mdbStartSendAccesses (ready : Bool) (g : Gate) : List Access :=
  if !ready then g.mdbFinish2Accesses else [⟨.mdbOut, 0⟩]

/-- The lists follow the branches of the functions that they are about. -/
def mdbStepAccesses (g : Gate) : List Access :=
  match g.mdbFastErrorCode with
  | some code => g.mdbFinish3Accesses code g.mdbFastErrorState.code g.mdbFastErrorData
  | none =>
    match g.mdbState with
    | .recvEnd =>
      if g.mdbIn.length = 0 then
        if g.mdbInLastByte = mdbAck then g.mdbFinish1Accesses else g.mdbFinish2Accesses
      else if g.mdbInLastByte ≠ g.mdbInChecksum then
        if g.mdbStateRetry then g.mdbFinish2Accesses else []
      else
        g.mdbFinishInAccesses .mdbSuccess
    | _ => []

def usartRxAccesses (err : UInt8) (bit9 : Bool) (g : Gate) : List Access :=
  if err ≠ 0 then []
  else if g.mdbState ≠ .recv then []
  else if bit9 then []
  else g.mdbIn.appendAccesses .mdbIn

def usartUdreAccesses (g : Gate) : List Access :=
  if g.mdbOut.used ≥ g.mdbOut.length then [] else [⟨.mdbOut, g.mdbOut.used⟩]

/-- The block is built in `mdb_out`: its data, the checksum over it, and the first byte is sent. -/
def mdbTransactionSimpleAccesses (ready : Bool) (data : List UInt8) (g : Gate) : List Access :=
  if g.mdbState ≠ .idle then
    g.masterOutPacketAccesses 3
  else
    let out₁ := g.mdbOut.clearFull
    let out₂ := (out₁.appendN data).getD out₁
    let out₃ := (out₂.append (memsum data)).getD out₂
    let g := { g with mdbOut := out₃ }
    out₁.clearFullAccesses .mdbOut ++ out₁.appendNAccesses .mdbOut data.length ++ out₂.appendAccesses .mdbOut ++
      g.mdbStartSendAccesses ready ++ (g.mdbStartSend ready).masterOutPacketAccesses 3

def dispatchAccesses (ready : Bool) (header length : UInt8) (data : List UInt8) (g : Gate) : List Access :=
  match Command.ofByte header with
  | some .poll => if length ≠ 3 then g.masterOutPacketAccesses 4 else []
  | some .reset | some .flash => []
  | some .debug => g.masterOutNAccesses [] .debug g.debugStatus
  | some .mdbTransactionSimple => g.mdbTransactionSimpleAccesses ready data
  | some .config | some .mdbBusReset | some .mdbTransactionCustom | none => g.masterOutPacketAccesses 3

end Gate

/-- `master_command` reads the command through a pointer of its own, at most every byte of
`twi_in`; where that pointer leaves the buffer it reads the memory around it. -/
def Call.accesses (env : Surroundings) (c : Call) : List Access :=
  let bs := fun k : Int => c.gate.peek env (c.src + k)
  let length := bs 0
  (List.range commandMaxLength).map (⟨.twiIn, ·⟩) ++
    if c.maxLength < 3 then c.gate.masterOutPacketAccesses 4
    else if length > c.maxLength then c.gate.masterOutPacketAccesses 4
    else if bs ((length.toNat : Int) - 1) ≠ crc8P93N 0 ((List.range (length - 1).toNat).map fun k : Nat => bs k) then
      c.gate.masterOutPacketAccesses 4
    else
      c.gate.dispatchAccesses (env.sendReady c.src) (bs 1) length (c.data env)

namespace Gate

/-- Every call that the packet loop makes reads and writes in the state the earlier ones left. -/
def takeCommandsAccesses (env : Surroundings) (g : Gate) : List Access :=
  if g.twiIn.length = 1 then ⟨.twiIn, 0⟩ :: g.masterOutPacketAccesses 4
  else (g.calls env).flatMap (Call.accesses env)

/-- `Buffer_Swap` exchanges the pointers; the storage that is then cleared as that of
`master_out` was `twi_out`'s before. -/
def swapOutAccesses (g : Gate) : List Access :=
  if g.twiOut.used ≥ g.twiOut.length ∧ g.masterOut.length > 0 then g.twiOut.clearFullAccesses .twiOut else []

def twiStepAccesses (env : Surroundings) (g : Gate) : List Access :=
  g.takeCommandsAccesses env ++
    if (g.takeCommands env).mode ≠ .running then [] else (g.takeCommands env).swapOutAccesses

def twiVectAccesses (st : TwStatus) (g : Gate) : List Access :=
  match st with
  | .srDataAck | .srGcallDataAck => g.twiIn.appendAccesses .twiIn
  | .stDataAck => if g.twiOut.used < g.twiOut.length then [⟨.twiOut, g.twiOut.used⟩] else []
  | _ => []

/-- `Buffer_Init` of the buffers, and the greeting in the empty `master_out`. -/
def bootAccesses (g : Gate) : List Access :=
  let g := { g with masterOut := Buffer.init _, twiOut := Buffer.init _ }
  g.twiIn.clearFullAccesses .twiIn ++ g.masterOut.clearFullAccesses .masterOut ++
    g.twiOut.clearFullAccesses .twiOut ++ g.mdbResetAccesses ++ g.masterOutNAccesses [] .debug responseBeeBee

end Gate

/-- The reads and writes through `data` that the step makes, in order. Each byte goes by the
buffer that it is in before the step. -/
def Event.accesses (g : Gate) : Event → List Access
  | .twiStep env => g.twiStepAccesses env
  | .mdbStep => g.mdbStepAccesses
  | .usartRx err _ bit9 => g.usartRxAccesses err bit9
  | .usartUdre => g.usartUdreAccesses
  | .usartTx | .timer0Ovf => []
  | .twi st _ => g.twiVectAccesses st
  | .watchdog => g.bootAccesses

theorem allInside_append {as bs : List Access} (ha : AllInside as) (hb : AllInside bs) : AllInside (as ++ bs) :=
  List.forall_mem_append.mpr ⟨ha, hb⟩

theorem allInside_nil : AllInside [] := List.forall_mem_nil _

theorem allInside_map_range {f : Nat → Access} {n : Nat} (h : ∀ k < n, (f k).Inside) :
    AllInside ((List.range n).map f) :=
  List.forall_mem_map.mpr fun k mem => h k (List.mem_range.mp mem)

namespace Buffer

variable {name : BufferName}

theorem clearFullAccesses_inside (b : Buffer name.size) : AllInside (b.clearFullAccesses name) :=
  allInside_map_range fun _ inside => inside

theorem appendAccesses_inside (b : Buffer name.size) : AllInside (b.appendAccesses name) := by
  unfold appendAccesses
  split
  · exact allInside_nil
  next room =>
    intro a mem
    cases List.mem_singleton.mp mem
    change b.length < name.size
    omega

/-- `Buffer_AppendN` writes only where all of it fits. -/
theorem appendNAccesses_inside (n : Nat) (b : Buffer name.size) : AllInside (b.appendNAccesses name n) := by
  unfold appendNAccesses
  split
  · exact allInside_nil
  next room =>
    refine allInside_map_range fun k small => ?_
    change b.length + k < name.size
    omega

theorem copyAccesses_inside (n : Nat) (b : Buffer name.size) : AllInside (b.copyAccesses name n) := by
  refine allInside_map_range fun k small => ?_
  change k < name.size
  split at small <;> omega

end Buffer

namespace Gate

theorem twiOutSet2Accesses_inside (g : Gate) : AllInside g.twiOutSet2Accesses :=
  @Buffer.copyAccesses_inside .twiOut 4 g.twiOut

theorem masterOutPacketAccesses_inside (n : Nat) (g : Gate) : AllInside (g.masterOutPacketAccesses n) := by
  refine allInside_append (@Buffer.appendNAccesses_inside .masterOut n g.masterOut) ?_
  split
  · exact g.twiOutSet2Accesses_inside
  · exact allInside_nil

/-- The bytes of the packet go behind what `master_out` holds, each append after its own check. -/
theorem masterOutNAccesses_inside {source : List Access} (header : Response) (data : List UInt8) (g : Gate)
    (inside : AllInside source) : AllInside (g.masterOutNAccesses source header data) := by
  have append (b : Buffer responseMaxLength) : AllInside (b.appendAccesses .masterOut) :=
    @Buffer.appendAccesses_inside .masterOut b
  have appendN (b : Buffer responseMaxLength) : AllInside (b.appendNAccesses .masterOut data.length) :=
    @Buffer.appendNAccesses_inside .masterOut data.length b
  unfold masterOutNAccesses
  simp only
  split
  · exact g.twiOutSet2Accesses_inside
  · exact allInside_append (allInside_append (allInside_append (allInside_append (append _) (append _))
      (allInside_append inside (appendN _))) inside) (append _)

theorem mdbResetAccesses_inside (g : Gate) : AllInside g.mdbResetAccesses :=
  allInside_append (@Buffer.clearFullAccesses_inside .mdbIn g.mdbIn)
    (@Buffer.clearFullAccesses_inside .mdbOut g.mdbOut)

theorem mdbFinish2Accesses_inside (g : Gate) : AllInside g.mdbFinish2Accesses :=
  allInside_append (g.masterOutPacketAccesses_inside 4) g.mdbResetAccesses_inside

theorem mdbFinishInAccesses_inside (code : Response) (g : Gate) : AllInside (g.mdbFinishInAccesses code) := by
  have fits := g.mdbIn.fits
  refine allInside_append (masterOutNAccesses_inside _ _ _ (allInside_map_range fun k small => ?_))
    g.mdbResetAccesses_inside
  change k < mdbPacketSize
  omega

theorem mdbStartSendAccesses_inside (ready : Bool) (g : Gate) : AllInside (g.mdbStartSendAccesses ready) := by
  unfold mdbStartSendAccesses
  split
  · exact g.mdbFinish2Accesses_inside
  · intro a mem
    cases List.mem_singleton.mp mem
    exact (by decide : 0 < mdbPacketSize)

theorem mdbStepAccesses_inside (g : Gate) : AllInside g.mdbStepAccesses := by
  unfold mdbStepAccesses
  split
  · exact allInside_append (masterOutNAccesses_inside _ _ _ allInside_nil) g.mdbResetAccesses_inside
  · split
    · split
      · split
        · exact allInside_append (g.masterOutPacketAccesses_inside 3) g.mdbResetAccesses_inside
        · exact g.mdbFinish2Accesses_inside
      · split
        · split
          · exact g.mdbFinish2Accesses_inside
          · exact allInside_nil
        · exact g.mdbFinishInAccesses_inside .mdbSuccess
    · exact allInside_nil

theorem usartRxAccesses_inside (err : UInt8) (bit9 : Bool) (g : Gate) : AllInside (g.usartRxAccesses err bit9) := by
  unfold usartRxAccesses
  split
  · exact allInside_nil
  · split
    · exact allInside_nil
    · split
      · exact allInside_nil
      · exact @Buffer.appendAccesses_inside .mdbIn g.mdbIn

/-- The guard on `used` keeps the read below the length, and the length is below the size. -/
theorem usartUdreAccesses_inside (g : Gate) : AllInside g.usartUdreAccesses := by
  have fits := g.mdbOut.fits
  unfold usartUdreAccesses
  split
  · exact allInside_nil
  next more =>
    intro a mem
    cases List.mem_singleton.mp mem
    change g.mdbOut.used < mdbPacketSize
    omega

theorem mdbTransactionSimpleAccesses_inside (ready : Bool) (data : List UInt8) (g : Gate) :
    AllInside (g.mdbTransactionSimpleAccesses ready data) := by
  have clearFull (b : Buffer mdbPacketSize) : AllInside (b.clearFullAccesses .mdbOut) :=
    @Buffer.clearFullAccesses_inside .mdbOut b
  have append (b : Buffer mdbPacketSize) : AllInside (b.appendAccesses .mdbOut) :=
    @Buffer.appendAccesses_inside .mdbOut b
  have appendN (b : Buffer mdbPacketSize) : AllInside (b.appendNAccesses .mdbOut data.length) :=
    @Buffer.appendNAccesses_inside .mdbOut data.length b
  unfold mdbTransactionSimpleAccesses
  simp only
  split
  · exact g.masterOutPacketAccesses_inside 3
  · refine allInside_append (allInside_append ?_ (mdbStartSendAccesses_inside ready _))
      (masterOutPacketAccesses_inside 3 _)
    exact allInside_append (allInside_append (clearFull _) (appendN _)) (append _)

theorem dispatchAccesses_inside (ready : Bool) (header length : UInt8) (data : List UInt8) (g : Gate) :
    AllInside (g.dispatchAccesses ready header length data) := by
  unfold dispatchAccesses
  split
  · split
    · exact g.masterOutPacketAccesses_inside 4
    · exact allInside_nil
  · exact allInside_nil
  · exact allInside_nil
  · exact masterOutNAccesses_inside _ _ _ allInside_nil
  · exact g.mdbTransactionSimpleAccesses_inside ready data
  all_goals exact g.masterOutPacketAccesses_inside 3

end Gate

theorem Call.accesses_inside (env : Surroundings) (c : Call) : AllInside (c.accesses env) := by
  unfold accesses
  refine allInside_append (allInside_map_range fun _ inside => inside) ?_
  simp only
  split
  · exact c.gate.masterOutPacketAccesses_inside 4
  · split
    · exact c.gate.masterOutPacketAccesses_inside 4
    · split
      · exact c.gate.masterOutPacketAccesses_inside 4
      · exact Gate.dispatchAccesses_inside _ _ _ _ _

namespace Gate

theorem twiStepAccesses_inside (env : Surroundings) (g : Gate) : AllInside (g.twiStepAccesses env) := by
  refine allInside_append ?_ ?_
  · unfold takeCommandsAccesses
    split
    · refine List.forall_mem_cons.mpr ⟨?_, g.masterOutPacketAccesses_inside 4⟩
      exact (by decide : 0 < commandMaxLength)
    · intro a mem
      obtain ⟨c, _, mem⟩ := List.mem_flatMap.mp mem
      exact c.accesses_inside env a mem
  · split
    · exact allInside_nil
    · unfold swapOutAccesses
      split
      · exact @Buffer.clearFullAccesses_inside .twiOut _
      · exact allInside_nil

theorem twiVectAccesses_inside (st : TwStatus) (g : Gate) : AllInside (g.twiVectAccesses st) := by
  unfold twiVectAccesses
  split
  · exact @Buffer.appendAccesses_inside .twiIn g.twiIn
  · exact @Buffer.appendAccesses_inside .twiIn g.twiIn
  · split
    next more =>
      intro a mem
      cases List.mem_singleton.mp mem
      have fits := g.twiOut.fits
      change g.twiOut.used < responseMaxLength
      omega
    next => exact allInside_nil
  · exact allInside_nil

theorem bootAccesses_inside (g : Gate) : AllInside g.bootAccesses :=
  allInside_append (allInside_append (allInside_append (allInside_append
    (@Buffer.clearFullAccesses_inside .twiIn _) (@Buffer.clearFullAccesses_inside .masterOut _))
    (@Buffer.clearFullAccesses_inside .twiOut _)) (mdbResetAccesses_inside _))
    (masterOutNAccesses_inside _ _ _ allInside_nil)

end Gate

theorem Event.accesses_inside (g : Gate) (e : Event) : AllInside (e.accesses g) := by
  cases e with
  | twiStep env => exact g.twiStepAccesses_inside env
  | mdbStep => exact g.mdbStepAccesses_inside
  | usartRx err _ bit9 => exact g.usartRxAccesses_inside err bit9
  | usartUdre => exact g.usartUdreAccesses_inside
  | usartTx | timer0Ovf => exact allInside_nil
  | twi st => exact g.twiVectAccesses_inside st
  | watchdog => exact g.bootAccesses_inside

end Vender.Firmware
