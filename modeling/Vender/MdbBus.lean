import Vender.Drivers

namespace Vender

open Dialogue

inductive KitchenDevice
  | coffee
  | conveyor
  | cup
  | elevator
  | hopper
  | mixer
  | valve
  deriving DecidableEq, Repr

def KitchenDevice.address : KitchenDevice → UInt8
  | .coffee => 0xe8
  | .conveyor => 0xd8
  | .cup => 0xe0
  | .elevator => 0xd0
  | .hopper => 0xb8
  | .mixer => 0xc8
  | .valve => 0xc0

/-- In the order of `KitchenSystem.Start`. -/
def KitchenDevice.all : List KitchenDevice := [.coffee, .conveyor, .cup, .elevator, .hopper, .mixer, .valve]

/-- `Init` of each of the devices. -/
def KitchenDevice.init (d : KitchenDevice) : DriverM (DeviceGeneric × Option MdbTxError) :=
  DeviceGeneric.init d.address

def DeviceCoffee.commandMove (_g : DeviceGeneric) (_position : UInt8) : DriverM (Option MdbTxError) := .broken

def DeviceConveyor.commandMove (g : DeviceGeneric) (position : UInt16) : DriverM (Option MdbTxError) :=
  g.commandAction [0x01, (position >>> 8).toUInt8, (position &&& 0xff).toUInt8]

def DeviceCup.commandDispense (g : DeviceGeneric) : DriverM (Option MdbTxError) := g.commandAction [0x01]

def DeviceCup.commandTODO2 (g : DeviceGeneric) : DriverM (Option MdbTxError) := g.commandAction [0x04]

def DeviceElevator.commandMove (g : DeviceGeneric) (position : UInt8) : DriverM (Option MdbTxError) :=
  g.commandAction [0x03, position, 0x00]

def DeviceHopper.command1 (g : DeviceGeneric) (args : List UInt8) : DriverM (Option MdbTxError) :=
  g.commandAction (0x01 :: args)

/-- The duration in nanoseconds, whose tenths of a second are cut to a byte. -/
def DeviceMixer.commandShake (g : DeviceGeneric) (d : Int) (speed : UInt8) : DriverM (Option MdbTxError) :=
  g.commandAction [0x01, UInt8.ofInt (Int.tdiv (Int.tdiv d 1000000) 100), speed]

def DeviceMixer.commandFan (g : DeviceGeneric) (on : Bool) : DriverM (Option MdbTxError) :=
  g.commandAction [0x02, if on then 1 else 0, 0]

def DeviceMixer.commandMove (g : DeviceGeneric) (position : UInt8) : DriverM (Option MdbTxError) :=
  g.commandAction [0x03, position, 0x64]

def DeviceValve.commandMove (g : DeviceGeneric) (position : UInt8) : DriverM (Option MdbTxError) :=
  g.commandAction [0x03, position, 0x00]

inductive CoinCall
  | reset
  | setup
  | tubeStatus
  | poll
  | coinType (accept dispense : UInt16)
  | dispense (nominal : Nominal) (count : UInt8)
  | payout (amount : Amount)
  | expansionIdentification
  | expansionSendDiagStatus
  | featureEnable (requested : UInt32)
  | initSequence

inductive BillCall
  | reset
  | setup
  | poll
  | stacker
  | billType (accept escrow : UInt16)
  | expansionIdentification
  | expansionIdentificationOptions
  | featureEnable (requested : UInt32)
  | initSequence

inductive KitchenCall : KitchenDevice → Type
  | init {d} : KitchenCall d
  | poll {d} : KitchenCall d
  | coffeeMove (position : UInt8) : KitchenCall .coffee
  | conveyorMove (position : UInt16) : KitchenCall .conveyor
  | cupDispense : KitchenCall .cup
  | cupTODO2 : KitchenCall .cup
  | elevatorMove (position : UInt8) : KitchenCall .elevator
  | hopper1 (args : List UInt8) : KitchenCall .hopper
  | mixerShake (d : Int) (speed : UInt8) : KitchenCall .mixer
  | mixerFan (on : Bool) : KitchenCall .mixer
  | mixerMove (position : UInt8) : KitchenCall .mixer
  | valveMove (position : UInt8) : KitchenCall .valve

inductive Peripheral
  | coin
  | bill
  | kitchen (d : KitchenDevice)
  deriving DecidableEq, Repr

/-- The upper five bits of the first byte of every block for it. -/
def Peripheral.address : Peripheral → UInt8
  | .coin => 0x08
  | .bill => 0x30
  | .kitchen d => d.address

/-- A call of a driver, with the fields it finds. -/
inductive Call : Peripheral → Type
  | coin (self : CoinUnit) (c : CoinCall) : Call .coin
  | bill (self : BillUnit) (c : BillCall) : Call .bill
  | kitchen {d : KitchenDevice} (setupResponse : List UInt8) (c : KitchenCall d) : Call (.kitchen d)

inductive Outcome
  | coin (self : CoinUnit) (err : Option CommandError)
  | bill (self : BillUnit) (err : Option CommandError)
  | poll (result : PollResult) (ready : Bool)
  | diag (words : Option (List UInt16)) (err : Option CommandError)
  | evend (self : DeviceGeneric) (err : Option MdbTxError)
  | evendPoll (err : Option MdbTxError) (ready : Bool)

def CoinCall.run (kind : MdbTxError → TxError) (self : CoinUnit) : CoinCall → DriverM Outcome
  | .reset => do return .coin self (← CoinUnit.commandReset)
  | .setup => do
    let (self, err) ← self.commandSetup
    return .coin self err
  | .tubeStatus => do return .coin self (← CoinUnit.commandTubeStatus)
  | .poll => do
    let (result, ready) ← self.commandPoll kind
    return .poll result ready
  | .coinType accept manual => do return .coin self (← CoinUnit.commandCoinType accept manual)
  | .dispense nominal count => do return .coin self (← self.commandDispense nominal count)
  | .payout amount => do return .coin self (← self.commandPayout amount)
  | .expansionIdentification => do
    let (self, err) ← self.commandExpansionIdentification
    return .coin self err
  | .expansionSendDiagStatus => do
    let (words, err) ← self.commandExpansionSendDiagStatus
    return .diag words err
  | .featureEnable requested => do return .coin self (← self.commandFeatureEnable requested)
  | .initSequence => do
    let (self, err) ← CoinUnit.initSequence (fun err => kind err = .timeout) self
    return .coin self err

def BillCall.run (kind : MdbTxError → TxError) (self : BillUnit) : BillCall → DriverM Outcome
  | .reset => do return .bill self (← BillUnit.commandReset)
  | .setup => do
    let (self, err) ← self.commandSetup
    return .bill self err
  | .poll => do
    let (result, ready) ← self.commandPoll kind
    return .poll result ready
  | .stacker => do return .bill self (← BillUnit.commandStacker)
  | .billType accept escrow => do return .bill self (← BillUnit.commandBillType accept escrow)
  | .expansionIdentification => do return .bill self (← BillUnit.commandExpansionIdentification)
  | .expansionIdentificationOptions => do
    let (self, err) ← self.commandExpansionIdentificationOptions
    return .bill self err
  | .featureEnable requested => do return .bill self (← self.commandFeatureEnable requested)
  | .initSequence => do
    let (self, err) ← self.initSequence
    return .bill self err

def KitchenCall.run {d : KitchenDevice} (self : DeviceGeneric) : KitchenCall d → DriverM Outcome
  | .init => do
    let (self, err) ← d.init
    return .evend self err
  | .poll => do
    let (err, ready) ← self.poll
    return .evendPoll err ready
  | .coffeeMove position => do return .evend self (← DeviceCoffee.commandMove self position)
  | .conveyorMove position => do return .evend self (← DeviceConveyor.commandMove self position)
  | .cupDispense => do return .evend self (← DeviceCup.commandDispense self)
  | .cupTODO2 => do return .evend self (← DeviceCup.commandTODO2 self)
  | .elevatorMove position => do return .evend self (← DeviceElevator.commandMove self position)
  | .hopper1 args => do return .evend self (← DeviceHopper.command1 self args)
  | .mixerShake d speed => do return .evend self (← DeviceMixer.commandShake self d speed)
  | .mixerFan on => do return .evend self (← DeviceMixer.commandFan self on)
  | .mixerMove position => do return .evend self (← DeviceMixer.commandMove self position)
  | .valveMove position => do return .evend self (← DeviceValve.commandMove self position)

def Call.run (kind : MdbTxError → TxError) {p : Peripheral} : Call p → DriverM Outcome
  | .coin self c => c.run kind self
  | .bill self c => c.run kind self
  | .kitchen (d := d) setupResponse c => c.run { address := d.address, setupResponse }

/-- The calls that one goroutine makes of one driver. -/
structure Goroutine where
  peripheral : Peripheral
  calls : List (Call peripheral)

/-- Calls one after the other. -/
def session (kind : MdbTxError → TxError) {p : Peripheral} : List (Call p) → DriverM (List Outcome)
  | [] => return []
  | c :: cs => do
    let outcome ← c.run kind
    let outcomes ← session kind cs
    return outcome :: outcomes

def addressOf (q : MdbPacket) : UInt8 := q.bytes.headD 0 &&& 0xf8

/-- The block is for the peripheral and for no other one. -/
def For (p : Peripheral) (q : MdbPacket) : Prop := addressOf q = p.address

theorem Peripheral.address_injective : Function.Injective Peripheral.address := by
  intro p p' same
  cases p with
  | coin | bill =>
    cases p' with
    | coin | bill => first | rfl | exact absurd same (by decide)
    | kitchen d => cases d <;> exact absurd same (by decide)
  | kitchen d =>
    cases p' with
    | coin | bill => cases d <;> exact absurd same (by decide)
    | kitchen d' => cases d <;> cases d' <;> first | rfl | exact absurd same (by decide)

variable {p : Peripheral} {R S : Type}

/-- A command that sends one block, if it sends one, and reads the answer. -/
theorem asks_tx {request : Option MdbPacket} {k : TxReply → DriverM R} (for_ : ∀ q, request = some q → For p q)
    (rest : ∀ reply, (k reply).Asks (For p)) : (tx request >>= k).Asks (For p) := by
  cases request with
  | none => trivial
  | some q =>
    refine ⟨for_ q rfl, fun result => ?_⟩
    cases result with
    | none => trivial
    | some reply => exact rest reply

theorem for_packetFromBytes {c : UInt8} {rest : List UInt8} {q : MdbPacket} (mine : c &&& 0xf8 = p.address)
    (packet : MdbPacket.packetFromBytes (c :: rest) = some q) : For p q := by
  by_cases short : (c :: rest).length ≤ packetMaxLength
  · obtain ⟨q', packet', bytes, -⟩ := MdbPacket.packetFromBytes_ok short
    cases packet.symm.trans packet'
    unfold For addressOf
    rw [bytes]
    exact mine
  · have written : MdbPacket.new.write (c :: rest) = (.new, .error .overflow) := by
      rw [MdbPacket.write, if_neg (by decide), if_neg (by simp), if_pos (by omega)]
    rw [MdbPacket.packetFromBytes, written] at packet
    cases packet

theorem asks_packet {q : MdbPacket} {k : TxReply → DriverM R} (mine : For p q)
    (rest : ∀ reply, (k reply).Asks (For p)) :
    (tx (some q) >>= k).Asks (For p) := by
  apply asks_tx _ rest
  intro q' same
  cases same
  exact mine

theorem asks_block {c : UInt8} {data : List UInt8} {k : TxReply → DriverM R} (mine : c &&& 0xf8 = p.address)
    (rest : ∀ reply, (k reply).Asks (For p)) : (tx (MdbPacket.packetFromBytes (c :: data)) >>= k).Asks (For p) :=
  asks_tx (fun _ => for_packetFromBytes mine) rest

namespace CoinUnit

theorem commandReset_asks : commandReset.Asks (For .coin) := by
  apply asks_packet
  · rfl
  exact fun _ => trivial

theorem commandSetup_asks (self : CoinUnit) : self.commandSetup.Asks (For .coin) := by
  apply asks_packet
  · rfl
  intro reply
  split <;> trivial

theorem commandTubeStatus_asks : commandTubeStatus.Asks (For .coin) := by
  apply asks_packet
  · rfl
  intro reply
  obtain ⟨response, _ | err⟩ := reply <;> trivial

theorem commandPoll_asks (self : CoinUnit) (kind : MdbTxError → TxError) :
    (self.commandPoll kind).Asks (For .coin) := by
  apply asks_packet
  · rfl
  intro reply
  obtain ⟨response, _ | err⟩ := reply <;> trivial

theorem commandCoinType_asks (accept dispense : UInt16) : (commandCoinType accept dispense).Asks (For .coin) :=
  asks_block (by decide) fun _ => trivial

theorem commandDispense_asks (self : CoinUnit) (nominal : Nominal) (count : UInt8) :
    (self.commandDispense nominal count).Asks (For .coin) := by
  unfold commandDispense
  split
  · trivial
  · exact asks_block (by decide) fun _ => trivial

theorem commandPayout_asks (self : CoinUnit) (amount : Amount) : (self.commandPayout amount).Asks (For .coin) := by
  unfold commandPayout
  split
  · trivial
  · exact asks_block (by decide) fun _ => trivial

theorem commandExpansionIdentification_asks (self : CoinUnit) :
    self.commandExpansionIdentification.Asks (For .coin) := by
  apply asks_packet
  · rfl
  intro reply
  obtain ⟨response, _ | err⟩ := reply
  · dsimp only
    split <;> trivial
  · trivial

theorem commandExpansionSendDiagStatus_asks (self : CoinUnit) :
    self.commandExpansionSendDiagStatus.Asks (For .coin) := by
  unfold commandExpansionSendDiagStatus
  split
  · trivial
  · apply asks_packet
    · rfl
    intro reply
    obtain ⟨response, _ | err⟩ := reply
    · dsimp only
      split <;> trivial
    · trivial

theorem commandFeatureEnable_asks (self : CoinUnit) (requested : UInt32) :
    (self.commandFeatureEnable requested).Asks (For .coin) :=
  asks_block (by decide) fun _ => trivial

theorem initSequence_asks (isTimeout : MdbTxError → Bool) (self : CoinUnit) :
    (initSequence isTimeout self).Asks (For .coin) := by
  unfold initSequence
  apply Asks.bind self.commandSetup_asks
  rintro ⟨self, err⟩
  dsimp only
  split
  · trivial
  apply Asks.bind self.commandExpansionIdentification_asks
  rintro ⟨self, err⟩
  dsimp only
  split
  · trivial
  apply Asks.bind (self.commandFeatureEnable_asks _)
  intro err
  split
  · trivial
  apply Asks.bind self.commandExpansionSendDiagStatus_asks
  rintro ⟨words, err⟩
  dsimp only
  split
  · trivial
  apply Asks.bind commandTubeStatus_asks
  intro err
  split
  · trivial
  apply Asks.bind (commandCoinType_asks _ _)
  intro err
  split <;> trivial

end CoinUnit

/-- Every block that the driver of the changer sends is for the changer. -/
theorem CoinCall.asks (kind : MdbTxError → TxError) (self : CoinUnit) (c : CoinCall) :
    (c.run kind self).Asks (For .coin) := by
  cases c with
  | reset => exact Asks.bind CoinUnit.commandReset_asks fun _ => trivial
  | setup => exact Asks.bind self.commandSetup_asks fun _ => trivial
  | tubeStatus => exact Asks.bind CoinUnit.commandTubeStatus_asks fun _ => trivial
  | poll => exact Asks.bind (self.commandPoll_asks kind) fun _ => trivial
  | coinType accept manual => exact Asks.bind (CoinUnit.commandCoinType_asks accept manual) fun _ => trivial
  | dispense nominal count => exact Asks.bind (self.commandDispense_asks nominal count) fun _ => trivial
  | payout amount => exact Asks.bind (self.commandPayout_asks amount) fun _ => trivial
  | expansionIdentification => exact Asks.bind self.commandExpansionIdentification_asks fun _ => trivial
  | expansionSendDiagStatus => exact Asks.bind self.commandExpansionSendDiagStatus_asks fun _ => trivial
  | featureEnable requested => exact Asks.bind (self.commandFeatureEnable_asks requested) fun _ => trivial
  | initSequence => exact Asks.bind (CoinUnit.initSequence_asks _ self) fun _ => trivial

namespace BillUnit

theorem commandReset_asks : commandReset.Asks (For .bill) := by
  apply asks_packet
  · rfl
  exact fun _ => trivial

theorem commandSetup_asks (self : BillUnit) : self.commandSetup.Asks (For .bill) := by
  apply asks_packet
  · rfl
  intro reply
  split <;> trivial

theorem commandPoll_asks (self : BillUnit) (kind : MdbTxError → TxError) :
    (self.commandPoll kind).Asks (For .bill) := by
  apply asks_packet
  · rfl
  intro reply
  obtain ⟨response, _ | err⟩ := reply <;> trivial

theorem commandStacker_asks : commandStacker.Asks (For .bill) := by
  apply asks_packet
  · rfl
  exact fun _ => trivial

theorem commandBillType_asks (accept escrow : UInt16) : (commandBillType accept escrow).Asks (For .bill) :=
  asks_block (by decide) fun _ => trivial

theorem commandExpansionIdentification_asks : commandExpansionIdentification.Asks (For .bill) := by
  apply asks_packet
  · rfl
  intro reply
  obtain ⟨response, _ | err⟩ := reply <;> trivial

theorem commandFeatureEnable_asks (self : BillUnit) (requested : UInt32) :
    (self.commandFeatureEnable requested).Asks (For .bill) :=
  asks_block (by decide) fun _ => trivial

theorem commandExpansionIdentificationOptions_asks (self : BillUnit) :
    self.commandExpansionIdentificationOptions.Asks (For .bill) := by
  unfold commandExpansionIdentificationOptions
  split
  · trivial
  · apply asks_packet
    · rfl
    intro reply
    obtain ⟨response, _ | err⟩ := reply
    · dsimp only
      split <;> trivial
    · trivial

theorem initSequence_asks (self : BillUnit) : self.initSequence.Asks (For .bill) := by
  have enable (self : BillUnit) : (do
      let err ← commandStacker
      if err.isSome then return (self, err)
      let err ← commandBillType 0xffff 0
      if err.isSome then return (self, err)
      return (self, none) : DriverM (BillUnit × Option CommandError)).Asks (For .bill) := by
    apply Asks.bind commandStacker_asks
    intro err
    split
    · trivial
    apply Asks.bind (commandBillType_asks _ _)
    intro err
    split <;> trivial
  unfold initSequence
  apply Asks.bind self.commandSetup_asks
  rintro ⟨self, err⟩
  dsimp only
  split
  · trivial
  apply Asks.bind self.commandExpansionIdentificationOptions_asks
  rintro ⟨self, err⟩
  dsimp only
  split
  · apply Asks.bind commandExpansionIdentification_asks
    intro err
    split
    · trivial
    exact enable self
  · split
    · trivial
    exact enable self

end BillUnit

/-- Every block that the driver of the validator sends is for the validator. -/
theorem BillCall.asks (kind : MdbTxError → TxError) (self : BillUnit) (c : BillCall) :
    (c.run kind self).Asks (For .bill) := by
  cases c with
  | reset => exact Asks.bind BillUnit.commandReset_asks fun _ => trivial
  | setup => exact Asks.bind self.commandSetup_asks fun _ => trivial
  | poll => exact Asks.bind (self.commandPoll_asks kind) fun _ => trivial
  | stacker => exact Asks.bind BillUnit.commandStacker_asks fun _ => trivial
  | billType accept escrow => exact Asks.bind (BillUnit.commandBillType_asks accept escrow) fun _ => trivial
  | expansionIdentification => exact Asks.bind BillUnit.commandExpansionIdentification_asks fun _ => trivial
  | expansionIdentificationOptions => exact Asks.bind self.commandExpansionIdentificationOptions_asks fun _ => trivial
  | featureEnable requested => exact Asks.bind (self.commandFeatureEnable_asks requested) fun _ => trivial
  | initSequence => exact Asks.bind self.initSequence_asks fun _ => trivial

namespace DeviceGeneric

variable {self : DeviceGeneric} {d : KitchenDevice}

/-- The commands of a device are the first four of its eight addresses. -/
theorem address_add (d : KitchenDevice) {k : UInt8} (command : k = 0 ∨ k = 1 ∨ k = 2 ∨ k = 3) :
    (d.address + k) &&& 0xf8 = (Peripheral.kitchen d).address := by
  rcases command with rfl | rfl | rfl | rfl <;> cases d <;> rfl

theorem commandAction_asks (at_ : self.address = d.address) (args : List UInt8) :
    (self.commandAction args).Asks (For (.kitchen d)) := by
  apply asks_block
  · rw [at_]
    exact address_add d (by decide)
  · exact fun _ => trivial

theorem poll_asks (at_ : self.address = d.address) : self.poll.Asks (For (.kitchen d)) := by
  apply asks_block
  · rw [at_]
    exact address_add d (by decide)
  · exact fun _ => trivial

theorem commandSetup_asks (at_ : self.address = d.address) : self.commandSetup.Asks (For (.kitchen d)) := by
  apply asks_block
  · rw [at_]
    exact address_add d (by decide)
  · intro reply
    obtain ⟨response, _ | err⟩ := reply <;> trivial

theorem commandReset_asks (at_ : self.address = d.address) : self.commandReset.Asks (For (.kitchen d)) := by
  apply asks_block
  · rw [at_]
    exact address_add d (by decide)
  · exact fun _ => trivial

theorem init_asks (d : KitchenDevice) : d.init.Asks (For (.kitchen d)) := by
  apply Asks.bind (commandReset_asks rfl)
  intro err
  split
  · trivial
  · exact commandSetup_asks rfl

end DeviceGeneric

/-- Every block that the driver of a device sends is for that device. -/
theorem KitchenCall.asks {d : KitchenDevice} {self : DeviceGeneric} (at_ : self.address = d.address)
    (c : KitchenCall d) :
    (c.run self).Asks (For (.kitchen d)) := by
  cases c with
  | init => exact Asks.bind (DeviceGeneric.init_asks d) fun _ => trivial
  | poll => exact Asks.bind (DeviceGeneric.poll_asks at_) fun _ => trivial
  | coffeeMove position => trivial
  | conveyorMove _ | cupDispense | cupTODO2 | elevatorMove _ | hopper1 _ | mixerShake _ _ | mixerFan _
  | mixerMove _ | valveMove _ =>
    exact Asks.bind (DeviceGeneric.commandAction_asks at_ _) fun _ => trivial

theorem Call.asks (kind : MdbTxError → TxError) (c : Call p) : (c.run kind).Asks (For p) := by
  cases c with
  | coin self c => exact c.asks kind self
  | bill self c => exact c.asks kind self
  | kitchen setupResponse c => exact c.asks rfl

theorem session_asks (kind : MdbTxError → TxError) (cs : List (Call p)) : (session kind cs).Asks (For p) := by
  induction cs with
  | nil => trivial
  | cons c cs ih => exact Asks.bind (c.asks kind) fun _ => Asks.bind ih fun _ => trivial

/-- The bus behind a line that keeps nothing: each peripheral as its blocks and what it was sent before
make it. -/
def mdbBus {σ : Type*} (respond : UInt8 → σ → MdbPacket → TxResult × σ) : Bus MdbPacket TxResult UInt8 σ :=
  { address := addressOf, respond }

namespace MdbBus

variable {σ τ ι : Type*} {respond : UInt8 → σ → MdbPacket → TxResult × σ} {kind : MdbTxError → TxError}
  {goroutines : ι → Goroutine} {peers : UInt8 → σ}

/-- All goroutines before their first call. -/
def start (kind : MdbTxError → TxError) (goroutines : ι → Goroutine) (peers : UInt8 → σ) :
    Threads ι MdbPacket TxResult (List Outcome) UInt8 σ where
  threads := fun i => session kind (goroutines i).calls
  peers := peers

/-- The turn of a goroutine, where `mdb.Tx` goes over the one line of the Uarter. -/
abbrev step [DecidableEq ι] (carry : UInt8 → τ → σ → MdbPacket → TxResult × σ × τ)
    (s : Lined ι MdbPacket TxResult (List Outcome) UInt8 σ τ) (i : ι) :
    Option (Lined ι MdbPacket TxResult (List Outcome) UInt8 σ τ) :=
  Lined.step addressOf carry s i

/-- Who asks, by the address. -/
def owner (goroutines : ι → Goroutine) (i : ι) : UInt8 := (goroutines i).peripheral.address

theorem placed_start (kind : MdbTxError → TxError) (goroutines : ι → Goroutine) (peers : UInt8 → σ) :
    Threads.Placed (mdbBus respond) (owner goroutines) id (start kind goroutines peers) :=
  fun i => session_asks kind (goroutines i).calls

theorem owner_eq {i : ι} {p : Peripheral} : owner goroutines i = p.address ↔ (goroutines i).peripheral = p :=
  Peripheral.address_injective.eq_iff

variable [DecidableEq ι]

/-- To the goroutines of one peripheral, and to the peripheral, every run is the run of their own
moves alone; and a goroutine that has its peripheral to itself ends as it does with the bus to itself.
That is where the line carries nothing over from one block to the next. -/
theorem isolated {carry : UInt8 → τ → σ → MdbPacket → TxResult × σ × τ} (carries : Carries (mdbBus respond) carry)
    {line : τ} {is : List ι} {t : Lined ι MdbPacket TxResult (List Outcome) UInt8 σ τ}
    (run : Runs.run (step carry) ⟨start kind goroutines peers, line⟩ is = some t) (p : Peripheral) :
    (∃ u, Runs.run (step carry) ⟨start kind goroutines peers, line⟩
        (is.filter fun i => (goroutines i).peripheral = p) = some u ∧
      (∀ i, (goroutines i).peripheral = p → u.threads i = t.threads i) ∧ u.peers p.address = t.peers p.address ∧
      u.said = t.said.filter fun x => (goroutines x.1).peripheral = p) ∧
    ∀ i, (∀ j, (goroutines j).peripheral = p ↔ j = i) → ∀ outcomes, t.threads i = .done outcomes →
      ((session kind (goroutines i).calls).play (mdbBus respond) peers).result = some outcomes := by
  have unlined (is : List ι) := Lined.run_toThreads carries (⟨start kind goroutines peers, line⟩ : Lined ..) is
  have bare : Runs.run (Threads.step (mdbBus respond)) (start kind goroutines peers) is = some t.toThreads := by
    rw [← unlined is]
    exact congrArg (Option.map Lined.toThreads) run
  have agree : Threads.Agree (owner goroutines) id p.address (start kind goroutines peers)
    (start kind goroutines peers) :=
    ⟨fun _ _ => rfl, fun _ _ => rfl, rfl⟩
  obtain ⟨v, alone, agree⟩ := Threads.purge bare (placed_start kind goroutines peers) agree
  simp only [owner_eq] at alone
  have threads (i : ι) (mine : (goroutines i).peripheral = p) : v.threads i = t.threads i :=
    agree.threads i (owner_eq.mpr mine)
  constructor
  · obtain ⟨u, ran, rfl⟩ := Option.map_eq_some_iff.mp ((unlined _).trans alone)
    refine ⟨u, ran, threads, agree.peers p.address rfl, ?_⟩
    have said := agree.said
    simp only [owner_eq] at said
    exact said
  · intro i sole outcomes finished
    have only : ∀ j ∈ is.filter (fun i => (goroutines i).peripheral = p), j = i := by
      intro j mem
      exact (sole j).mp (by simpa using (List.mem_filter.mp mem).2)
    obtain ⟨said, -, played⟩ := Threads.play_of_run only alone
    have result := congrArg Played.result played
    rw [threads i ((sole i).mpr rfl), finished] at result
    exact result

/-- Everybody acknowledges everything. -/
def acknowledges (_ : UInt8) (sent : Nat) (_ : MdbPacket) : TxResult × Nat := (some (.new, none), sent + 1)

/-- A line that counts the blocks. -/
def counts (address : UInt8) (blocks : Nat) (sent : Nat) (q : MdbPacket) : TxResult × Nat × Nat :=
  ((acknowledges address sent q).1, (acknowledges address sent q).2, blocks + 1)

/-- The cup dispenser is polled while the valve turns. -/
def cupAndValve : Bool → Goroutine
  | true => ⟨.kitchen .cup, [.kitchen [] .cupDispense, .kitchen [] .poll]⟩
  | false => ⟨.kitchen .valve, [.kitchen [] (.valveMove 3)]⟩

theorem isolated_cupAndValve :
    ∃ t u : Lined Bool MdbPacket TxResult (List Outcome) UInt8 Nat Nat,
      Runs.run (step counts) ⟨start (fun _ => .other) cupAndValve fun _ => 0, 0⟩ [true, false, true] = some t ∧
      Runs.run (step counts) ⟨start (fun _ => .other) cupAndValve fun _ => 0, 0⟩ [true, true] = some u ∧
      u.peers 0xe0 = t.peers 0xe0 := by
  have runs : (Runs.run (step counts) ⟨start (fun _ => .other) cupAndValve fun _ => 0, 0⟩
      [true, false, true]).isSome := by
    decide +kernel
  obtain ⟨t, run⟩ := Option.isSome_iff_exists.mp runs
  have carries : Carries (mdbBus acknowledges) counts := fun _ _ _ _ => rfl
  obtain ⟨⟨u, alone, -, peers, -⟩, -⟩ := isolated carries run (.kitchen .cup)
  exact ⟨t, u, run, alone, peers⟩

end MdbBus

/-- The devices that `KitchenSystem` keeps, and whether its `events` are made. -/
structure KitchenSystem where
  events : Bool := false
  devices : KitchenDevice → Option DeviceGeneric := fun _ => none

namespace KitchenSystem

/-- A device that is not kept has its error logged. -/
def startDevices (self : KitchenSystem) : List KitchenDevice → DriverM KitchenSystem
  | [] => return self
  | d :: ds => do
    let (g, err) ← d.init
    startDevices { self with devices := Function.update self.devices d (if err.isSome then none else some g) } ds

/-- `Start`, whose error is always nil. It panics a second time, and where the context has no Mdber. -/
def start (self : KitchenSystem) (mdber : Bool) : DriverM KitchenSystem :=
  if self.events then .broken
  else if mdber = false then .broken
  else startDevices { self with events := true } KitchenDevice.all

def packetReset (d : KitchenDevice) : MdbPacket := MdbPacket.new.writeAll [d.address + 0]

def packetSetup (d : KitchenDevice) : MdbPacket := MdbPacket.new.writeAll [d.address + 1]

/-- What is said to a device, and what is kept of it. -/
inductive Met (d : KitchenDevice) : Said → Option DeviceGeneric → Prop
  | refusesReset (response : MdbPacket) (err : MdbTxError) : Met d [(packetReset d, some (response, some err))] none
  | refusesSetup (reset setup : MdbPacket) (err : MdbTxError) :
    Met d [(packetReset d, some (reset, none)), (packetSetup d, some (setup, some err))] none
  | accepts (reset setup : MdbPacket) :
    Met d [(packetReset d, some (reset, none)), (packetSetup d, some (setup, none))]
      (some { address := d.address, setupResponse := setup.bytes })

/-- What is said to some devices one after the other, with what is kept of them. -/
inductive MetAll (devices : KitchenDevice → Option DeviceGeneric) : List KitchenDevice → Said → Prop
  | nil : MetAll devices [] []
  | concat {ds : List KitchenDevice} {said talk : Said} {d : KitchenDevice} (before : MetAll devices ds said)
    (now : Met d talk (devices d)) : MetAll devices (ds ++ [d]) (said ++ talk)

theorem MetAll.congr {devices devices' : KitchenDevice → Option DeviceGeneric} {ds : List KitchenDevice} {said : Said}
    (met : MetAll devices ds said) (same : ∀ d ∈ ds, devices' d = devices d) : MetAll devices' ds said := by
  induction met with
  | nil => exact .nil
  | @concat ds said talk d before now ih =>
    have earlier := ih fun d' mem => same d' (List.mem_append_left _ mem)
    rw [← same d (by simp)] at now
    exact .concat earlier now

end KitchenSystem

end Vender
