import Vender.Drivers

namespace Vender

open Dialogue

theorem meets_tx {R : Type} {allowed : Said → MdbPacket → Prop} {breaks : Said → Prop}
    {post : Said → R → Prop} {before : Said} {q : MdbPacket} {k : TxReply → DriverM R} :
    (tx (some q) >>= k).Meets allowed breaks post before ↔
      allowed before q ∧ breaks (before ++ [(q, none)]) ∧
        ∀ reply, (k reply).Meets allowed breaks post (before ++ [(q, some reply)]) := by
  constructor
  · intro meets
    exact ⟨meets.1, meets.2 none, fun reply => meets.2 (some reply)⟩
  · intro meets
    refine ⟨meets.1, fun result => ?_⟩
    cases result with
    | none => exact meets.2.1
    | some reply => exact meets.2.2 reply

/-- What a driver demands of the answer to a command: a command that is not needed may time out. -/
structure Demand where
  needed : Bool := true
  expectLength : Nat := 0
  /-- The answer is words of 16 bits. -/
  words : Bool := false

/-- The error of the command. -/
def Demand.error (demand : Demand) : TxReply → Option CommandError
  | (_, some err) => some (.tx err)
  | (response, none) =>
    if response.l < demand.expectLength then some (.short response demand.expectLength)
    else if demand.words ∧ response.l % 2 = 1 then some .diagLength
    else none

/-- The error for which an initialisation ends. -/
def Demand.judge (demand : Demand) (isTimeout : MdbTxError → Bool) (reply : TxReply) : Option CommandError :=
  if demand.needed ∨ CoinUnit.fatal isTimeout (demand.error reply) then demand.error reply else none

/-- The verdict on each exchange of an initialisation. -/
def verdict (demands : MdbPacket → Demand) (isTimeout : MdbTxError → Bool) (q : MdbPacket) (reply : TxReply) :
    Option CommandError :=
  (demands q).judge isTimeout reply

/-- The block was answered, without an error. -/
def Passes (judge : MdbPacket → TxReply → Option CommandError) (x : MdbPacket × TxResult) : Prop :=
  ∃ reply, x.2 = some reply ∧ judge x.1 reply = none

/-- The first error that an exchange makes is the last thing said, and the one returned. -/
def Stands (judge : MdbPacket → TxReply → Option CommandError) (said : Said) : Option CommandError → Prop
  | none => ∀ x ∈ said, Passes judge x
  | some err => ∃ before q reply, said = before ++ [(q, some reply)] ∧ (∀ y ∈ before, Passes judge y) ∧
      judge q reply = some err

/-- The last `Tx` panicked, and no other one. -/
def Panicked (judge : MdbPacket → TxReply → Option CommandError) (said : Said) : Prop :=
  ∃ before q, said = before ++ [(q, none)] ∧ Stands judge before none

variable {judge : MdbPacket → TxReply → Option CommandError} {said : Said} {demands : MdbPacket → Demand}
  {isTimeout : MdbTxError → Bool} {q : MdbPacket} {reply : TxReply} {err : Option CommandError}

theorem stands_append (passed : Stands judge said none) :
    Stands judge (said ++ [(q, some reply)]) (judge q reply) := by
  cases judged : judge q reply with
  | none =>
    intro y mem
    rcases List.mem_append.mp mem with earlier | last
    · exact passed y earlier
    · rw [List.mem_singleton.mp last]
      exact ⟨reply, rfl, judged⟩
  | some err => exact ⟨said, q, reply, rfl, passed, judged⟩

/-- A needed command that failed has the last word, and so has another one that did not time out. -/
theorem stands_of_error (passed : Stands (verdict demands isTimeout) said none)
    (failed : err = (demands q).error reply) (ends : (demands q).needed ∨ CoinUnit.fatal isTimeout err) :
    Stands (verdict demands isTimeout) (said ++ [(q, some reply)]) err := by
  have judged : verdict demands isTimeout q reply = err := by
    rw [failed] at ends ⊢
    exact if_pos ends
  rw [← judged]
  exact stands_append passed

theorem stands_of_passed (passed : Stands (verdict demands isTimeout) said none)
    (failed : err = (demands q).error reply)
    (goes_on : err = none ∨ (demands q).needed = false ∧ CoinUnit.fatal isTimeout err = false) :
    Stands (verdict demands isTimeout) (said ++ [(q, some reply)]) none := by
  have judged : verdict demands isTimeout q reply = none := by
    show (if _ then _ else none) = none
    rw [← failed]
    rcases goes_on with rfl | ⟨optional, late⟩
    · exact ite_self none
    · simp [optional, late]
  rw [← judged]
  exact stands_append passed

/-- A command of one exchange, with nothing but its error to return. -/
theorem meets_exchange {allowed : Said → MdbPacket → Prop} {breaks : Said → Prop}
    {k : TxReply → DriverM (Option CommandError)} (ok : allowed said q) (panics : breaks (said ++ [(q, none)]))
    (reads : ∀ response err, k (response, err) = .done ((demands q).error (response, err))) :
    (tx (some q) >>= k).Meets allowed breaks
      (fun said' err => ∃ reply, said' = said ++ [(q, some reply)] ∧ err = (demands q).error reply) said := by
  rw [meets_tx]
  refine ⟨ok, panics, fun reply => ?_⟩
  rw [reads]
  exact ⟨reply, rfl, rfl⟩

theorem Demand.error_ne_featureNotSupported (demand : Demand) (reply : TxReply) :
    demand.error reply ≠ some .featureNotSupported := by
  obtain ⟨response, err⟩ := reply
  cases err with
  | some err => exact nofun
  | none =>
    dsimp only [Demand.error]
    split
    · exact nofun
    · split <;> exact nofun

theorem parseDiagResult_error (bs : List UInt8) :
    (bs.length % 2 = 1 → parseDiagResult bs = .error .diagLength) ∧
      (bs.length % 2 = 0 → ∃ words, parseDiagResult bs = .ok words ∧ 2 * words.length = bs.length) := by
  induction bs using parseDiagResult.induct with
  | case1 => exact ⟨by simp, fun _ => ⟨[], rfl, rfl⟩⟩
  | case2 b => exact ⟨fun _ => rfl, by simp⟩
  | case3 a b rest words parsed ih =>
    simp only [parseDiagResult, parsed]
    constructor
    · intro odd
      have := ih.1 (by simp at odd; omega)
      rw [parsed] at this
      cases this
    · intro even
      obtain ⟨_, same, length⟩ := ih.2 (by simp at even; omega)
      cases parsed.symm.trans same
      exact ⟨_, rfl, by simp; omega⟩
  | case4 a b rest err parsed ih =>
    simp only [parseDiagResult, parsed]
    constructor
    · intro odd
      have := ih.1 (by simp at odd; omega)
      rw [parsed] at this
      exact this
    · intro even
      obtain ⟨_, same, -⟩ := ih.2 (by simp at even; omega)
      cases parsed.symm.trans same

namespace CoinUnit

def demand (q : MdbPacket) : Demand :=
  if q.bytes = [0x09] then { expectLength := 7 }
  else if q.bytes = [0x0a] then { expectLength := 2 }
  else if q.bytes = [0x0f, 0x00] then { needed := false, expectLength := 33 }
  else if q.bytes = [0x0f, 0x05] then { needed := false, words := true }
  else if q.bytes.take 2 = [0x0f, 0x01] then { needed := false }
  else {}

/-- Nothing is asked after an error, and the coin types are enabled behind SETUP and TUBE STATUS. -/
def Ordered (isTimeout : MdbTxError → Bool) (before : Said) (q : MdbPacket) : Prop :=
  Stands (verdict demand isTimeout) before none ∧
    (coinTypePacket 0xffff 0xffff = some q →
      (∃ reply, (CoinDriver.packetSetup, some reply) ∈ before) ∧
        ∃ reply, (packetTubeStatus, some reply) ∈ before)

/-- SETUP fails as its exchange does, and never panics. -/
theorem commandSetup_error (self : CoinDriver) (reply : TxReply) :
    ∃ driver err, self.commandSetup (some reply) = some (driver, err) ∧
      err.map SetupError.command = (demand CoinDriver.packetSetup).error reply := by
  obtain ⟨response, err⟩ := reply
  cases err with
  | some err => exact ⟨self, _, rfl, rfl⟩
  | none =>
    have length := response.bytes_length
    have judged : (demand CoinDriver.packetSetup).error (response, none) =
        if response.l < 7 then some (.short response 7) else none := rfl
    rw [judged]
    by_cases short : response.bytes.length < 7
    · refine ⟨self, some (.short response 7), dif_pos short, ?_⟩
      rw [if_pos (by omega)]
      rfl
    · have size : (response.slice 7 (7 + 16)).length = 16 := slice_length (by decide)
      obtain ⟨table, stored, -⟩ := storeCredits_some response.bytes[3].toUInt32
        (UInt32.ofInt self.internalScalingFactor) 0 (response.slice 7 (7 + 16)) self.coinTypeCredit (by omega)
      have done : self.commandSetup (some (response, none)) = some
          ({ self with
              featureLevel := response.bytes[0]
              coinTypeRouting := uint16be response.bytes[5] response.bytes[6]
              coinTypeCredit := table }, none) := by
        simp only [CoinDriver.commandSetup]
        rw [dif_neg short, stored]
        rfl
      refine ⟨_, none, done, ?_⟩
      rw [if_neg (by omega)]
      rfl

theorem featurePacket_bytes (f : UInt32) :
    ∃ q, featurePacket f = some q ∧ q.bytes = 0x0f :: 0x01 :: putUint32 f := by
  have short : ([0x0f, 0x01] ++ putUint32 f).length ≤ packetMaxLength := by simp [putUint32, packetMaxLength]
  obtain ⟨q, packet, bytes, -⟩ := MdbPacket.packetFromBytes_ok short
  exact ⟨q, packet, bytes⟩

variable {before : Said}

theorem ordered_of_ne {q : MdbPacket} (passed : Stands (verdict demand isTimeout) before none)
    (other : coinTypePacket 0xffff 0xffff ≠ some q) : Ordered isTimeout before q :=
  ⟨passed, fun same => absurd same other⟩

/-- The panic of a `Tx`, where it was allowed to ask. -/
theorem Ordered.panicked {q : MdbPacket} (ok : Ordered isTimeout before q) :
    Panicked (verdict demand isTimeout) (before ++ [(q, none)]) :=
  ⟨before, q, rfl, ok.1⟩

theorem commandSetup_meets (self : CoinUnit) (ok : Ordered isTimeout before CoinDriver.packetSetup) :
    self.commandSetup.Meets (Ordered isTimeout) (Panicked (verdict demand isTimeout))
      (fun said r => ∃ reply, said = before ++ [(CoinDriver.packetSetup, some reply)] ∧
        r.2 = (demand CoinDriver.packetSetup).error reply ∧
        ∃ err, self.toCoinDriver.commandSetup (some reply) = some (r.1.toCoinDriver, err)) before := by
  unfold commandSetup
  rw [meets_tx]
  refine ⟨ok, ok.panicked, fun reply => ?_⟩
  obtain ⟨driver, err, setup, judged⟩ := commandSetup_error self.toCoinDriver reply
  rw [setup]
  exact ⟨reply, rfl, judged, err, setup⟩

theorem commandExpansionIdentification_meets (self : CoinUnit) (ok : Ordered isTimeout before packetExpIdent) :
    self.commandExpansionIdentification.Meets (Ordered isTimeout) (Panicked (verdict demand isTimeout))
      (fun said r => ∃ reply, said = before ++ [(packetExpIdent, some reply)] ∧
        r.2 = (demand packetExpIdent).error reply ∧ r.1.toCoinDriver = self.toCoinDriver) before := by
  unfold commandExpansionIdentification
  rw [meets_tx]
  refine ⟨ok, ok.panicked, fun reply => ?_⟩
  obtain ⟨response, err⟩ := reply
  have length := response.bytes_length
  have errs : (demand packetExpIdent).error (response, none) =
      if response.l < 33 then some (.short response 33) else none := rfl
  cases err with
  | some err => exact ⟨(response, some err), rfl, rfl, rfl⟩
  | none =>
    dsimp only
    split
    next short =>
      refine ⟨(response, none), rfl, ?_, rfl⟩
      rw [errs, if_pos (by omega)]
    next long =>
      refine ⟨(response, none), rfl, ?_, rfl⟩
      rw [errs, if_neg (by omega)]

theorem commandTubeStatus_meets (ok : Ordered isTimeout before packetTubeStatus) :
    commandTubeStatus.Meets (Ordered isTimeout) (Panicked (verdict demand isTimeout))
      (fun said err => ∃ reply, said = before ++ [(packetTubeStatus, some reply)] ∧
        err = (demand packetTubeStatus).error reply)
      before := by
  unfold commandTubeStatus
  apply meets_exchange ok ok.panicked
  intro response err
  cases err <;> rfl

theorem commandCoinType_meets {q : MdbPacket} (packet : coinTypePacket 0xffff 0xffff = some q)
    (ok : Ordered isTimeout before q) :
    (commandCoinType 0xffff 0xffff).Meets (Ordered isTimeout) (Panicked (verdict demand isTimeout))
      (fun said err => ∃ reply, said = before ++ [(q, some reply)] ∧ err = (demand q).error reply) before := by
  unfold commandCoinType
  rw [packet]
  apply meets_exchange ok ok.panicked
  intro response err
  cases packet
  cases err <;> rfl

theorem commandFeatureEnable_meets (self : CoinUnit) (requested : UInt32)
    (passed : Stands (verdict demand isTimeout) before none) :
    (self.commandFeatureEnable requested).Meets (Ordered isTimeout) (Panicked (verdict demand isTimeout))
      (fun said err => ∃ q reply, said = before ++ [(q, some reply)] ∧ demand q = { needed := false } ∧
        err = (demand q).error reply) before := by
  obtain ⟨q, packet, bytes⟩ := featurePacket_bytes (requested &&& self.supportedFeatures)
  have kind : demand q = { needed := false } := by simp [demand, bytes]
  unfold commandFeatureEnable
  rw [packet, meets_tx]
  have ok : Ordered isTimeout before q := by
    apply ordered_of_ne passed
    intro same
    cases same
    have head : some (0x0c : UInt8) = some 0x0f := congrArg List.head? bytes
    exact absurd head (by decide)
  refine ⟨ok, ok.panicked, fun reply => ⟨q, reply, rfl, kind, ?_⟩⟩
  rw [kind]
  obtain ⟨response, err⟩ := reply
  cases err <;> rfl

theorem commandExpansionSendDiagStatus_meets (self : CoinUnit) (ok : Ordered isTimeout before packetDiagStatus) :
    self.commandExpansionSendDiagStatus.Meets (Ordered isTimeout) (Panicked (verdict demand isTimeout))
      (fun said r => said = before ∧ r.2 = none ∨
        ∃ reply, said = before ++ [(packetDiagStatus, some reply)] ∧
          r.2 = (demand packetDiagStatus).error reply) before := by
  unfold commandExpansionSendDiagStatus
  split
  next => exact Or.inl ⟨rfl, rfl⟩
  next =>
    rw [meets_tx]
    refine ⟨ok, ok.panicked, fun reply => ?_⟩
    obtain ⟨response, err⟩ := reply
    have length := response.bytes_length
    have errs : (demand packetDiagStatus).error (response, none) =
        if response.l % 2 = 1 then some .diagLength else none := by
      show (if response.l < 0 then some (CommandError.short response 0)
        else if true ∧ response.l % 2 = 1 then some CommandError.diagLength else none) = _
      simp only [Nat.not_lt_zero, if_false, true_and]
    cases err with
    | some err => exact Or.inr ⟨(response, some err), rfl, rfl⟩
    | none =>
      dsimp only
      obtain ⟨odd, even⟩ := parseDiagResult_error response.bytes
      by_cases parity : response.l % 2 = 1
      · rw [odd (by omega)]
        refine Or.inr ⟨(response, none), rfl, ?_⟩
        rw [errs, if_pos parity]
      · obtain ⟨words, parsed, -⟩ := even (by omega)
        rw [parsed]
        refine Or.inr ⟨(response, none), rfl, ?_⟩
        rw [errs, if_neg parity]

/-- The credits are those of the response to SETUP, the first thing said. -/
def Stored (self : CoinUnit) (said : Said) (self' : CoinUnit) : Prop :=
  ∃ reply rest err, said = (CoinDriver.packetSetup, some reply) :: rest ∧
    self.toCoinDriver.commandSetup (some reply) = some (self'.toCoinDriver, err)

/-- What is said when the sequence has ended. -/
structure Ended (isTimeout : MdbTxError → Bool) (self : CoinUnit) (said : Said)
    (r : CoinUnit × Option CommandError) : Prop where
  stands : Stands (verdict demand isTimeout) said r.2
  enabled : r.2 = none → ∃ q reply, coinTypePacket 0xffff 0xffff = some q ∧ (q, some reply) ∈ said
  stored : Stored self said r.1

variable {self self' : CoinUnit}

theorem Stored.append (stored : Stored self said self') (more : Said) : Stored self (said ++ more) self' := by
  obtain ⟨reply, rest, err, rfl, setup⟩ := stored
  exact ⟨reply, rest ++ more, err, rfl, setup⟩

theorem Stored.of_kept {self'' : CoinUnit} (stored : Stored self said self')
    (kept : self''.toCoinDriver = self'.toCoinDriver) :
    Stored self said self'' := by
  unfold Stored at stored ⊢
  rw [kept]
  exact stored

theorem ne_none_of_fatal (ends : fatal isTimeout err = true) : err ≠ none := by
  rintro rfl
  cases ends

theorem ended_of_error (passed : Stands (verdict demand isTimeout) said none) (failed : err = (demand q).error reply)
    (ends : (demand q).needed ∨ fatal isTimeout err) (is_error : err ≠ none)
    (stored : Stored self (said ++ [(q, some reply)]) self') :
    Ended isTimeout self (said ++ [(q, some reply)]) (self', err) where
  stands := stands_of_error passed failed ends
  enabled := fun ok => absurd ok is_error
  stored := stored

/-- The end of the sequence, behind SETUP and the expansion commands. -/
theorem enable_meets (passed : Stands (verdict demand isTimeout) said none) (stored : Stored self said self')
    (setup_said : ∃ reply, (CoinDriver.packetSetup, some reply) ∈ said) :
    (do
      let err ← commandTubeStatus
      if err.isSome then return (self', err)
      let err ← commandCoinType 0xffff 0xffff
      if err.isSome then return (self', err)
      return (self', none) : DriverM (CoinUnit × Option CommandError)).Meets (Ordered isTimeout)
        (Panicked (verdict demand isTimeout))
      (Ended isTimeout self) said := by
  apply Meets.bind (commandTubeStatus_meets (ordered_of_ne passed (by decide)))
  rintro said err ⟨tubes, rfl, failed⟩
  have stored := stored.append [(packetTubeStatus, some tubes)]
  by_cases ends : err.isSome = true
  · rw [if_pos ends]
    exact ended_of_error passed failed (Or.inl rfl) (Option.isSome_iff_ne_none.mp ends) stored
  rw [if_neg ends]
  have passed := stands_of_passed passed failed (Or.inl (by simpa using ends))
  obtain ⟨q, packet⟩ : ∃ q, coinTypePacket 0xffff 0xffff = some q := ⟨_, rfl⟩
  have behind : Ordered isTimeout _ q :=
    ⟨passed, fun _ => ⟨setup_said.imp fun _ mem => List.mem_append_left _ mem, tubes, by simp⟩⟩
  apply Meets.bind (commandCoinType_meets packet behind)
  rintro said err ⟨reply, rfl, failed⟩
  have stored := stored.append [(q, some reply)]
  by_cases ends : err.isSome = true
  · rw [if_pos ends]
    exact ended_of_error passed failed (Or.inl (by cases packet; rfl)) (Option.isSome_iff_ne_none.mp ends) stored
  rw [if_neg ends]
  have passed := stands_of_passed passed failed (Or.inl (by simpa using ends))
  exact ⟨passed, fun _ => ⟨q, reply, packet, by simp⟩, stored⟩

/-- One exchange after the other, each with its error or the next one. -/
theorem initSequence_meets (isTimeout : MdbTxError → Bool) (self : CoinUnit) :
    (initSequence isTimeout self).Meets (Ordered isTimeout) (Panicked (verdict demand isTimeout))
      (Ended isTimeout self) [] := by
  have nothing : Stands (verdict demand isTimeout) [] none := by simp [Stands]
  unfold initSequence
  apply Meets.bind (commandSetup_meets self (ordered_of_ne nothing (by decide)))
  rintro said ⟨self₁, err⟩ ⟨setup, rfl, failed, _, stored⟩
  dsimp only at failed ⊢
  have stored : Stored self ([] ++ [(CoinDriver.packetSetup, some setup)]) self₁ := ⟨setup, [], _, rfl, stored⟩
  by_cases ends : err.isSome = true
  · rw [if_pos ends]
    exact ended_of_error nothing failed (Or.inl rfl) (Option.isSome_iff_ne_none.mp ends) stored
  rw [if_neg ends]
  have passed := stands_of_passed nothing failed (Or.inl (by simpa using ends))
  apply Meets.bind (commandExpansionIdentification_meets self₁ (ordered_of_ne passed (by decide)))
  rintro said ⟨self₂, err⟩ ⟨ident, rfl, failed, kept⟩
  dsimp only at failed kept ⊢
  have stored := (stored.append [(packetExpIdent, some ident)]).of_kept kept
  by_cases ends : fatal isTimeout err = true
  · rw [if_pos ends]
    exact ended_of_error passed failed (Or.inr ends) (ne_none_of_fatal ends) stored
  rw [if_neg ends]
  have passed := stands_of_passed passed failed (Or.inr ⟨rfl, by simpa using ends⟩)
  apply Meets.bind (commandFeatureEnable_meets self₂ featureExtendedDiagnostic passed)
  rintro said err ⟨feature, reply, rfl, optional, failed⟩
  have stored := stored.append [(feature, some reply)]
  by_cases ends : fatal isTimeout err = true
  · rw [if_pos ends]
    exact ended_of_error passed failed (Or.inr ends) (ne_none_of_fatal ends) stored
  rw [if_neg ends]
  have passed := stands_of_passed passed failed (Or.inr ⟨by rw [optional], by simpa using ends⟩)
  apply Meets.bind (commandExpansionSendDiagStatus_meets self₂ (ordered_of_ne passed (by decide)))
  rintro said ⟨words, err⟩ spoke
  dsimp only at spoke ⊢
  by_cases ends : fatal isTimeout err = true
  · rw [if_pos ends]
    obtain ⟨-, rfl⟩ | ⟨diag, rfl, failed⟩ := spoke
    · cases ends
    · exact ended_of_error passed failed (Or.inr ends) (ne_none_of_fatal ends) (stored.append _)
  rw [if_neg ends]
  obtain ⟨passed, stored, setup_said⟩ : Stands (verdict demand isTimeout) said none ∧ Stored self said self₂ ∧
      ∃ reply, (CoinDriver.packetSetup, some reply) ∈ said := by
    obtain ⟨rfl, -⟩ | ⟨diag, rfl, failed⟩ := spoke
    · exact ⟨passed, stored, setup, by simp⟩
    · exact ⟨stands_of_passed passed failed (Or.inr ⟨rfl, by simpa using ends⟩), stored.append _, setup, by simp⟩
  exact enable_meets passed stored setup_said

end CoinUnit

namespace BillUnit

def demand (q : MdbPacket) : Demand :=
  if q.bytes = [0x31] then { expectLength := 27 }
  else if q.bytes = [0x37, 0x02] then { expectLength := 33 }
  else if q.bytes = [0x37, 0x00] then { expectLength := 29 }
  else {}

/-- The verdict on each exchange. -/
def fault (q : MdbPacket) (reply : TxReply) : Option CommandError := (demand q).error reply

/-- What SETUP was answered, the first thing said. -/
def SetUp (said : Said) (response : MdbPacket) : Prop :=
  ∃ rest, said = (BillDriver.packetSetup, some (response, none)) :: rest

/-- Nothing is asked after an error. The identification is with option bits from feature level 2
on, and the bill types are enabled behind SETUP, the identification and STACKER. -/
structure Ordered (before : Said) (q : MdbPacket) : Prop where
  passed : Stands fault before none
  options : q = packetExpIdentOptions → ∃ response, SetUp before response ∧ 2 ≤ response.bytes.headD 0
  plain : q = packetExpIdent → ∃ response, SetUp before response ∧ response.bytes.headD 0 < 2
  enable : billTypePacket 0xffff 0 = some q → (∃ response, SetUp before response) ∧
    (∃ x ∈ before, x.1 = packetExpIdentOptions ∨ x.1 = packetExpIdent) ∧ ∃ x ∈ before, x.1 = packetStacker

/-- What is said when the sequence has ended. -/
structure Ended (said : Said) (r : BillUnit × Option CommandError) : Prop where
  stands : Stands fault said r.2
  fits : ∀ response, SetUp said response → response.l ≤ 27
  enabled : r.2 = none → ∃ q reply, billTypePacket 0xffff 0 = some q ∧ (q, some reply) ∈ said

/-- SETUP panics at a response with more credits than the table has entries for. -/
def Overlong (said : Said) : Prop :=
  ∃ response, said = [(BillDriver.packetSetup, some (response, none))] ∧ 27 < response.l

/-- What is said when the sequence has panicked. -/
def Broken (said : Said) : Prop := Panicked fault said ∨ Overlong said

theorem commandSetup_cases (self : BillDriver) (reply : TxReply) :
    (∃ driver err, self.commandSetup (some reply) = some (driver, err) ∧
      err.map SetupError.command = (demand BillDriver.packetSetup).error reply ∧
      (err = none → reply.2 = none ∧ reply.1.l ≤ 27 ∧ driver.featureLevel = reply.1.bytes.headD 0)) ∨
      self.commandSetup (some reply) = none ∧ reply.2 = none ∧ 27 < reply.1.l := by
  obtain ⟨response, err⟩ := reply
  cases err with
  | some err => exact Or.inl ⟨self, _, rfl, rfl, nofun⟩
  | none =>
    have length := response.bytes_length
    have judged : (demand BillDriver.packetSetup).error (response, none) =
        if response.l < 27 then some (.short response 27) else none := rfl
    rw [judged]
    by_cases short : response.bytes.length < 27
    · refine Or.inl ⟨self, some (.short response 27), dif_pos short, ?_, nofun⟩
      rw [if_pos (by omega)]
      rfl
    have dropped : (response.bytes.drop 11).length = response.l - 11 := by
      rw [List.length_drop, length]
    by_cases longer : 27 < response.l
    · refine Or.inr ⟨?_, rfl, longer⟩
      simp only [BillDriver.commandSetup]
      rw [dif_neg short, storeCredits_none (by omega) (by omega)]
      rfl
    · obtain ⟨table, stored, -⟩ := storeCredits_some (uint16be response.bytes[3] response.bytes[4]).toUInt32
        (UInt32.ofInt self.internalScalingFactor) 0 (response.bytes.drop 11) self.billTypeCredit (by omega)
      have done : self.commandSetup (some (response, none)) = some
          ({ self with
              featureLevel := response.bytes[0]
              escrowCap := response.bytes[10] = 0xff
              billTypeCredit := table }, none) := by
        simp only [BillDriver.commandSetup]
        rw [dif_neg short, stored]
        rfl
      refine Or.inl ⟨_, none, done, ?_, fun _ => ⟨rfl, Nat.not_lt.mp longer, ?_⟩⟩
      · rw [if_neg (by omega)]
        rfl
      · show response.bytes[0] = response.bytes.headD 0
        rw [List.headD_eq_head?_getD, List.head?_eq_getElem?, List.getElem?_eq_getElem, Option.getD_some]

variable {before : Said} {self : BillUnit} {response : MdbPacket}

/-- The panic of a `Tx`, where it was allowed to ask. -/
theorem Ordered.broken (ok : Ordered before q) : Broken (before ++ [(q, none)]) :=
  Or.inl ⟨before, q, rfl, ok.passed⟩

theorem commandSetup_meets (self : BillUnit) :
    self.commandSetup.Meets Ordered Broken
      (fun said r => ∃ reply, said = [(BillDriver.packetSetup, some reply)] ∧
        r.2 = (demand BillDriver.packetSetup).error reply ∧
        (r.2 = none → reply.2 = none ∧ reply.1.l ≤ 27 ∧ r.1.featureLevel = reply.1.bytes.headD 0)) [] := by
  unfold commandSetup
  rw [meets_tx]
  have ok : Ordered [] BillDriver.packetSetup := by
    constructor
    · exact nofun
    · exact fun same => absurd same (by decide)
    · exact fun same => absurd same (by decide)
    · exact fun same => absurd same (by decide)
  refine ⟨ok, ok.broken, fun reply => ?_⟩
  rcases commandSetup_cases self.toBillDriver reply with
    ⟨driver, err, setup, failed, ok⟩ | ⟨panics, no_error, longer⟩
  · rw [setup]
    refine ⟨reply, rfl, failed, fun none_ => ok ?_⟩
    simpa using none_
  · rw [panics]
    obtain ⟨response, err⟩ := reply
    cases no_error
    exact Or.inr ⟨response, rfl, longer⟩

theorem commandExpansionIdentificationOptions_meets (passed : Stands fault before none)
    (setup : SetUp before response) (level : self.featureLevel = response.bytes.headD 0) :
    self.commandExpansionIdentificationOptions.Meets Ordered Broken
      (fun said r => said = before ∧ self.featureLevel < 2 ∧ r.2 = some .featureNotSupported ∨
        ∃ reply, said = before ++ [(packetExpIdentOptions, some reply)] ∧
          r.2 = (demand packetExpIdentOptions).error reply)
      before := by
  unfold commandExpansionIdentificationOptions
  split
  next low => exact Or.inl ⟨rfl, low, rfl⟩
  next high =>
    rw [meets_tx]
    have ok : Ordered before packetExpIdentOptions := by
      refine ⟨passed, fun _ => ⟨response, setup, ?_⟩, ?_, ?_⟩
      · rw [← level]
        exact UInt8.not_lt.mp high
      · exact fun same => absurd same (by decide)
      · exact fun same => absurd same (by decide)
    refine ⟨ok, ok.broken, fun reply => ?_⟩
    obtain ⟨answer, err⟩ := reply
    have length := answer.bytes_length
    have errs : (demand packetExpIdentOptions).error (answer, none) =
        if answer.l < 33 then some (.short answer 33) else none := rfl
    cases err with
    | some err => exact Or.inr ⟨(answer, some err), rfl, rfl⟩
    | none =>
      dsimp only
      split
      next short =>
        refine Or.inr ⟨(answer, none), rfl, ?_⟩
        rw [errs, if_pos (by omega)]
      next long =>
        refine Or.inr ⟨(answer, none), rfl, ?_⟩
        rw [errs, if_neg (by omega)]

theorem commandExpansionIdentification_meets (ok : Ordered before packetExpIdent) :
    commandExpansionIdentification.Meets Ordered Broken
      (fun said err => ∃ reply, said = before ++ [(packetExpIdent, some reply)] ∧
        err = (demand packetExpIdent).error reply)
      before := by
  unfold commandExpansionIdentification
  apply meets_exchange ok ok.broken
  intro response err
  cases err <;> rfl

theorem commandStacker_meets (ok : Ordered before packetStacker) :
    commandStacker.Meets Ordered Broken
      (fun said err => ∃ reply, said = before ++ [(packetStacker, some reply)] ∧
        err = (demand packetStacker).error reply)
      before := by
  unfold commandStacker
  apply meets_exchange ok ok.broken
  intro response err
  cases err <;> rfl

theorem commandBillType_meets {q : MdbPacket} (packet : billTypePacket 0xffff 0 = some q) (ok : Ordered before q) :
    (commandBillType 0xffff 0).Meets Ordered Broken
      (fun said err => ∃ reply, said = before ++ [(q, some reply)] ∧ err = (demand q).error reply) before := by
  unfold commandBillType
  rw [packet]
  apply meets_exchange ok ok.broken
  intro response err
  cases packet
  cases err <;> rfl

theorem SetUp.append (setup : SetUp said response) (more : Said) : SetUp (said ++ more) response := by
  obtain ⟨rest, rfl⟩ := setup
  exact ⟨rest ++ more, rfl⟩

theorem SetUp.eq_of_append {response' : MdbPacket} {more : Said} (setup : SetUp said response)
    (later : SetUp (said ++ more) response') : response' = response := by
  obtain ⟨rest, rfl⟩ := setup
  obtain ⟨rest', same⟩ := later
  have first := (List.cons.inj same).1
  exact (Prod.mk.inj (Option.some.inj (Prod.mk.inj first).2)).1.symm

theorem ended_of_error (passed : Stands fault said none) (setup : SetUp said response) (fits : response.l ≤ 27)
    (failed : err = (demand q).error reply) (is_error : err ≠ none) :
    Ended (said ++ [(q, some reply)]) (self, err) where
  stands := by
    rw [failed]
    exact stands_append passed
  fits := fun _ later => setup.eq_of_append later ▸ fits
  enabled := fun ok => absurd ok is_error

theorem ended_of_setup_error {answered : Option MdbTxError}
    (failed : err = (demand BillDriver.packetSetup).error (response, answered)) (is_error : err ≠ none) :
    Ended [(BillDriver.packetSetup, some (response, answered))] (self, err) where
  stands := by
    rw [failed]
    exact @stands_append fault [] _ _ nofun
  fits := by
    intro response' ⟨rest, same⟩
    cases same
    rw [failed] at is_error
    have short : response.l < 27 := by
      by_contra long
      exact is_error (if_neg long)
    exact short.le
  enabled := fun ok => absurd ok is_error

theorem passed_append (passed : Stands fault said none) (ok : (demand q).error reply = none) :
    Stands fault (said ++ [(q, some reply)]) none := by
  rw [← ok]
  exact stands_append passed

/-- The end of the sequence, behind SETUP and the identification. -/
theorem enable_meets (passed : Stands fault said none) (setup : SetUp said response) (fits : response.l ≤ 27)
    (identified : ∃ x ∈ said, x.1 = packetExpIdentOptions ∨ x.1 = packetExpIdent) :
    (do
      let err ← commandStacker
      if err.isSome then return (self, err)
      let err ← commandBillType 0xffff 0
      if err.isSome then return (self, err)
      return (self, none) : DriverM (BillUnit × Option CommandError)).Meets Ordered Broken Ended said := by
  have next : Ordered said packetStacker :=
    ⟨passed, fun same => absurd same (by decide), fun same => absurd same (by decide),
      fun same => absurd same (by decide)⟩
  apply Meets.bind (commandStacker_meets next)
  rintro said' err ⟨stacker, rfl, failed⟩
  by_cases ends : err.isSome = true
  · rw [if_pos ends]
    exact ended_of_error passed setup fits failed (Option.isSome_iff_ne_none.mp ends)
  rw [if_neg ends]
  have passed := passed_append passed (failed.symm.trans (by simpa using ends))
  obtain ⟨q, packet⟩ : ∃ q, billTypePacket 0xffff 0 = some q := ⟨_, rfl⟩
  have last : Ordered (said ++ [(packetStacker, some stacker)]) q := by
    have stacked : ∃ x ∈ said ++ [(packetStacker, some stacker)], x.1 = packetStacker :=
      ⟨_, List.mem_append_right _ List.mem_cons_self, rfl⟩
    refine ⟨passed, ?_, ?_, fun _ => ⟨⟨response, setup.append _⟩, ?_, stacked⟩⟩
    · intro same
      cases packet
      exact absurd same (by decide)
    · intro same
      cases packet
      exact absurd same (by decide)
    · exact identified.imp fun x kind => ⟨List.mem_append_left _ kind.1, kind.2⟩
  apply Meets.bind (commandBillType_meets packet last)
  rintro said' err ⟨reply, rfl, failed⟩
  by_cases ends : err.isSome = true
  · rw [if_pos ends]
    exact ended_of_error passed (setup.append _) fits failed (Option.isSome_iff_ne_none.mp ends)
  rw [if_neg ends]
  have passed := passed_append passed (failed.symm.trans (by simpa using ends))
  exact ⟨passed, fun _ later => (setup.append _).eq_of_append later ▸ fits, fun _ => ⟨q, reply, packet, by simp⟩⟩

/-- One exchange after the other, with the plain identification where the one with option bits
is not supported. -/
theorem initSequence_meets (self : BillUnit) : self.initSequence.Meets Ordered Broken Ended [] := by
  have nothing : Stands fault [] none := nofun
  unfold initSequence
  apply Meets.bind (commandSetup_meets self)
  rintro said ⟨self₁, err⟩ ⟨⟨response, answered⟩, rfl, failed, ok⟩
  dsimp only at failed ok ⊢
  by_cases ends : err.isSome = true
  · rw [if_pos ends]
    exact ended_of_setup_error failed (Option.isSome_iff_ne_none.mp ends)
  rw [if_neg ends]
  have none_ : err = none := by simpa using ends
  obtain ⟨rfl, fits, level⟩ := ok none_
  have setup : SetUp [(BillDriver.packetSetup, some (response, none))] response := ⟨[], rfl⟩
  have passed := passed_append nothing (failed.symm.trans none_)
  apply Meets.bind (commandExpansionIdentificationOptions_meets passed setup level)
  rintro said ⟨self₂, err⟩ spoke
  dsimp only at spoke ⊢
  rcases spoke with ⟨rfl, low, rfl⟩ | ⟨options, rfl, failed⟩
  · rw [if_pos rfl]
    have next : Ordered [(BillDriver.packetSetup, some (response, none))] packetExpIdent := by
      refine ⟨passed, fun same => absurd same (by decide), fun _ => ⟨response, setup, ?_⟩,
        fun same => absurd same (by decide)⟩
      rw [← level]
      exact low
    apply Meets.bind (commandExpansionIdentification_meets next)
    rintro said err ⟨plain, rfl, failed⟩
    by_cases ends : err.isSome = true
    · rw [if_pos ends]
      exact ended_of_error passed setup fits failed (Option.isSome_iff_ne_none.mp ends)
    rw [if_neg ends]
    have passed := passed_append passed (failed.symm.trans (by simpa using ends))
    exact enable_meets passed (setup.append _) fits ⟨_, List.mem_append_right _ List.mem_cons_self, Or.inr rfl⟩
  · have supported : err ≠ some .featureNotSupported := failed ▸ Demand.error_ne_featureNotSupported _ _
    rw [if_neg supported]
    by_cases ends : err.isSome = true
    · rw [if_pos ends]
      exact ended_of_error passed setup fits failed (Option.isSome_iff_ne_none.mp ends)
    rw [if_neg ends]
    have passed := passed_append passed (failed.symm.trans (by simpa using ends))
    exact enable_meets passed (setup.append _) fits ⟨_, List.mem_append_right _ List.mem_cons_self, Or.inl rfl⟩

/-- Whatever the validator answers, the sequence stops at the first error and returns it, panics
where a `Tx` does and at an overlong SETUP response, and has the bill types enabled last. -/
theorem bills_enabled_last {δ σ : Type*} [DecidableEq δ] (b : Bus MdbPacket TxResult δ σ) (self : BillUnit)
    (peers : δ → σ) :
    (match (self.initSequence.play b peers).result with
      | some r => Ended (self.initSequence.play b peers).said r
      | none => Broken (self.initSequence.play b peers).said) ∧
      ∀ before q reply after, (self.initSequence.play b peers).said = before ++ (q, reply) :: after →
        Ordered before q := by
  obtain ⟨ordered, ended⟩ := self.initSequence_meets.play b peers
  refine ⟨?_, ordered⟩
  cases result : (self.initSequence.play b peers).result with
  | none =>
    rw [result] at ended
    exact ended
  | some r =>
    rw [result] at ended
    exact ended

end BillUnit

end Vender
