import Vender.SerialWords

namespace Vender

namespace GpioMdb

open Effects

/-- What a call of pigpio has to answer, as far as its caller looks at it. -/
inductive Ask
  | accepted
  | busy
  | idle
  | tick (t : UInt32)
  | read (ws : List (UInt8 × UInt8))

def Ask.Met : Ask → Answer → Prop
  | .accepted, a => 0 ≤ a.rc
  | .busy, a => a.rc = 1
  | .idle, a => a.rc = 0
  | .tick t, a => a.tick = t
  | .read ws, a => 0 ≤ a.rc ∧ a.data = rawWords ws

/-- The first of these answers meet what is asked, one by one, and the others are left. -/
inductive Serves : List Ask → List Answer → List Answer → Prop
  | nil {answers : List Answer} : Serves [] answers answers
  | cons {ask : Ask} {a : Answer} {asks : List Ask} {answers left : List Answer} (met : ask.Met a)
      (rest : Serves asks answers left) : Serves (ask :: asks) (a :: answers) left

theorem Serves.length_le {asks : List Ask} {answers left : List Answer} (h : Serves asks answers left) :
    asks.length + left.length = answers.length := by
  induction h with
  | nil => simp
  | cons _ _ ih =>
    rw [List.length_cons, List.length_cons]
    omega

theorem call_cons {a : Answer} {answers : List Answer} {g : Gpio} (h : g.answers = a :: answers) :
    call g = .ok a { g with answers } := by
  unfold call
  rw [bind_of_ok (get_ok g)]
  simp only [h]
  rfl

/-- With no answer left a call waits for ever. -/
theorem call_starved {g : Gpio} (h : g.answers = []) : call g = .error .starved g := by
  rw [call, bind_of_ok (get_ok g)]
  simp only [h]
  rfl

theorem check_of_neg {rc : Int} (failed : rc < 0) (g : Gpio) : check rc g = .error (.err (.pigpio rc)) g := by
  rw [check, if_pos failed]
  rfl

theorem check_of_nonneg {rc : Int} (accepted : 0 ≤ rc) (g : Gpio) : check rc g = .ok (UInt32.ofNat rc.toNat) g := by
  have sign : ¬ rc < 0 := by omega
  rw [check, if_neg sign]
  rfl

theorem call_serves {ask : Ask} {asks : List Ask} {left : List Answer} {g : Gpio}
    (h : Serves (ask :: asks) g.answers left) :
    ∃ a answers, ask.Met a ∧ Serves asks answers left ∧ call g = .ok a { g with answers } := by
  generalize same : g.answers = all at h
  cases h with
  | @cons _ a _ answers _ met rest => exact ⟨a, answers, met, rest, call_cons same⟩

theorem checkCall_serves {asks : List Ask} {left : List Answer} {g : Gpio} {ask : Ask}
    (h : Serves (ask :: asks) g.answers left) (accepts : ∀ a, ask.Met a → 0 ≤ a.rc) :
    ∃ a answers, ask.Met a ∧ Serves asks answers left ∧
      checkCall g = .ok (UInt32.ofNat a.rc.toNat) { g with answers } := by
  obtain ⟨a, answers, met, rest, called⟩ := call_serves h
  refine ⟨a, answers, met, rest, ?_⟩
  rw [checkCall, bind_of_ok called, check_of_nonneg (accepts a met)]

theorem checkCall_accepted {asks : List Ask} {left : List Answer} {g : Gpio}
    (h : Serves (.accepted :: asks) g.answers left) :
    ∃ u answers, Serves asks answers left ∧ checkCall g = .ok u { g with answers } := by
  obtain ⟨a, answers, _, rest, done⟩ := checkCall_serves h fun _ met => met
  exact ⟨_, answers, rest, done⟩

theorem tickSince_serves {asks : List Ask} {left : List Answer} {g : Gpio} {t : UInt32} (start : UInt32)
    (h : Serves (.tick t :: asks) g.answers left) :
    ∃ answers, Serves asks answers left ∧ tickSince start g = .ok (t - start) { g with answers } := by
  obtain ⟨a, answers, met, rest, called⟩ := call_serves h
  refine ⟨answers, rest, ?_⟩
  rw [tickSince, bind_of_ok called, show a.tick = t from met]
  rfl

theorem tickSince_zero {asks : List Ask} {left : List Answer} {g : Gpio} {t : UInt32}
    (h : Serves (.tick t :: asks) g.answers left) :
    ∃ answers, Serves asks answers left ∧ tickSince 0 g = .ok t { g with answers } := by
  obtain ⟨answers, rest, done⟩ := tickSince_serves 0 h
  exact ⟨answers, rest, by rw [done, UInt32.sub_zero]⟩

theorem waveTxBusy_serves {ask : Ask} {asks : List Ask} {left : List Answer} {g : Gpio} (busy : Bool)
    (h : Serves (ask :: asks) g.answers left) (shown : ∀ a, ask.Met a → a.rc = if busy then 1 else 0) :
    ∃ answers, Serves asks answers left ∧ waveTxBusy g = .ok busy { g with answers } := by
  have accepts : ∀ a, ask.Met a → 0 ≤ a.rc := by
    intro a met
    rw [shown a met]
    split <;> omega
  obtain ⟨a, answers, met, rest, done⟩ := checkCall_serves h accepts
  refine ⟨answers, rest, ?_⟩
  rw [waveTxBusy, bind_of_ok done, shown a met]
  cases busy <;> rfl

theorem addU32_fits {a b : UInt32} (fits : a.toNat + b.toNat < 2 ^ 32) (g : Gpio) : addU32 a b g = .ok (a + b) g := by
  rw [addU32, if_pos fits]
  rfl

theorem addU32_wraps {a b u : UInt32} {g g' : Gpio} (wraps : ¬ a.toNat + b.toNat < 2 ^ 32) :
    addU32 a b g ≠ .ok u g' := by
  rw [addU32, if_neg wraps]
  exact throw_ne_ok

/-- A wave that is accepted, seen busy at some ticks, and then idle. -/
structure WaveRun where
  start : UInt32
  busy : List UInt32 := []

def busyAsks (busy : List UInt32) : List Ask := busy.flatMap fun t => [.busy, .tick t]

def WaveRun.asks (w : WaveRun) : List Ask := .tick w.start :: .accepted :: (busyAsks w.busy ++ [.idle, .accepted])

def WaveRun.InTime (w : WaveRun) (deadline : UInt32) : Prop := ∀ t ∈ w.busy, t - w.start ≤ deadline

instance (w : WaveRun) (deadline : UInt32) : Decidable (w.InTime deadline) :=
  List.decidableBAll (fun t => t - w.start ≤ deadline) w.busy

theorem busyAsks_length (busy : List UInt32) : (busyAsks busy).length = 2 * busy.length := by
  simp [busyAsks, Nat.mul_comm]

theorem sendWaitLoop_serves {start deadline : UInt32} {busy : List UInt32} {asks : List Ask} {left : List Answer}
    {g : Gpio} {fuel : Nat} (err : MdbTimeout) (h : Serves (busyAsks busy ++ .idle :: asks) g.answers left)
    (inTime : ∀ t ∈ busy, t - start ≤ deadline) (enough : busy.length < fuel) :
    ∃ answers, Serves asks answers left ∧ sendWaitLoop start deadline err fuel g = .ok () { g with answers } := by
  induction busy generalizing g fuel with
  | nil =>
    obtain ⟨n, rfl⟩ : ∃ n, fuel = n + 1 := ⟨fuel - 1, by omega⟩
    obtain ⟨answers, rest, idle⟩ := waveTxBusy_serves false h fun _ met => met
    refine ⟨answers, rest, ?_⟩
    rw [sendWaitLoop, bind_of_ok idle]
    rfl
  | cons t busy ih =>
    rw [List.length_cons] at enough
    obtain ⟨n, rfl⟩ : ∃ n, fuel = n + 1 := ⟨fuel - 1, by omega⟩
    obtain ⟨soon, later⟩ := List.forall_mem_cons.mp inTime
    have asked : busyAsks (t :: busy) ++ .idle :: asks = .busy :: .tick t :: (busyAsks busy ++ .idle :: asks) := rfl
    have enough : busy.length < n := by omega
    rw [asked] at h
    obtain ⟨answers₁, h, seen⟩ := waveTxBusy_serves true h fun _ met => met
    obtain ⟨answers₂, h, total⟩ := tickSince_serves (g := { g with answers := answers₁ }) start h
    obtain ⟨answers, h, done⟩ := ih (g := { g with answers := answers₂ }) h later enough
    refine ⟨answers, h, ?_⟩
    rw [sendWaitLoop, bind_of_ok seen, if_pos rfl, bind_of_ok total, if_neg (UInt32.not_lt.mpr soon), done]

theorem mdbWaveSendWait_serves {w : WaveRun} {deadline : UInt32} {asks : List Ask} {left : List Answer} {g : Gpio}
    (wave : MdbWave) (err : MdbTimeout) (h : Serves (w.asks ++ asks) g.answers left) (inTime : w.InTime deadline) :
    ∃ answers, Serves asks answers left ∧
      mdbWaveSendWait wave deadline err g = .ok () { g with answers, sent := g.sent ++ [wave] } := by
  have asked : w.asks ++ asks = .tick w.start :: .accepted :: (busyAsks w.busy ++ .idle :: .accepted :: asks) := by
    simp [WaveRun.asks]
  rw [asked] at h
  obtain ⟨answers₁, h, start⟩ := tickSince_zero h
  obtain ⟨_, answers₂, h, accepted⟩ := checkCall_accepted (g := { g with answers := answers₁ }) h
  have rounds : w.busy.length < answers₂.length + 1 := by
    have length := h.length_le
    rw [List.length_append, busyAsks_length] at length
    omega
  obtain ⟨answers₃, h, idle⟩ :=
    sendWaitLoop_serves (g := { g with answers := answers₂, sent := g.sent ++ [wave] }) err h inTime rounds
  obtain ⟨_, answers, h, stopped⟩ :=
    checkCall_accepted (g := { g with answers := answers₃, sent := g.sent ++ [wave] }) h
  refine ⟨answers, h, ?_⟩
  rw [mdbWaveSendWait, bind_of_ok start, bind_of_ok accepted, bind_of_ok (modify_ok _ _), bind_of_ok (get_ok _),
    bind_of_ok idle, bind_of_ok stopped]
  rfl

theorem mdbWaveCreate_serves {s : List UInt8} {asks : List Ask} {left : List Answer} {g : Gpio}
    (h : Serves (.accepted :: .accepted :: .accepted :: asks) g.answers left) :
    ∃ u answers, Serves asks answers left ∧
      mdbWaveCreate s g = .ok u { g with answers, handed := g.handed ++ [s] } := by
  obtain ⟨_, answers₁, h, first⟩ := checkCall_accepted (g := { g with handed := g.handed ++ [s] }) h
  obtain ⟨_, answers₂, h, second⟩ :=
    checkCall_accepted (g := { g with answers := answers₁, handed := g.handed ++ [s] }) h
  obtain ⟨u, answers, h, third⟩ :=
    checkCall_accepted (g := { g with answers := answers₂, handed := g.handed ++ [s] }) h
  refine ⟨u, answers, h, ?_⟩
  rw [mdbWaveCreate, bind_of_ok (modify_ok _ _), bind_of_ok first, bind_of_ok second, third]

/-- Some words, and the ticks at which a read before had found none. -/
structure Delivery where
  idle : List UInt32 := []
  words : List (UInt8 × UInt8)

def idleAsks (idle : List UInt32) : List Ask := idle.flatMap fun t => [.read [], .tick t]

def Delivery.asks (p : Delivery) : List Ask := idleAsks p.idle ++ [.read p.words]

theorem idleAsks_length (idle : List UInt32) : (idleAsks idle).length = 2 * idle.length := by
  simp [idleAsks, Nat.mul_comm]

theorem asks_length (ps : List Delivery) : ps.length ≤ (ps.flatMap Delivery.asks).length := by
  induction ps with
  | nil => simp
  | cons p ps ih =>
    rw [List.flatMap_cons, List.length_append, Delivery.asks, List.length_append, List.length_singleton,
      List.length_cons]
    omega

theorem serialRead_cons {a : Answer} {answers : List Answer} {g : Gpio} (h : g.answers = a :: answers)
    (accepted : 0 ≤ a.rc) :
    serialRead g = .ok (min a.data.length bufSize)
      { g with answers, buf := overwrite g.buf a.data, reads := g.reads ++ [a.data.take bufSize] } := by
  rw [serialRead, bind_of_ok (call_cons h), bind_of_ok (check_of_nonneg accepted _),
    bind_of_ok (modify_ok _ _), pure_ok]

theorem tickSince_cons {a : Answer} {answers : List Answer} {g : Gpio} (h : g.answers = a :: answers) :
    tickSince 0 g = .ok a.tick { g with answers } := by
  rw [tickSince, bind_of_ok (call_cons h), UInt32.sub_zero]
  rfl

theorem serialRead_serves {ws : List (UInt8 × UInt8)} {asks : List Ask} {left : List Answer} {g : Gpio}
    (h : Serves (.read ws :: asks) g.answers left) (short : ws.length ≤ blockMaxLength) :
    ∃ g', Serves asks g'.answers left ∧ serialRead g = .ok (2 * ws.length) g' ∧
      g'.buf = overwrite g.buf (rawWords ws) ∧ g'.response = g.response ∧ g'.sent = g.sent := by
  have fits : (rawWords ws).length ≤ bufSize := by
    simp only [rawWords_length, bufSize, wordSize]
    omega
  generalize same : g.answers = all at h
  cases h with
  | @cons _ a _ answers _ met rest =>
    obtain ⟨accepted, data⟩ := met
    let read : Gpio :=
      { g with answers, buf := overwrite g.buf (rawWords ws), reads := g.reads ++ [(rawWords ws).take bufSize] }
    refine ⟨read, rest, ?_, rfl, rfl, rfl⟩
    rw [serialRead_cons same accepted, data, Nat.min_eq_left fits, rawWords_length]

theorem waitReceive_serves {p : Delivery} {deadline : UInt32} {asks : List Ask} {left : List Answer} {g : Gpio}
    {fuel : Nat} (h : Serves (p.asks ++ asks) g.answers left) (nonempty : p.words ≠ [])
    (short : p.words.length ≤ blockMaxLength) (inTime : ∀ t ∈ p.idle, t ≤ deadline) (enough : p.idle.length < fuel) :
    ∃ g', Serves asks g'.answers left ∧ waitReceive deadline fuel g = .ok (2 * p.words.length) g' ∧
      receivedWords g'.buf (2 * p.words.length) = p.words ∧ g'.response = g.response ∧ g'.sent = g.sent := by
  obtain ⟨idle, words⟩ := p
  dsimp only at nonempty short inTime enough ⊢
  have some_word : 0 < words.length := List.length_pos_iff.mpr nonempty
  induction idle generalizing g fuel with
  | nil =>
    obtain ⟨n, rfl⟩ : ∃ n, fuel = n + 1 := ⟨fuel - 1, by simp only [List.length_nil] at enough; omega⟩
    have asked : Delivery.asks ⟨[], words⟩ ++ asks = .read words :: asks := rfl
    rw [asked] at h
    obtain ⟨g', rest, read, buf, same⟩ := serialRead_serves h short
    have even : (rawWords words).length % 2 = 0 := by
      rw [rawWords_length]
      omega
    have fits : (rawWords words).length ≤ bufSize := by
      simp only [rawWords_length, bufSize, wordSize]
      omega
    refine ⟨g', rest, ?_, ?_, same⟩
    · rw [waitReceive, bind_of_ok read, if_pos (by omega), pure_ok]
    · rw [buf, ← rawWords_length, receivedWords_overwrite g.buf even fits, wordsIn_rawWords]
  | cons t idle ih =>
    rw [List.length_cons] at enough
    obtain ⟨n, rfl⟩ : ∃ n, fuel = n + 1 := ⟨fuel - 1, by omega⟩
    have enough : idle.length < n := by omega
    obtain ⟨soon, later⟩ := List.forall_mem_cons.mp inTime
    have asked : Delivery.asks ⟨t :: idle, words⟩ ++ asks =
        .read [] :: .tick t :: (Delivery.asks ⟨idle, words⟩ ++ asks) := rfl
    rw [asked] at h
    obtain ⟨g₁, h, none_read, _, response₁, sent₁⟩ := serialRead_serves h (Nat.zero_le _)
    obtain ⟨answers, h, now⟩ := tickSince_zero h
    obtain ⟨g', h, read, words', response, sent⟩ := ih (g := { g₁ with answers }) h later enough
    refine ⟨g', h, ?_, words', response.trans response₁, sent.trans sent₁⟩
    rw [waitReceive, bind_of_ok none_read, if_neg (by simp), bind_of_ok now, if_neg (UInt32.not_lt.mpr soon), read]

/-- The words of a reply: its data and, with the end flag, its last byte. -/
def replyWords (d : List UInt8) (c : UInt8) : List (UInt8 × UInt8) := d.map (fun b => (b, 0)) ++ [(c, 1)]

theorem endByte_data (d : List UInt8) : endByte (d.map fun b => (b, 0)) = none := by
  simp [endByte]

theorem beforeEnd_data (d : List UInt8) : beforeEnd (d.map fun b => (b, 0)) = d.map fun b => (b, 0) :=
  beforeEnd_of_none (endByte_data d)

theorem data_bytes (d : List UInt8) : (d.map fun b => (b, (0 : UInt8))).map Prod.fst = d := by
  rw [List.map_map]
  exact List.map_id d

theorem endByte_replyWords (d : List UInt8) (c : UInt8) : endByte (replyWords d c) = some c := by
  rw [replyWords, endByte_append (endByte_data d)]
  simp [endByte]

theorem beforeEnd_replyWords (d : List UInt8) (c : UInt8) :
    (beforeEnd (replyWords d c)).map Prod.fst = d := by
  have last : beforeEnd [(c, 1)] = [] := by simp [beforeEnd]
  rw [replyWords, beforeEnd_append (endByte_data d), beforeEnd_data, last, List.append_nil, data_bytes]

/-- Where a reply is cut in front of some of its words, the first part is data. -/
theorem replyWords_cut {ws vs : List (UInt8 × UInt8)} {d : List UInt8} {c : UInt8} (some_word : vs ≠ [])
    (h : ws ++ vs = replyWords d c) :
    ∃ d₁ d₂, d = d₁ ++ d₂ ∧ ws = d₁.map (fun b => (b, 0)) ∧ vs = replyWords d₂ c := by
  induction ws generalizing d with
  | nil => exact ⟨[], d, rfl, rfl, h⟩
  | cons w ws ih =>
    cases d with
    | nil =>
      have empty : ws ++ vs = [] := (List.cons.inj h).2
      exact absurd (List.append_eq_nil_iff.mp empty).2 some_word
    | cons b d =>
      obtain ⟨rfl, rest⟩ := List.cons.inj h
      obtain ⟨d₁, d₂, rfl, rfl, after⟩ := ih rest
      exact ⟨b :: d₁, d₂, rfl, rfl, after⟩

/-- The loop takes the data of a reply, however it is cut, and returns its last byte. -/
theorem receiveLoop_serves {ps : List Delivery} {ws : List (UInt8 × UInt8)} {d : List UInt8} {c : UInt8}
    {deadline : UInt32} {fuel n : Nat} {asks : List Ask} {left : List Answer} {g : Gpio}
    (current : receivedWords g.buf n = ws) (whole : ws ++ ps.flatMap Delivery.words = replyWords d c)
    (h : Serves (ps.flatMap Delivery.asks ++ asks) g.answers left) (nonempty : ∀ p ∈ ps, p.words ≠ [])
    (short : d.length < blockMaxLength) (inTime : ∀ p ∈ ps, ∀ t ∈ p.idle, t ≤ deadline) (enough : ps.length < fuel) :
    ∃ g', Serves asks g'.answers left ∧ receiveLoop deadline fuel n g = .ok c g' ∧ g'.response = g.response ++ d ∧
      g'.sent = g.sent := by
  induction ps generalizing ws d n g fuel with
  | nil =>
    obtain ⟨m, rfl⟩ : ∃ m, fuel = m + 1 := ⟨fuel - 1, by simp only [List.length_nil] at enough; omega⟩
    rw [List.flatMap_nil, List.append_nil] at whole
    refine ⟨{ g with response := g.response ++ d }, h, ?_, rfl, rfl⟩
    rw [receiveLoop, bind_of_ok (get_ok g), current, bind_of_ok (takeWords_eq ws g), whole, endByte_replyWords,
      beforeEnd_replyWords]
    rfl
  | cons p ps ih =>
    rw [List.length_cons] at enough
    obtain ⟨m, rfl⟩ : ∃ m, fuel = m + 1 := ⟨fuel - 1, by omega⟩
    have enough : ps.length < m := by omega
    obtain ⟨first, others⟩ := List.forall_mem_cons.mp nonempty
    obtain ⟨soon, later⟩ := List.forall_mem_cons.mp inTime
    rw [List.flatMap_cons] at whole
    obtain ⟨d₁, d₂, rfl, rfl, rest⟩ := replyWords_cut (by simp [first]) whole
    rw [List.length_append] at short
    have bound : p.words.length ≤ blockMaxLength := by
      have size := congrArg List.length rest
      simp only [replyWords, List.length_append, List.length_map, List.length_singleton] at size
      omega
    have asked : (p :: ps).flatMap Delivery.asks ++ asks = p.asks ++ (ps.flatMap Delivery.asks ++ asks) := by
      rw [List.flatMap_cons, List.append_assoc]
    rw [asked] at h
    have reads : p.idle.length < g.answers.length + 1 := by
      have length := h.length_le
      rw [List.length_append, Delivery.asks, List.length_append, idleAsks_length] at length
      omega
    obtain ⟨g₁, h, waited, words, response₁, sent₁⟩ :=
      waitReceive_serves (g := { g with response := g.response ++ d₁ }) h first bound soon reads
    obtain ⟨g', h, ended, response, sent⟩ := ih words rest h others (by omega) later enough
    refine ⟨g', h, ?_, ?_, sent.trans sent₁⟩
    · rw [receiveLoop, bind_of_ok (get_ok g), current, bind_of_ok (takeWords_eq _ g), endByte_data, beforeEnd_data,
        data_bytes]
      dsimp only
      rw [bind_of_ok (get_ok _), bind_of_ok waited, ended]
    · rw [response, response₁, List.append_assoc]

/-- What pigpio answers during one call of `tx` whose request it sends: the ticks
it is asked for, the reply as the reads find it, and the answer to the reply. -/
structure Exchange where
  start : UInt32
  request : WaveRun
  first : Delivery
  firstTick : UInt32
  more : List Delivery := []
  answerTick : UInt32
  answer : WaveRun
  last : UInt32

namespace Exchange

def words (x : Exchange) : List (UInt8 × UInt8) := x.first.words ++ x.more.flatMap Delivery.words

def endAsks (x : Exchange) (d : List UInt8) : List Ask :=
  if d = [] then [.tick x.last] else .tick x.answerTick :: (x.answer.asks ++ [.tick x.last])

def replyAsks (x : Exchange) (d : List UInt8) : List Ask :=
  x.first.asks ++ .tick x.firstTick :: (x.more.flatMap Delivery.asks ++ x.endAsks d)

def asks (x : Exchange) (d : List UInt8) : List Ask :=
  .accepted :: .accepted :: .accepted :: .tick x.start :: (x.request.asks ++ x.replyAsks d)

/-- The request is sent, and every wait ends before its deadline. -/
structure InTime (x : Exchange) (timeout_us : UInt32) (request : List UInt8) : Prop where
  waitFits : x.start.toNat + timeout_us.toNat < 2 ^ 32
  sendFits : x.start.toNat + (timeoutCharUs * UInt32.ofNat request.length).toNat < 2 ^ 32
  request : x.request.InTime (x.start + timeoutCharUs * UInt32.ofNat request.length)
  first : ∀ t ∈ x.first.idle, t ≤ x.start + timeout_us
  more : ∀ p ∈ x.more, ∀ t ∈ p.idle, t.toNat ≤ x.firstTick.toNat + timeoutReceiveUs.toNat
  answer : ∀ t ∈ x.answer.busy,
    (t - x.answer.start).toNat ≤ x.answerTick.toNat + (min timeout_us timeoutSmallUs).toNat

/-- The reply in chunks of whole words, none of them empty. -/
structure Carries (x : Exchange) (d : List UInt8) (c : UInt8) : Prop where
  words : x.words = replyWords d c
  first : x.first.words ≠ []
  more : ∀ p ∈ x.more, p.words ≠ []

/-- The deadlines that `tx` computes once it has words are below 2^32 µs. -/
def DeadlinesFit (x : Exchange) (timeout_us : UInt32) (d : List UInt8) : Prop :=
  x.firstTick.toNat + timeoutReceiveUs.toNat < 2 ^ 32 ∧
    (d ≠ [] → x.answerTick.toNat + (min timeout_us timeoutSmallUs).toNat < 2 ^ 32)

end Exchange

theorem add_toNat {a b : UInt32} (fits : a.toNat + b.toNat < 2 ^ 32) : (a + b).toNat = a.toNat + b.toNat := by
  rw [UInt32.toNat_add, Nat.mod_eq_of_lt fits]

variable {x : Exchange} {timeout_us io_start_us : UInt32} {request d : List UInt8} {c : UInt8} {left : List Answer}
  {g : Gpio}

theorem first_short (carries : x.Carries d c) (short : d.length < blockMaxLength) :
    x.first.words.length ≤ blockMaxLength := by
  have size := congrArg List.length carries.words
  simp only [Exchange.words, replyWords, List.length_append, List.length_map, List.length_singleton] at size
  omega

theorem receiveBlock_waited (h : Serves (x.replyAsks d) g.answers left) (carries : x.Carries d c)
    (short : d.length < blockMaxLength) (inTime : x.InTime timeout_us request) :
    ∃ g', Serves (x.more.flatMap Delivery.asks ++ x.endAsks d) g'.answers left ∧
      receivedWords g'.buf (2 * x.first.words.length) = x.first.words ∧ g'.response = g.response ∧ g'.sent = g.sent ∧
      ∀ io_start_us, receiveBlock (x.start + timeout_us) (min timeout_us timeoutSmallUs) io_start_us g =
        (do
          let receive_deadline ← addU32 x.firstTick timeoutReceiveUs
          let end_byte ← receiveLoop receive_deadline ((← get).answers.length + 1) (2 * x.first.words.length)
          answerBlock (min timeout_us timeoutSmallUs) end_byte
          let _ ← tickSince io_start_us
          pure ()) g' := by
  have reads : x.first.idle.length < g.answers.length + 1 := by
    have length := h.length_le
    rw [Exchange.replyAsks, List.length_append, Delivery.asks, List.length_append, idleAsks_length] at length
    omega
  obtain ⟨g₁, h, waited, words, response, sent⟩ :=
    waitReceive_serves h carries.first (first_short carries short) inTime.first reads
  obtain ⟨answers, h, now⟩ := tickSince_zero h
  refine ⟨{ g₁ with answers }, h, words, response, sent, fun io_start_us => ?_⟩
  rw [receiveBlock, bind_of_ok (get_ok g), bind_of_ok waited, bind_of_ok now]

/-- The reply is read as a whole if the deadline for it can be computed. -/
theorem receiveBlock_read (h : Serves (x.replyAsks d) g.answers left) (carries : x.Carries d c)
    (short : d.length < blockMaxLength) (inTime : x.InTime timeout_us request)
    (fits : x.firstTick.toNat + timeoutReceiveUs.toNat < 2 ^ 32) :
    ∃ g', Serves (x.endAsks d) g'.answers left ∧ g'.response = g.response ++ d ∧ g'.sent = g.sent ∧
      ∀ io_start_us, receiveBlock (x.start + timeout_us) (min timeout_us timeoutSmallUs) io_start_us g =
        (do
          answerBlock (min timeout_us timeoutSmallUs) c
          let _ ← tickSince io_start_us
          pure ()) g' := by
  obtain ⟨g₁, h, words, response₁, sent₁, waited⟩ := receiveBlock_waited h carries short inTime
  have inTimeMore : ∀ p ∈ x.more, ∀ t ∈ p.idle, t ≤ x.firstTick + timeoutReceiveUs := by
    intro p mem t tick
    rw [UInt32.le_iff_toNat_le, add_toNat fits]
    exact inTime.more p mem t tick
  have rounds : x.more.length < g₁.answers.length + 1 := by
    have length := h.length_le
    have each := asks_length x.more
    rw [List.length_append] at length
    omega
  obtain ⟨g', h, read, response, sent⟩ :=
    receiveLoop_serves words carries.words h carries.more short inTimeMore rounds
  refine ⟨g', h, by rw [response, response₁], sent.trans sent₁, fun io_start_us => ?_⟩
  rw [waited, bind_of_ok (addU32_fits fits g₁), bind_of_ok (get_ok g₁), bind_of_ok read]

/-- A deadline that cannot be computed ends the call, although words have come in time. -/
theorem receiveBlock_wraps (h : Serves (x.replyAsks d) g.answers left) (carries : x.Carries d c)
    (short : d.length < blockMaxLength) (inTime : x.InTime timeout_us request)
    (wraps : ¬ x.firstTick.toNat + timeoutReceiveUs.toNat < 2 ^ 32) (g' : Gpio) :
    receiveBlock (x.start + timeout_us) (min timeout_us timeoutSmallUs) io_start_us g ≠ .ok () g' := by
  obtain ⟨g₁, _, _, _, _, waited⟩ := receiveBlock_waited h carries short inTime
  rw [waited]
  intro returned
  obtain ⟨_, _, deadline, _⟩ := bind_eq_ok.mp returned
  exact addU32_wraps wraps deadline

theorem answerBlock_empty (response : g.response = []) (timeout_small_us : UInt32) :
    (c = 0 → answerBlock timeout_small_us c g = .ok () g) ∧
      (c ≠ 0 → ∀ g', answerBlock timeout_small_us c g ≠ .ok () g') := by
  have start : answerBlock timeout_small_us c g = (if c = responseAck then pure ()
      else if c = responseNak then throw (.err .nak) else throw (.err (.invalidResponse c)) : GpioM Unit) g := by
    rw [answerBlock, bind_of_ok (get_ok g)]
    simp only [response, ↓reduceIte]
  rw [start]
  constructor
  · rintro rfl
    rfl
  · intro other g'
    rw [if_neg (show c ≠ responseAck from other)]
    split
    · exact throw_ne_ok
    · exact throw_ne_ok

theorem answerBlock_data (data : d ≠ []) (response : g.response = d) (timeout_small_us : UInt32) :
    answerBlock timeout_small_us c g = (do
      let deadline_us ← addU32 (← tickSince 0) timeout_small_us
      if c ≠ checksum d then
        mdbWaveSendWait .nak deadline_us .nak
        throw (Stop.err (.checksum (checksum d) c d))
      else mdbWaveSendWait .ack deadline_us .ack) g := by
  rw [answerBlock, bind_of_ok (get_ok g)]
  simp only [response, data, ↓reduceIte]

/-- The waves sent for a reply that is accepted: an ACK, if there was data. -/
def ackWaves (d : List UInt8) : List MdbWave := if d = [] then [] else [.ack]

theorem answerBlock_accepts (h : Serves (x.endAsks d) g.answers left) (response : g.response = d)
    (inTime : x.InTime timeout_us request) (fits : x.DeadlinesFit timeout_us d) :
    ∃ g', Serves [.tick x.last] g'.answers left ∧
      answerBlock (min timeout_us timeoutSmallUs) (checksum d) g = .ok () g' ∧ g'.response = d ∧
      g'.sent = g.sent ++ ackWaves d := by
  by_cases data : d = []
  · subst data
    refine ⟨g, by simpa [Exchange.endAsks] using h, ?_, response, by simp [ackWaves]⟩
    exact (answerBlock_empty response _).1 rfl
  · have small := fits.2 data
    rw [Exchange.endAsks, if_neg data] at h
    obtain ⟨answers₁, h, now⟩ := tickSince_zero h
    have soon : x.answer.InTime (x.answerTick + min timeout_us timeoutSmallUs) := by
      intro t busy
      rw [UInt32.le_iff_toNat_le, add_toNat small]
      exact inTime.answer t busy
    obtain ⟨answers, h, acked⟩ := mdbWaveSendWait_serves (g := { g with answers := answers₁ }) .ack .ack h soon
    refine ⟨{ g with answers, sent := g.sent ++ [.ack] }, h, ?_, response, by simp [ackWaves, data]⟩
    rw [answerBlock_data data response, bind_of_ok now, bind_of_ok (addU32_fits small _),
      if_neg (not_not.mpr rfl), acked]

theorem answerBlock_refuses (h : Serves (x.endAsks d) g.answers left) (response : g.response = d)
    (refused : c = checksum d → ¬ (d ≠ [] → x.answerTick.toNat + (min timeout_us timeoutSmallUs).toNat < 2 ^ 32))
    (g' : Gpio) : answerBlock (min timeout_us timeoutSmallUs) c g ≠ .ok () g' := by
  by_cases data : d = []
  · have other : c ≠ 0 := by
      rintro rfl
      exact refused (by rw [data]; rfl) fun nonempty => absurd data nonempty
    exact (answerBlock_empty (response.trans data) _).2 other g'
  · rw [answerBlock_data data response]
    intro returned
    rw [Exchange.endAsks, if_neg data] at h
    obtain ⟨answers, _, now⟩ := tickSince_zero h
    rw [bind_of_ok now] at returned
    obtain ⟨_, _, deadline, returned⟩ := bind_eq_ok.mp returned
    split at returned
    next =>
      obtain ⟨_, _, _, thrown⟩ := bind_eq_ok.mp returned
      exact throw_ne_ok thrown
    next same =>
      have wraps : ¬ x.answerTick.toNat + (min timeout_us timeoutSmallUs).toNat < 2 ^ 32 :=
        fun small => refused (not_not.mp same) fun _ => small
      exact addU32_wraps wraps deadline

theorem receiveBlock_accepts (h : Serves (x.replyAsks d) g.answers left) (carries : x.Carries d (checksum d))
    (short : d.length < blockMaxLength) (inTime : x.InTime timeout_us request) (fits : x.DeadlinesFit timeout_us d)
    (fresh : g.response = []) (io_start_us : UInt32) :
    ∃ g', receiveBlock (x.start + timeout_us) (min timeout_us timeoutSmallUs) io_start_us g = .ok () g' ∧
      g'.response = d ∧ g'.sent = g.sent ++ ackWaves d := by
  obtain ⟨g₁, h, response₁, sent₁, read⟩ := receiveBlock_read h carries short inTime fits.1
  rw [fresh, List.nil_append] at response₁
  obtain ⟨g₂, h, answered, response₂, sent₂⟩ := answerBlock_accepts h response₁ inTime fits
  obtain ⟨answers, _, logged⟩ := tickSince_serves io_start_us h
  refine ⟨{ g₂ with answers }, ?_, response₂, by rw [sent₂, sent₁]⟩
  rw [read, bind_of_ok answered, bind_of_ok logged, pure_ok]

theorem receiveBlock_refuses (h : Serves (x.replyAsks d) g.answers left) (carries : x.Carries d c)
    (short : d.length < blockMaxLength) (inTime : x.InTime timeout_us request) (fresh : g.response = [])
    (refused : c = checksum d → ¬ x.DeadlinesFit timeout_us d) (g' : Gpio) :
    receiveBlock (x.start + timeout_us) (min timeout_us timeoutSmallUs) io_start_us g ≠ .ok () g' := by
  by_cases first : x.firstTick.toNat + timeoutReceiveUs.toNat < 2 ^ 32
  · obtain ⟨g₁, h, response, _, read⟩ := receiveBlock_read h carries short inTime first
    rw [fresh, List.nil_append] at response
    rw [read]
    intro returned
    obtain ⟨_, g₂, answered, _⟩ := bind_eq_ok.mp returned
    exact answerBlock_refuses h response (fun same small => refused same ⟨first, small⟩) g₂ answered
  · exact receiveBlock_wraps h carries short inTime first g'

/-- What a valid call has done when it starts to read: the request is sent. -/
theorem tx_sent {capacity : Nat} {timeout : Duration} (valid : request ≠ [] ∧ request.length < blockMaxLength ∧
    blockMaxLength ≤ capacity) (duration : durationAsMicros32 timeout = .ok timeout_us)
    (h : Serves (x.asks d) g.answers left) (inTime : x.InTime timeout_us request) :
    ∃ g', Serves (x.replyAsks d) g'.answers left ∧ g'.response = g.response ∧ g'.sent = g.sent ++ [.request] ∧
      tx capacity request timeout g =
        receiveBlock (x.start + timeout_us) (min timeout_us timeoutSmallUs) x.start g' := by
  have filled : Serves (x.asks d) { g with buf := fillRequest g.buf request }.answers left := h
  obtain ⟨_, answers₁, h, created⟩ := mdbWaveCreate_serves filled
  obtain ⟨answers₂, h, start⟩ := tickSince_zero (g := { g with
    buf := fillRequest g.buf request, answers := answers₁
    handed := g.handed ++ [(fillRequest g.buf request).toList.take (request.length * wordSize + wordSize)] }) h
  obtain ⟨answers, h, sent⟩ := mdbWaveSendWait_serves (g := { g with
    buf := fillRequest g.buf request, answers := answers₂
    handed := g.handed ++ [(fillRequest g.buf request).toList.take (request.length * wordSize + wordSize)] })
    .request .request h inTime.request
  have same : micros timeout = pure timeout_us := by rw [micros, duration]
  refine ⟨{ g with
    buf := fillRequest g.buf request, answers, sent := g.sent ++ [.request]
    handed := g.handed ++ [(fillRequest g.buf request).toList.take (request.length * wordSize + wordSize)] },
    h, rfl, rfl, ?_⟩
  rw [tx, if_pos valid, bind_of_ok (modify_ok _ g), bind_of_ok (get_ok _), bind_of_ok created, txWave_eq, same,
    bind_of_ok (pure_ok timeout_us _), bind_of_ok start, bind_of_ok (addU32_fits inTime.waitFits _),
    bind_of_ok (addU32_fits inTime.sendFits _), bind_of_ok sent]

/-- A reply with the right checksum is returned and acknowledged, if there was data. -/
theorem tx_accepts {capacity : Nat} {timeout : Duration} (valid : request ≠ [] ∧ request.length < blockMaxLength ∧
    blockMaxLength ≤ capacity) (duration : durationAsMicros32 timeout = .ok timeout_us)
    (h : Serves (x.asks d) g.answers left) (carries : x.Carries d (checksum d)) (short : d.length < blockMaxLength)
    (inTime : x.InTime timeout_us request) (fits : x.DeadlinesFit timeout_us d) (fresh : g.response = []) :
    ∃ g', tx capacity request timeout g = .ok () g' ∧ g'.response = d ∧
      g'.sent = g.sent ++ .request :: ackWaves d := by
  obtain ⟨g₁, h, response₁, sent₁, asked⟩ := tx_sent valid duration h inTime
  obtain ⟨g', received, response, sent⟩ :=
    receiveBlock_accepts h carries short inTime fits (response₁.trans fresh) x.start
  refine ⟨g', asked.trans received, response, ?_⟩
  rw [sent, sent₁, List.append_assoc, List.singleton_append]

theorem tx_refuses {capacity : Nat} {timeout : Duration} (valid : request ≠ [] ∧ request.length < blockMaxLength ∧
    blockMaxLength ≤ capacity) (duration : durationAsMicros32 timeout = .ok timeout_us)
    (h : Serves (x.asks d) g.answers left) (carries : x.Carries d c) (short : d.length < blockMaxLength)
    (inTime : x.InTime timeout_us request) (fresh : g.response = [])
    (refused : c = checksum d → ¬ x.DeadlinesFit timeout_us d) (g' : Gpio) :
    tx capacity request timeout g ≠ .ok () g' := by
  obtain ⟨g₁, h, response₁, _, asked⟩ := tx_sent valid duration h inTime
  rw [asked]
  exact receiveBlock_refuses h carries short inTime (response₁.trans fresh) refused g'

end GpioMdb

end Vender
