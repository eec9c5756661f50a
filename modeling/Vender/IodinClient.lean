import Vender.IodinUart
import Vender.Lib.Runs

namespace Vender.Iodin

/-- One `Read` of at most `asked` bytes from a pipe: the kernel hands over `n`
bytes of what is available, at least one where any are asked for. -/
def readSome (available : List UInt8) (asked n : Nat) : Option (List UInt8 × List UInt8) :=
  if asked = 0 then some ([], available)
  else if 1 ≤ n ∧ n ≤ asked ∧ n ≤ available.length then some (available.splitAt n)
  else none

/-- A call of `Client.Do`, the `Response` the server writes for it and how many
bytes each of the two `Read`s returns. -/
structure DoCall where
  request : Request
  written : Response
  lenRead : Nat
  bodyRead : Nat
deriving DecidableEq

structure Client where
  sent : List UInt8 := []
  /-- What the server has written and no `Read` has taken yet. -/
  unread : List UInt8 := []

structure Done where
  client : Client
  response : Response := {}
  err : Option DoError := none

namespace Client

def readBody (codec : Codec) (sent unread : List UInt8) (responseLen bodyRead : Nat) : Option Done :=
  if 256 < responseLen then some { client := { sent, unread }, err := some (.overflow responseLen) }
  else do
    let (buf, unread) ← readSome unread responseLen bodyRead
    if buf.length < responseLen then
      some { client := { sent, unread }, err := some (.notImplemented responseLen) }
    else
      match codec.decodeResponse buf with
      | none => some { client := { sent, unread }, err := some .unmarshal }
      | some response => some { client := { sent, unread }, response }

/-- `Client.Do`. A short length is returned with `errors.Annotatef(nil)`, which is nil. -/
def doCall (codec : Codec) (c : Client) (call : DoCall) : Option Done := do
  let (buf, unread) ← readSome (c.unread ++ frame (codec.encodeResponse call.written)) 4 call.lenRead
  let sent := c.sent ++ frame (codec.encodeRequest call.request)
  if buf.length < 4 then some { client := { sent, unread } }
  else readBody codec sent unread (ofFixed32 buf) call.bodyRead

def step (codec : Codec) (c : Client) (call : DoCall) : Option Client :=
  (c.doCall codec call).map Done.client

/-- A `Do` that returns nil has filled in the reply to its own request. -/
def OwnReply (codec : Codec) (c : Client) (call : DoCall) (_ : Client) : Prop :=
  ∀ done ∈ c.doCall codec call, done.err = none → done.response = call.written

/-- Nothing of an earlier reply is unread and the length comes in one piece. -/
def InStep (c : Client) (call : DoCall) (_ : Client) : Prop :=
  c.unread = [] ∧ call.lenRead = 4

/-- Protobuf reads the reply back, and its size is the 32-bit number the server writes. -/
structure Readable (codec : Codec) (w : Response) : Prop where
  decodes : codec.decodeResponse (codec.encodeResponse w) = some w
  small : (codec.encodeResponse w).length < 2 ^ 32

theorem readSome_frame (message : List UInt8) :
    readSome (frame message) 4 4 = some (fixed32 message.length, message) := by
  have long : 4 ≤ (frame message).length := by simp [frame, fixed32]
  simp [readSome, long, List.splitAt_eq, frame_take, frame_drop]

theorem readSome_cases {message taken rest : List UInt8} {n : Nat}
    (h : readSome message message.length n = some (taken, rest)) :
    message = [] ∧ taken = [] ∧ rest = [] ∨
      message ≠ [] ∧ n ≤ message.length ∧ taken = message.take n ∧ rest = message.drop n := by
  unfold readSome at h
  split at h
  next empty =>
    have nil := List.length_eq_zero_iff.mp empty
    cases Option.some.inj h
    exact Or.inl ⟨nil, rfl, nil⟩
  next some_asked =>
    split at h
    next bounds =>
      rw [List.splitAt_eq] at h
      cases Option.some.inj h
      have nonempty : message ≠ [] := by
        rintro rfl
        exact some_asked rfl
      exact Or.inr ⟨nonempty, bounds.2.1, rfl, rfl⟩
    next => cases h

theorem doCall_inStep (codec : Codec) {c c' : Client} {call : DoCall} (inStep : c.InStep call c')
    (small : (codec.encodeResponse call.written).length < 2 ^ 32) :
    c.doCall codec call =
      readBody codec (c.sent ++ frame (codec.encodeRequest call.request)) (codec.encodeResponse call.written)
        (codec.encodeResponse call.written).length call.bodyRead := by
  obtain ⟨empty, whole⟩ := inStep
  have header : ¬ (fixed32 (codec.encodeResponse call.written).length).length < 4 := by simp [fixed32]
  simp only [doCall, empty, whole, List.nil_append, readSome_frame, Option.bind_eq_bind, Option.bind_some,
    if_neg header, ofFixed32_fixed32 small]

theorem readBody_response {codec : Codec} {sent : List UInt8} {w : Response} {n : Nat} {done : Done}
    (decodes : codec.decodeResponse (codec.encodeResponse w) = some w)
    (h : readBody codec sent (codec.encodeResponse w) (codec.encodeResponse w).length n = some done)
    (succeeded : done.err = none) : done.response = w := by
  unfold readBody at h
  split at h
  next =>
    cases Option.some.inj h
    cases succeeded
  next =>
    obtain ⟨⟨buf, unread⟩, hread, h⟩ := Option.bind_eq_some_iff.mp h
    dsimp only at h
    split at h
    next =>
      cases Option.some.inj h
      cases succeeded
    next full =>
      have own : buf = codec.encodeResponse w := by
        rcases readSome_cases hread with ⟨nil, rfl, _⟩ | ⟨_, _, rfl, _⟩
        · exact nil.symm
        · rw [List.length_take] at full
          exact List.take_of_length_le (by omega)
      rw [own, decodes] at h
      cases Option.some.inj h
      rfl

theorem readBody_unread {codec : Codec} {sent message : List UInt8} {n : Nat} {done : Done}
    (h : readBody codec sent message message.length n = some done) :
    done.client.unread = [] ↔ message.length ≤ 256 ∧ (message = [] ∨ n = message.length) := by
  unfold readBody at h
  split at h
  next long =>
    cases Option.some.inj h
    refine iff_of_false (fun empty => ?_) fun fits => by omega
    dsimp only at empty
    simp [empty] at long
  next fits =>
    obtain ⟨⟨buf, unread⟩, hread, h⟩ := Option.bind_eq_some_iff.mp h
    have left : done.client.unread = unread := by
      dsimp only at h
      split at h
      next => cases Option.some.inj h; rfl
      next => split at h <;> (cases Option.some.inj h; rfl)
    rw [left]
    rcases readSome_cases hread with ⟨nil, _, rfl⟩ | ⟨nonempty, bound, _, rfl⟩
    · exact iff_of_true rfl ⟨by omega, Or.inl nil⟩
    · simp only [List.drop_eq_nil_iff, nonempty, false_or]
      omega

theorem doCall_eq_readReply {codec : Codec} {c : Client} {call : DoCall} (empty : c.unread = [])
    (lenRead : call.lenRead = 4) (bodyRead : call.bodyRead = (codec.encodeResponse call.written).length)
    (small : (codec.encodeResponse call.written).length < 2 ^ 32) :
    (c.doCall codec call).map (fun done => (done.response, done.err)) =
      some (readReply codec (frame (codec.encodeResponse call.written))) := by
  have all : readSome (codec.encodeResponse call.written) (codec.encodeResponse call.written).length
      (codec.encodeResponse call.written).length = some (codec.encodeResponse call.written, []) := by
    cases codec.encodeResponse call.written <;> simp [readSome, List.splitAt_eq]
  have inStep : c.InStep call c := ⟨empty, lenRead⟩
  rw [doCall_inStep codec inStep small, readReply_frame small, readBody, bodyRead, all]
  split
  next => rfl
  next =>
    simp only [Option.bind_eq_bind, Option.bind_some, Nat.lt_irrefl, ↓reduceIte]
    cases codec.decodeResponse (codec.encodeResponse call.written) <;> rfl

def Whole (codec : Codec) (call : DoCall) : Prop :=
  (codec.encodeResponse call.written).length ≤ 256 ∧
    (codec.encodeResponse call.written = [] ∨ call.bodyRead = (codec.encodeResponse call.written).length)

instance (codec : Codec) (call : DoCall) : Decidable (Whole codec call) :=
  inferInstanceAs (Decidable (_ ∧ _))

/-- A call in step leaves the next one in step exactly if it takes its whole reply. -/
theorem unread_iff_whole {codec : Codec} {c c' : Client} {call : DoCall} (inStep : c.InStep call c')
    (small : (codec.encodeResponse call.written).length < 2 ^ 32) (h : c.step codec call = some c') :
    c'.unread = [] ↔ Whole codec call := by
  obtain ⟨done, hdone, rfl⟩ := Option.map_eq_some_iff.mp h
  rw [doCall_inStep codec inStep small] at hdone
  exact readBody_unread hdone

theorem inStep_along_of_whole {codec : Codec} {calls : List DoCall}
    (readable : ∀ call ∈ calls, Readable codec call.written)
    (whole : ∀ call ∈ calls, call.lenRead = 4 ∧ Whole codec call) : Runs.Along (step codec) InStep {} calls := by
  have taken : Runs.Along (step codec) (fun _ call _ => call.lenRead = 4 ∧ Whole codec call) {} calls :=
    Runs.along_of_forall_mem whole _
  apply Runs.along_of_invariant (I := fun c => c.unread = []) _ rfl
    (Runs.along_and taken (Runs.along_of_forall_mem readable _))
  rintro c call c' h empty ⟨⟨lenRead, whole⟩, _, small⟩
  have inStep : c.InStep call c' := ⟨empty, lenRead⟩
  exact ⟨inStep, (unread_iff_whole inStep small h).mpr whole⟩

/-- Every `Do` that finds nothing unread of an earlier reply and reads its length
in one piece returns nil only with the reply to its own request. -/
theorem ownReply_along {codec : Codec} {calls : List DoCall} (readable : ∀ call ∈ calls, Readable codec call.written)
    (inStep : Runs.Along (step codec) InStep {} calls) : Runs.Along (step codec) (OwnReply codec) {} calls := by
  have along := Runs.along_and inStep (Runs.along_of_forall_mem readable _)
  apply Runs.along_mono _ along
  rintro c call c' ⟨inStep, decodes, small⟩ done h succeeded
  rw [doCall_inStep codec inStep small] at h
  exact readBody_response decodes h succeeded

end Client

def pollInPieces (lenRead : Nat) : List DoCall :=
  [⟨IodinUart.poll, IodinUart.polled, 4, 5⟩, ⟨IodinUart.poll, IodinUart.polled, lenRead, 5⟩]

namespace Client

theorem pollInPieces_ownReply :
    (Runs.run (step IodinUart.pollCodec) {} (pollInPieces 4)).isSome ∧
      Runs.Along (step IodinUart.pollCodec) (OwnReply IodinUart.pollCodec) {} (pollInPieces 4) := by
  have readable : ∀ call ∈ pollInPieces 4, Readable IodinUart.pollCodec call.written := by
    intro call mem
    have polled : call.written = IodinUart.polled := by
      simp only [pollInPieces, List.mem_cons, List.not_mem_nil, or_false] at mem
      rcases mem with rfl | rfl <;> rfl
    rw [polled]
    exact ⟨by decide, by decide⟩
  exact ⟨by decide +kernel, ownReply_along readable (inStep_along_of_whole readable (by decide))⟩

/-- One byte of the length has arrived: `Do` returns nil and an empty response. -/
theorem shortLength_not_ownReply :
    ¬ Runs.Along (step IodinUart.pollCodec) (OwnReply IodinUart.pollCodec) {} (pollInPieces 1) := by
  intro own
  have second := ((own _ rfl).2 _ rfl).1 _ rfl rfl
  exact absurd second (by decide)

end Client

end Vender.Iodin
