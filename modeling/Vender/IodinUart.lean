import Vender.Iodin

namespace Vender

namespace Iodin

inductive DoError
  | readLen
  | overflow (responseLen : Nat)
  | readResponse
  | notImplemented (responseLen : Nat)
  | unmarshal
  deriving DecidableEq, Repr

/-- The reading half of `Client.Do` on the bytes the server wrote, none of them
where it has gone. A short length without an error is returned as no error. -/
def readReply (codec : Codec) (bytes : List UInt8) : Response × Option DoError :=
  if bytes = [] then ({}, some .readLen)
  else if bytes.length < 4 then ({}, none)
  else
    let responseLen := ofFixed32 (bytes.take 4)
    if 256 < responseLen then ({}, some (.overflow responseLen))
    else
      let buf := (bytes.drop 4).take responseLen
      if buf = [] ∧ responseLen ≠ 0 then ({}, some .readResponse)
      else if buf.length < responseLen then ({}, some (.notImplemented responseLen))
      else
        match codec.decodeResponse buf with
        | none => ({}, some .unmarshal)
        | some response => (response, none)

/-- `Client.Do` with the server on the other end of the pipe: the server
afterwards, the response it wrote, and what `Do` returns, if it returns. -/
structure Exchange where
  server : Server
  written : Option Response
  returned : Option (Response × Option DoError)

def exchange (codec : Codec) (env : ExecEnv) (s : Server) (request : Request) : Exchange :=
  match s.round codec env (frame (codec.encodeRequest request)) with
  | (server, some response, _) =>
    { server, written := some response, returned := some (readReply codec (frame (codec.encodeResponse response))) }
  | (server, none, .blocked) => { server, written := none, returned := none }
  -- a dead server leaves an end of file in the pipe
  | (server, none, _) => { server, written := none, returned := some (readReply codec []) }

theorem readReply_frame {codec : Codec} {message : List UInt8} (small : message.length < 2 ^ 32) :
    readReply codec (frame message) =
      if 256 < message.length then ({}, some (.overflow message.length))
      else
        match codec.decodeResponse message with
        | none => ({}, some .unmarshal)
        | some response => (response, none) := by
  have nonempty : frame message ≠ [] := by simp [frame, fixed32]
  have header : ¬(frame message).length < 4 := by simp [frame, fixed32]
  have whole : ¬(message = [] ∧ message.length ≠ 0) := by
    rintro ⟨rfl, long⟩
    exact long rfl
  unfold readReply
  rw [if_neg nonempty, if_neg header, frame_take, frame_drop, ofFixed32_fixed32 small]
  dsimp only
  rw [List.take_length, if_neg whole, if_neg (Nat.lt_irrefl _)]

end Iodin

open Iodin

inductive IodinUartError
  | requestEmpty
  | client (err : DoError)
  deriving DecidableEq, Repr

/-- The calls of a `Uarter`; a path is its bytes, a duration its nanoseconds. -/
inductive UarterCall
  | tx (request : List UInt8) (cap : Nat)
  | breakFor (d : Int)
  | openPath (path : List UInt8)

structure UarterReply where
  bytes : List UInt8 := []
  err : Option IodinUartError
  deriving DecidableEq, Repr

namespace IodinUart

def request : UarterCall → Option Request
  | .tx request _ => if request = [] then none else some { command := .mdbTx, arg_bytes := request }
  | .breakFor d => some { command := .mdbReset, arg_uint := UInt32.ofInt (d.tdiv 1000000) }
  | .openPath path => some { command := .mdbOpen, arg_bytes := path }

def reply : UarterCall → Response × Option DoError → UarterReply
  | .tx _ cap, (r, err) => { bytes := r.data_bytes.take cap, err := err.map .client }
  | .breakFor _, (_, err) => { err := err.map .client }
  | .openPath _, (_, err) => { err := err.map .client }

/-- A call with the server it talks to: the response the server wrote for it
and the reply, if the call returns. -/
def run (codec : Codec) (env : ExecEnv) (s : Server) (call : UarterCall) : Option Response × Option UarterReply :=
  match request call with
  | none => (none, some { err := some .requestEmpty })
  | some r =>
    let done := exchange codec env s r
    (done.written, done.returned.map (reply call))

/-- A reply without an error is a response with the status `OK` and its data. -/
def Honest (call : UarterCall) (done : Option Response × Option UarterReply) : Prop :=
  ∀ r ∈ done.2, r.err = none →
    ∃ written ∈ done.1, written.status = .ok ∧ ∀ request cap, call = .tx request cap →
      r.bytes = written.data_bytes.take cap

/-- Both directions of the pipe carry messages that protobuf reads back. -/
structure Lossless (codec : Codec) (r : Request) (w : Response) : Prop where
  request : codec.decodeRequest (codec.encodeRequest r) = some r
  requestSize : (codec.encodeRequest r).length < 2 ^ 32
  response : codec.decodeResponse (codec.encodeResponse w) = some w
  responseSize : (codec.encodeResponse w).length < 2 ^ 32

@[simp] theorem reply_err (call : UarterCall) (done : Response × Option DoError) :
    (reply call done).err = done.2.map .client := by
  cases call <;> rfl

theorem honest_written_iff {codec : Codec} {call : UarterCall} {w : Response}
    (decodes : codec.decodeResponse (codec.encodeResponse w) = some w)
    (small : (codec.encodeResponse w).length < 2 ^ 32) :
    Honest call (some w, some (reply call (readReply codec (frame (codec.encodeResponse w))))) ↔
      w.status = .ok ∨ 256 < (codec.encodeResponse w).length := by
  rw [readReply_frame small, decodes]
  by_cases long : 256 < (codec.encodeResponse w).length
  · rw [if_pos long]
    simp [Honest, long]
  · rw [if_neg long]
    constructor
    · intro honest
      obtain ⟨_, hw, status, _⟩ := honest _ rfl (by simp)
      cases hw
      exact Or.inl status
    · rintro (status | fits)
      · intro r hr _
        cases hr
        refine ⟨w, rfl, status, ?_⟩
        rintro request cap rfl
        rfl
      · exact absurd fits long

/-- A request that the server refuses comes back without an error all the same,
as long as the refusal fits the client's buffer. -/
theorem honest_exchange_iff {codec : Codec} {env : ExecEnv} {s : Server} {call : UarterCall} {r : Request}
    (sent : request call = some r) (lossless : Lossless codec r (s.exec env r {}).2.1) :
    Honest call (run codec env s call) ↔
      (s.Refuses env r → 256 < (codec.encodeResponse (s.exec env r {}).2.1).length) := by
  obtain ⟨requestDecodes, requestSmall, decodes, small⟩ := lossless
  have ended := Server.exec_ended env s r {}
  unfold run exchange
  rw [sent]
  dsimp only
  unfold Server.round
  rw [frame_take, frame_drop, ofFixed32_fixed32 requestSmall, List.take_length]
  simp only [requestDecodes]
  generalize s.exec env r {} = result at ended decodes small ⊢
  cases ended with
  | ok status accepted =>
    dsimp only at decodes small ⊢
    exact (honest_written_iff decodes small).trans (by simp [status, accepted])
  | err status refused =>
    dsimp only at decodes small ⊢
    exact (honest_written_iff decodes small).trans (by simp [status, refused])
  | died accepted => simp [Honest, readReply, accepted]
  | blocked accepted => simp [Honest, accepted]

/-- For every call and whatever `exec` does: a nil error means that the server
said `OK` exactly when the command was not refused, or the refusal did not
fit, or nothing was sent. -/
theorem honest_iff {codec : Codec} {env : ExecEnv} {s : Server} {call : UarterCall}
    (lossless : ∀ r ∈ request call, Lossless codec r (s.exec env r {}).2.1) :
    Honest call (run codec env s call) ↔
      ∀ r ∈ request call, s.Refuses env r → 256 < (codec.encodeResponse (s.exec env r {}).2.1).length := by
  cases sent : request call with
  | none => simp [run, sent, Honest]
  | some r =>
    rw [honest_exchange_iff sent (lossless r sent)]
    simp

def poll : Request := { command := .mdbTx, arg_bytes := [0x0b] }

def polled : Response := { status := .ok, data_bytes := [0x0b] }

def notOpen : Response := { status := .errInput, error := "must mdb_open" }

def notOpenBytes : List UInt8 :=
  [0x10, 0x02, 0x1a, 0x0d] ++ "must mdb_open".toList.map fun c => UInt8.ofNat c.toNat

def pollCodec : Codec where
  encodeRequest := fun r => if r = poll then [0x10, 0x03, 0x2a, 0x01, 0x0b] else []
  decodeRequest := fun bs => if bs = [0x10, 0x03, 0x2a, 0x01, 0x0b] then some poll else none
  encodeResponse := fun w =>
    if w = polled then [0x10, 0x01, 0x22, 0x01, 0x0b] else if w = notOpen then notOpenBytes else []
  decodeResponse := fun bs =>
    if bs = [0x10, 0x01, 0x22, 0x01, 0x0b] then some polled else if bs = notOpenBytes then some notOpen else none
  parseError := fun _ => "protobuf error"

def quietEnv : ExecEnv where
  answers := []
  wait_step := some 101
  uninitialized := Vector.replicate bufSize 0

def mockServer : Server where
  mdb := some ⟨15, 14, 0, 1, 101, Vector.replicate bufSize 0⟩
  mock := true

theorem honest_mock_poll : Honest (.tx [0x0b] 40) (run pollCodec quietEnv mockServer (.tx [0x0b] 40)) := by
  refine (honest_iff fun r hr => ?_).mpr fun r hr refused => ?_
  · cases hr
    exact ⟨by decide, by decide, by decide, by decide⟩
  · cases hr
    exact absurd refused.1 (by decide)

/-- The POLL is refused for want of an open port, `Tx` returns no error and no bytes. -/
theorem closed_port_is_silent :
    run pollCodec quietEnv {} (.tx [0x0b] 40) = (some notOpen, some { err := none }) ∧
      ¬Honest (.tx [0x0b] 40) (run pollCodec quietEnv {} (.tx [0x0b] 40)) := by
  refine ⟨by decide, fun honest => ?_⟩
  obtain ⟨written, hw, status, _⟩ := honest _ rfl rfl
  cases hw
  exact absurd status (by decide)

end IodinUart

end Vender
