import Vender.IodinClient
import Vender.IodinServer

namespace Vender.Iodin

/-- Where the client is: between two calls, or in one of the three system calls of `Do`. -/
inductive Phase
  | idle
  | writing (call : UarterCall) (rest : List UInt8)
  | readingLen (call : UarterCall)
  | readingBody (call : UarterCall) (responseLen : Nat)

/-- The client and the server process, each at its end of the two pipes; the
server's end of the first one is its input. -/
structure Pipes where
  todo : List UarterCall
  phase : Phase := .idle
  serving : Serving
  toClient : List UInt8 := []
  replies : List UarterReply := []

inductive PipeEvent
  | refuse
  | begin
  | write (n : Nat)
  | turn (env : ExecEnv)
  | readLen
  | readBody

/-- The length and the message behind it have both arrived. -/
def WholeFrame (input : List UInt8) : Prop := 4 ≤ input.length ∧ 4 + ofFixed32 (input.take 4) ≤ input.length

instance (input : List UInt8) : Decidable (WholeFrame input) := inferInstanceAs (Decidable (_ ∧ _))

namespace Pipes

def finish (p : Pipes) (call : UarterCall) (toClient : List UInt8) (done : Response × Option DoError) : Pipes :=
  { p with phase := .idle, toClient, replies := p.replies ++ [IodinUart.reply call done] }

/-- One step of either process. `wf.Write` goes on until all is written, in any
pieces; a `Read` waits for the first byte and takes what is there; the output
stream of the server leaves its buffer in one `write` of at most `PIPE_BUF` bytes. -/
def step (codec : Codec) (merge : MergeFrom) (p : Pipes) : PipeEvent → Option Pipes
  | .refuse =>
    match p.phase, p.todo with
    | .idle, call :: todo =>
      match IodinUart.request call with
      | none => some { p with todo, replies := p.replies ++ [{ err := some .requestEmpty }] }
      | some _ => none
    | _, _ => none
  | .begin =>
    match p.phase, p.todo with
    | .idle, call :: todo =>
      (IodinUart.request call).map fun r => { p with todo, phase := .writing call (frame (codec.encodeRequest r)) }
    | _, _ => none
  | .write n =>
    match p.phase with
    | .writing call rest =>
      if 1 ≤ n ∧ n ≤ rest.length then
        some { p with
          phase := if n = rest.length then .readingLen call else .writing call (rest.drop n)
          serving := { p.serving with input := p.serving.input ++ rest.take n } }
      else none
    | _ => none
  | .turn env =>
    if WholeFrame p.serving.input then
      (p.serving.turn merge env).map fun serving =>
        { p with
          serving
          toClient := p.toClient ++
            (serving.written.drop p.serving.written.length).flatMap fun w => frame (codec.encodeResponse w) }
    else none
  | .readLen =>
    match p.phase with
    | .readingLen call =>
      (readSome p.toClient 4 (min 4 p.toClient.length)).map fun (buf, unread) =>
        -- a short length is returned with `errors.Annotatef(nil)`, which is nil
        if buf.length < 4 then p.finish call unread ({}, none)
        else { p with phase := .readingBody call (ofFixed32 buf), toClient := unread }
    | _ => none
  | .readBody =>
    match p.phase with
    | .readingBody call responseLen =>
      (Client.readBody codec [] p.toClient responseLen (min responseLen p.toClient.length)).map fun done =>
        p.finish call done.client.unread (done.response, done.err)
    | _ => none

def start (calls : List UarterCall) (server : Server) : Pipes where
  todo := calls
  serving := { server, input := [] }

end Pipes

/-- The calls made one after the other, each at once with the server that answers it. -/
structure Direct where
  todo : List UarterCall
  server : Server
  replies : List UarterReply := []

namespace Direct

inductive Event
  | refuse
  | exchange (env : ExecEnv)

def step (codec : Codec) (d : Direct) : Event → Option Direct
  | .refuse =>
    match d.todo with
    | [] => none
    | call :: todo =>
      match IodinUart.request call with
      | none => some { d with todo, replies := d.replies ++ [{ err := some .requestEmpty }] }
      | some _ => none
  | .exchange env =>
    match d.todo with
    | [] => none
    | call :: todo => do
      let r ← IodinUart.request call
      let done := exchange codec env d.server r
      let returned ← done.returned
      some { todo, server := done.server, replies := d.replies ++ [IodinUart.reply call returned] }

end Direct

/-- A call is answered in the turn of the server. -/
def PipeEvent.visible : PipeEvent → Option Direct.Event
  | .refuse => some .refuse
  | .turn env => some (.exchange env)
  | .begin | .write _ | .readLen | .readBody => none

/-- Protobuf reads a request back, and its size is the 32-bit number that `Do` writes. -/
structure Sendable (codec : Codec) (r : Request) : Prop where
  decodes : codec.decodeRequest (codec.encodeRequest r) = some r
  small : (codec.encodeRequest r).length < 2 ^ 32

/-- Protobuf reads a response back, and it fits the buffer of `Do`. -/
structure Fits (codec : Codec) (w : Response) : Prop where
  decodes : codec.decodeResponse (codec.encodeResponse w) = some w
  fits : (codec.encodeResponse w).length ≤ 256

instance (codec : Codec) (w : Response) : Decidable (Fits codec w) :=
  decidable_of_iff (_ ∧ _) ⟨fun h => ⟨h.1, h.2⟩, fun h => ⟨h.decodes, h.fits⟩⟩

/-- `merge_from` is the parser of the codec. -/
def Parses (codec : Codec) (merge : MergeFrom) : Prop :=
  ∀ payload, merge.result payload = match codec.decodeRequest payload with
    | none => .error (codec.parseError payload)
    | some request => .ok request

variable {codec : Codec} {merge : MergeFrom}

theorem length_frame (message : List UInt8) : (frame message).length = 4 + message.length := by
  simp only [frame, fixed32, List.length_append, List.length_cons, List.length_nil]

theorem wholeFrame_frame {message : List UInt8} (small : message.length < 2 ^ 32) : WholeFrame (frame message) := by
  have length := length_frame message
  have header : ofFixed32 ((frame message).take 4) = message.length := by
    rw [frame_take, ofFixed32_fixed32 small]
  rw [WholeFrame, header]
  omega

/-- As long as bytes of a frame are missing the server waits. -/
theorem not_wholeFrame {message sent rest : List UInt8} (small : message.length < 2 ^ 32)
    (split : sent ++ rest = frame message) (missing : rest ≠ []) : ¬ WholeFrame sent := by
  intro whole
  have length : sent.length + rest.length = 4 + message.length := by
    rw [← List.length_append, split, length_frame]
  have header : sent.take 4 = fixed32 message.length := by
    rw [← frame_take message, ← split, List.take_append_of_le_length whole.1]
  have arrived := whole.2
  rw [header, ofFixed32_fixed32 small] at arrived
  have left := List.length_pos_of_ne_nil missing
  omega

/-- A whole reply that fits is read without an error. -/
theorem readBody_fits {w : Response} (fits : Fits codec w) (sent : List UInt8) :
    Client.readBody codec sent (codec.encodeResponse w) (codec.encodeResponse w).length
        (min (codec.encodeResponse w).length (codec.encodeResponse w).length) =
      some { client := { sent, unread := [] }, response := w } := by
  have all : readSome (codec.encodeResponse w) (codec.encodeResponse w).length (codec.encodeResponse w).length =
      some (codec.encodeResponse w, []) := by
    cases codec.encodeResponse w <;> simp [readSome, List.splitAt_eq]
  have short : ¬ 256 < (codec.encodeResponse w).length := Nat.not_lt.mpr fits.fits
  rw [Nat.min_self, Client.readBody, if_neg short, all]
  simp [fits.decodes]

theorem readReply_fits {w : Response} (fits : Fits codec w) :
    readReply codec (frame (codec.encodeResponse w)) = (w, none) := by
  have small : (codec.encodeResponse w).length < 2 ^ 32 := by
    have fits := fits.fits
    omega
  rw [readReply_frame small, if_neg (Nat.not_lt.mpr fits.fits), fits.decodes]

/-- The direct call is one turn of the server on the whole request. -/
theorem exchange_of_respond (parses : Parses codec merge) {env : ExecEnv} {s s' : Server} {r : Request} {w : Response}
    (sendable : Sendable codec r) (fits : Fits codec w)
    (responded : s.respond merge env (codec.encodeRequest r) = some (s', w)) :
    exchange codec env s r = { server := s', written := some w, returned := some (w, none) } := by
  have same := round_eq_respond env s (frame (codec.encodeRequest r)) parses
  rw [frame_take, frame_drop, ofFixed32_fixed32 sendable.small, List.take_length, responded] at same
  unfold exchange
  generalize s.round codec env (frame (codec.encodeRequest r)) = round at same
  obtain ⟨server, written, ended⟩ := round
  cases written with
  | none => cases same
  | some response =>
    cases Option.some.inj same
    dsimp only
    rw [readReply_fits fits]

/-- One turn of the server on a request that is there as a whole. -/
theorem turn_request (merge : MergeFrom) (env : ExecEnv) {s : Server} {r : Request} (written : List Response)
    (running : s.running = true) (sendable : Sendable codec r) :
    Serving.turn merge ⟨s, frame (codec.encodeRequest r), written⟩ env =
      (s.respond merge env (codec.encodeRequest r)).map fun (s', response) =>
        ⟨s', (codec.encodeRequest r).drop (merge.consumed (codec.encodeRequest r)), written ++ [response]⟩ := by
  let job : Job := ⟨codec.encodeRequest r, env⟩
  have turn : Serving.turn merge ⟨s, frame job.payload ++ [], written⟩ job.env = _ :=
    turn_frame merge written running sendable.small
  simpa only [List.append_nil] using turn

/-- A `Uarter` never says STOP. -/
theorem request_noStop {call : UarterCall} {r : Request} (request : IodinUart.request call = some r) :
    r.command ≠ .stop := by
  cases call with
  | tx bytes cap =>
    simp only [IodinUart.request] at request
    split at request
    next => cases request
    next =>
      cases Option.some.inj request
      exact Command.noConfusion
  | breakFor d =>
    cases Option.some.inj request
    exact Command.noConfusion
  | openPath path =>
    cases Option.some.inj request
    exact Command.noConfusion

namespace Pipes

/-- How far a call has got, and the direct calls with it: answered or not. -/
inductive Stage (codec : Codec) : Pipes → Direct → Prop
  | idle {todo server written replies} :
    Stage codec ⟨todo, .idle, ⟨server, [], written⟩, [], replies⟩ ⟨todo, server, replies⟩
  | asking {todo server written replies call r sent rest} (request : IodinUart.request call = some r)
    (split : sent ++ rest = frame (codec.encodeRequest r)) (missing : rest ≠ []) :
    Stage codec ⟨todo, .writing call rest, ⟨server, sent, written⟩, [], replies⟩ ⟨call :: todo, server, replies⟩
  | asked {todo server written replies call r} (request : IodinUart.request call = some r) :
    Stage codec ⟨todo, .readingLen call, ⟨server, frame (codec.encodeRequest r), written⟩, [], replies⟩
      ⟨call :: todo, server, replies⟩
  | answered {todo server written replies call w} (fits : Fits codec w) :
    Stage codec ⟨todo, .readingLen call, ⟨server, [], written⟩, frame (codec.encodeResponse w), replies⟩
      ⟨todo, server, replies ++ [IodinUart.reply call (w, none)]⟩
  | answering {todo server written replies call w} (fits : Fits codec w) :
    Stage codec
      ⟨todo, .readingBody call (codec.encodeResponse w).length, ⟨server, [], written⟩,
        codec.encodeResponse w, replies⟩
      ⟨todo, server, replies ++ [IodinUart.reply call (w, none)]⟩

/-- The pipes hold what belongs to the call under way and nothing else. -/
structure Tracks (codec : Codec) (p : Pipes) (d : Direct) : Prop where
  running : d.server.running = true
  sendable : ∀ call ∈ d.todo, ∀ r, IodinUart.request call = some r → Sendable codec r
  stage : Stage codec p d

/-- The steps that a call still takes at most. -/
def cost (codec : Codec) (call : UarterCall) : Nat :=
  match IodinUart.request call with
  | none => 1
  | some r => (frame (codec.encodeRequest r)).length + 4

def left (p : Pipes) : Nat :=
  match p.phase with
  | .idle => 0
  | .writing _ rest => rest.length + 3
  | .readingLen _ => if p.toClient = [] then 3 else 2
  | .readingBody _ _ => 1

def work (codec : Codec) (p : Pipes) : Nat := (p.todo.map (cost codec)).sum + p.left

/-- What a step makes of the pipes and of the direct calls. -/
def Advances (codec : Codec) (p : Pipes) (d : Direct) (e : PipeEvent) (q : Pipes) : Prop :=
  q.work codec < p.work codec ∧
    match e.visible with
    | none => Stage codec q d
    | some seen => ∃ d', d.step codec seen = some d' ∧ d'.server.running = d.server.running ∧ Stage codec q d'

theorem advances_idle {todo : List UarterCall} {server : Server} {written : List Response}
    {replies : List UarterReply} {e : PipeEvent} {q : Pipes}
    (h : step codec merge ⟨todo, .idle, ⟨server, [], written⟩, [], replies⟩ e = some q) :
    Advances codec ⟨todo, .idle, ⟨server, [], written⟩, [], replies⟩ ⟨todo, server, replies⟩ e q := by
  cases e with
  | refuse =>
    cases todo with
    | nil => cases h
    | cons call todo =>
      simp only [step] at h
      split at h
      next empty =>
        cases Option.some.inj h
        refine ⟨?_, ⟨todo, server, replies ++ [{ err := some .requestEmpty }]⟩, ?_, rfl, .idle⟩
        · simp only [work, left, List.map_cons, List.sum_cons, cost, empty]
          omega
        · simp only [Direct.step, empty]
      next => cases h
  | begin =>
    cases todo with
    | nil => cases h
    | cons call todo =>
      obtain ⟨r, request, same⟩ := Option.map_eq_some_iff.mp h
      subst same
      refine ⟨?_, .asking request rfl ?_⟩
      · simp only [work, left, List.map_cons, List.sum_cons, cost, request]
        omega
      · exact List.ne_nil_of_length_pos (by rw [length_frame]; omega)
  | write n => cases h
  | turn env => cases h
  | readLen => cases h
  | readBody => cases h

theorem advances_asking {todo : List UarterCall} {server : Server} {written : List Response}
    {replies : List UarterReply} {call : UarterCall} {r : Request} {sent rest : List UInt8}
    {e : PipeEvent} {q : Pipes}
    (sendable : Sendable codec r) (request : IodinUart.request call = some r)
    (split : sent ++ rest = frame (codec.encodeRequest r)) (missing : rest ≠ [])
    (h : step codec merge ⟨todo, .writing call rest, ⟨server, sent, written⟩, [], replies⟩ e = some q) :
    Advances codec ⟨todo, .writing call rest, ⟨server, sent, written⟩, [], replies⟩ ⟨call :: todo, server, replies⟩
      e q := by
  cases e with
  | write n =>
    simp only [step] at h
    split at h
    next bounds =>
      cases Option.some.inj h
      by_cases all : n = rest.length
      · subst all
        rw [if_pos rfl, List.take_length, split]
        refine ⟨?_, .asked request⟩
        have left := List.length_pos_of_ne_nil missing
        simp only [work, Pipes.left, if_true]
        omega
      · rw [if_neg all]
        refine ⟨?_, .asking request ?_ ?_⟩
        · simp only [work, left, List.length_drop]
          omega
        · rw [List.append_assoc, List.take_append_drop, split]
        · intro none
          have short := List.drop_eq_nil_iff.mp none
          omega
    next => cases h
  | turn env =>
    have waits := not_wholeFrame sendable.small split missing
    simp only [step, if_neg waits] at h
    cases h
  | refuse => cases h
  | begin => cases h
  | readLen => cases h
  | readBody => cases h

/-- The turn that answers: what `exec` has made of the request is in the other pipe. -/
theorem advances_asked (parses : Parses codec merge) {todo : List UarterCall} {server : Server}
    {written : List Response} {replies : List UarterReply} {call : UarterCall} {r : Request}
    {e : PipeEvent} {q : Pipes}
    (running : server.running = true) (sendable : Sendable codec r) (request : IodinUart.request call = some r)
    (fits : ∀ w ∈ q.serving.written, Fits codec w)
    (h : step codec merge
      ⟨todo, .readingLen call, ⟨server, frame (codec.encodeRequest r), written⟩, [], replies⟩ e = some q) :
    Advances codec ⟨todo, .readingLen call, ⟨server, frame (codec.encodeRequest r), written⟩, [], replies⟩
      ⟨call :: todo, server, replies⟩ e q := by
  cases e with
  | turn env =>
    have one := turn_request merge env written running sendable
    simp only [step, if_pos (wholeFrame_frame sendable.small), one] at h
    obtain ⟨serving, turned, same⟩ := Option.map_eq_some_iff.mp h
    obtain ⟨⟨server', w⟩, responded, served⟩ := Option.map_eq_some_iff.mp turned
    subst served same
    have parsed : merge.result (codec.encodeRequest r) = .ok r := by
      rw [parses, sendable.decodes]
    have consumed := merge.whole _ _ parsed
    have fit : Fits codec w := fits w (List.mem_append_right written List.mem_cons_self)
    have wrote : (written ++ [w]).drop written.length = [w] := List.drop_left
    simp only [consumed, List.drop_length, List.append_nil, wrote, List.flatMap_cons, List.flatMap_nil,
      List.nil_append]
    refine ⟨?_, ⟨todo, server', replies ++ [IodinUart.reply call (w, none)]⟩, ?_, ?_, .answered fit⟩
    · have some_bytes : frame (codec.encodeResponse w) ≠ [] :=
        List.ne_nil_of_length_pos (by rw [length_frame]; omega)
      simp only [work, left, if_neg some_bytes, if_true]
      omega
    · have direct := exchange_of_respond parses sendable fit responded
      simp only [Direct.step, request, direct, Option.bind_eq_bind, Option.bind_some]
    · have noStop : NoStop merge ⟨codec.encodeRequest r, env⟩ := by
        intro r' parsed'
        cases Except.ok.inj (parsed.symm.trans parsed')
        exact request_noStop request
      exact respond_running noStop responded
  | refuse => cases h
  | begin => cases h
  | write n => cases h
  | readLen =>
    have waits : readSome [] 4 (min 4 ([] : List UInt8).length) = none := rfl
    simp only [step, waits, Option.map_none] at h
    cases h
  | readBody => cases h

theorem advances_answered {todo : List UarterCall} {server : Server} {written : List Response}
    {replies : List UarterReply} {call : UarterCall} {w : Response} {e : PipeEvent} {q : Pipes} (fits : Fits codec w)
    (h : step codec merge
      ⟨todo, .readingLen call, ⟨server, [], written⟩, frame (codec.encodeResponse w), replies⟩ e = some q) :
    Advances codec ⟨todo, .readingLen call, ⟨server, [], written⟩, frame (codec.encodeResponse w), replies⟩
      ⟨todo, server, replies ++ [IodinUart.reply call (w, none)]⟩ e q := by
  cases e with
  | readLen =>
    have fit := fits.fits
    have length := length_frame (codec.encodeResponse w)
    have four : min 4 (frame (codec.encodeResponse w)).length = 4 := by omega
    have header : ¬ (fixed32 (codec.encodeResponse w).length).length < 4 := by simp [fixed32]
    simp only [step, four, Client.readSome_frame, Option.map_some, if_neg header,
      ofFixed32_fixed32 (show (codec.encodeResponse w).length < 2 ^ 32 by omega), Option.some.injEq] at h
    subst h
    refine ⟨?_, .answering fits⟩
    have some_bytes : frame (codec.encodeResponse w) ≠ [] := List.ne_nil_of_length_pos (by omega)
    simp only [work, left, if_neg some_bytes]
    omega
  | refuse => cases h
  | begin => cases h
  | write n => cases h
  | turn env => cases h
  | readBody => cases h

theorem advances_answering {todo : List UarterCall} {server : Server} {written : List Response}
    {replies : List UarterReply} {call : UarterCall} {w : Response} {e : PipeEvent} {q : Pipes} (fits : Fits codec w)
    (h : step codec merge ⟨todo, .readingBody call (codec.encodeResponse w).length, ⟨server, [], written⟩,
      codec.encodeResponse w, replies⟩ e = some q) :
    Advances codec ⟨todo, .readingBody call (codec.encodeResponse w).length, ⟨server, [], written⟩,
      codec.encodeResponse w, replies⟩ ⟨todo, server, replies ++ [IodinUart.reply call (w, none)]⟩ e q := by
  cases e with
  | readBody =>
    simp only [step, readBody_fits fits, Option.map_some, Option.some.injEq] at h
    subst h
    refine ⟨?_, .idle⟩
    simp only [work, left, finish]
    omega
  | refuse => cases h
  | begin => cases h
  | write n => cases h
  | turn env => cases h
  | readLen => cases h

theorem advances (parses : Parses codec merge) {p q : Pipes} {d : Direct} {e : PipeEvent} (tracks : Tracks codec p d)
    (fits : ∀ w ∈ q.serving.written, Fits codec w) (h : step codec merge p e = some q) : Advances codec p d e q := by
  obtain ⟨running, sendable, stage⟩ := tracks
  cases stage with
  | idle => exact advances_idle h
  | asking request split missing =>
    have sendable := sendable _ List.mem_cons_self _ request
    exact advances_asking sendable request split missing h
  | asked request =>
    have sendable := sendable _ List.mem_cons_self _ request
    exact advances_asked parses running sendable request fits h
  | answered fits => exact advances_answered fits h
  | answering fits => exact advances_answering fits h

end Pipes

/-- The direct calls go one by one, each with one reply. -/
theorem Direct.step_todo {d d' : Direct} {e : Direct.Event} (h : d.step codec e = some d') :
    ∃ call, d.todo = call :: d'.todo ∧ d'.replies.length = d.replies.length + 1 := by
  cases e with
  | refuse =>
    simp only [Direct.step] at h
    split at h
    next => cases h
    next call todo calls =>
      split at h
      next =>
        cases Option.some.inj h
        exact ⟨call, calls, by simp⟩
      next => cases h
  | exchange env =>
    simp only [Direct.step] at h
    split at h
    next => cases h
    next call todo calls =>
      obtain ⟨r, request, h⟩ := Option.bind_eq_some_iff.mp h
      obtain ⟨returned, _, h⟩ := Option.bind_eq_some_iff.mp h
      cases Option.some.inj h
      exact ⟨call, calls, by simp⟩

namespace Pipes

/-- Every response written so far can be read back by the client. -/
def AllFit (codec : Codec) (_ : Pipes) (_ : PipeEvent) (q : Pipes) : Prop :=
  ∀ w ∈ q.serving.written, Fits codec w

instance (codec : Codec) (p : Pipes) (e : PipeEvent) (q : Pipes) : Decidable (AllFit codec p e q) :=
  inferInstanceAs (Decidable (∀ w ∈ _, _))

theorem tracks_start {calls : List UarterCall} {server : Server} (running : server.running = true)
    (sendable : ∀ call ∈ calls, ∀ r, IodinUart.request call = some r → Sendable codec r) :
    Tracks codec (start calls server) ⟨calls, server, []⟩ where
  running
  sendable
  stage := .idle

theorem tracks_unseen (parses : Parses codec merge) {p q : Pipes} {d : Direct} {e : PipeEvent}
    (h : step codec merge p e = some q) (fits : AllFit codec p e q) (unseen : e.visible = none)
    (tracks : Tracks codec p d) : Tracks codec q d := by
  have advanced := (advances parses tracks fits h).2
  rw [unseen] at advanced
  exact ⟨tracks.running, tracks.sendable, advanced⟩

theorem tracks_seen (parses : Parses codec merge) {p q : Pipes} {d : Direct} {e : PipeEvent} {seen : Direct.Event}
    (h : step codec merge p e = some q) (fits : AllFit codec p e q) (visible : e.visible = some seen)
    (tracks : Tracks codec p d) : ∃ d', d.step codec seen = some d' ∧ Tracks codec q d' := by
  have advanced := (advances parses tracks fits h).2
  rw [visible] at advanced
  obtain ⟨d', stepped, running, stage⟩ := advanced
  obtain ⟨call, todo, _⟩ := Direct.step_todo stepped
  refine ⟨d', stepped, running.trans tracks.running, ?_, stage⟩
  intro c mem
  exact tracks.sendable c (by rw [todo]; exact List.mem_cons_of_mem call mem)

theorem tracks_run (parses : Parses codec merge) {p u : Pipes} {d : Direct} {es : List PipeEvent}
    (reached : Runs.run (step codec merge) p es = some u) (fits : Runs.Along (step codec merge) (AllFit codec) p es)
    (tracks : Tracks codec p d) :
    ∃ d', Runs.run (Direct.step codec) d (es.filterMap PipeEvent.visible) = some d' ∧ Tracks codec u d' := by
  refine Runs.refines_run (R := Tracks codec) ?_ ?_ reached fits tracks
  · intro s e t x stepped fits unseen h
    exact tracks_unseen parses stepped fits unseen h
  · intro s e t seen x stepped fits visible h
    exact tracks_seen parses stepped fits visible h

/-- What the client has been told is a beginning of what the direct calls return. -/
theorem stage_prefix {p : Pipes} {d : Direct} (stage : Stage codec p d) : p.replies <+: d.replies := by
  cases stage with
  | idle | asking | asked => exact List.prefix_rfl
  | answered | answering => exact List.prefix_append _ _

theorem stage_idle {p : Pipes} {d : Direct} (stage : Stage codec p d) (idle : p.phase = .idle) :
    p.serving.input = [] ∧ p.toClient = [] ∧ d = ⟨p.todo, p.serving.server, p.replies⟩ := by
  cases stage with
  | idle => exact ⟨rfl, rfl, rfl⟩
  | asking | asked | answered | answering => cases idle

def pollResult (bytes : List UInt8) : Except String Request :=
  if bytes = pollBytes then .ok IodinUart.poll else .error "protobuf error"

def pollConsumed (bytes : List UInt8) : Nat := if bytes = pollBytes then bytes.length else min 1 bytes.length

theorem pollConsumed_le (bytes : List UInt8) : pollConsumed bytes ≤ bytes.length := by
  unfold pollConsumed
  split
  · exact Nat.le_refl _
  · exact Nat.min_le_right _ _

theorem pollConsumed_whole (bytes : List UInt8) (request : Request) (parsed : pollResult bytes = .ok request) :
    pollConsumed bytes = bytes.length := by
  unfold pollResult at parsed
  split at parsed
  next poll => exact if_pos poll
  next => cases parsed

/-- Reads the POLL and refuses anything else at its first byte. -/
def pollMerge : MergeFrom where
  result := pollResult
  consumed := pollConsumed
  within := pollConsumed_le
  whole := pollConsumed_whole

theorem pollMerge_parses : Parses IodinUart.pollCodec pollMerge := by
  intro payload
  by_cases poll : payload = pollBytes
  · subst poll
    rfl
  · have other : IodinUart.pollCodec.decodeRequest payload = none := if_neg poll
    rw [other]
    exact if_neg poll

def twoPolls : List UarterCall := [.tx [0x0b] 40, .tx [] 40, .tx [0x0b] 1]

/-- The first request is written in two pieces and the second one is empty. -/
def twoPollsRun : List PipeEvent :=
  [.begin, .write 3, .write 6, .turn IodinUart.quietEnv, .readLen, .readBody, .refuse,
    .begin, .write 9, .turn IodinUart.quietEnv, .readLen, .readBody]

theorem twoPolls_sendable :
    ∀ call ∈ twoPolls, ∀ r, IodinUart.request call = some r → Sendable IodinUart.pollCodec r := by
  intro call mem r request
  have poll : r = IodinUart.poll := by
    simp only [twoPolls, List.mem_cons, List.not_mem_nil, or_false] at mem
    rcases mem with rfl | rfl | rfl
    · exact (Option.some.inj request).symm
    · cases request
    · exact (Option.some.inj request).symm
  rw [poll]
  exact ⟨by decide, by decide⟩

theorem twoPollsRun_fits :
    Runs.Along (step IodinUart.pollCodec pollMerge) (AllFit IodinUart.pollCodec)
    (start twoPolls mockServing) twoPollsRun := by
  decide +kernel

/-- In whatever pieces the two processes write and read and whichever of them
goes first: every call returns what it would return had it met the server alone,
and between two calls the pipes are empty. -/
theorem calls_as_direct (parses : Parses codec merge) {calls : List UarterCall} {server : Server}
    (running : server.running = true)
    (sendable : ∀ call ∈ calls, ∀ r, IodinUart.request call = some r → Sendable codec r)
    {es : List PipeEvent} {u : Pipes}
    (reached : Runs.run (step codec merge) (start calls server) es = some u)
    (fits : Runs.Along (step codec merge) (AllFit codec) (start calls server) es) :
    ∃ d, Runs.run (Direct.step codec) ⟨calls, server, []⟩ (es.filterMap PipeEvent.visible) = some d ∧
      u.replies <+: d.replies ∧
      (u.phase = .idle → u.serving.input = [] ∧ u.toClient = [] ∧ d = ⟨u.todo, u.serving.server, u.replies⟩) := by
  obtain ⟨d, direct, tracks⟩ := tracks_run parses reached fits (tracks_start running sendable)
  exact ⟨d, direct, stage_prefix tracks.stage, stage_idle tracks.stage⟩

theorem calls_as_direct_twoPolls :
    ∃ u d, Runs.run (step IodinUart.pollCodec pollMerge) (start twoPolls mockServing) twoPollsRun = some u ∧
      Runs.run (Direct.step IodinUart.pollCodec) ⟨twoPolls, mockServing, []⟩
        (twoPollsRun.filterMap PipeEvent.visible) = some d ∧ u.replies <+: d.replies := by
  have possible :
      (Runs.run (step IodinUart.pollCodec pollMerge) (start twoPolls mockServing) twoPollsRun).isSome := by
    decide +kernel
  obtain ⟨u, reached⟩ := Option.isSome_iff_exists.mp possible
  obtain ⟨d, direct, told, _⟩ := calls_as_direct pollMerge_parses rfl twoPolls_sendable reached twoPollsRun_fits
  exact ⟨u, d, reached, direct, told⟩

/-- `exec` does not return, whatever the hardware does. -/
def Hangs (server : Server) (r : Request) : Prop :=
  ∀ env, (server.exec env r {}).2.2 = .died ∨ (server.exec env r {}).2.2 = .blocked

theorem respond_none (parses : Parses codec merge) {env : ExecEnv} {server : Server} {r : Request}
    (sendable : Sendable codec r) (none : server.respond merge env (codec.encodeRequest r) = none) :
    (server.exec env r {}).2.2 = .died ∨ (server.exec env r {}).2.2 = .blocked := by
  have parsed : merge.result (codec.encodeRequest r) = .ok r := by
    rw [parses, sendable.decodes]
  rw [Server.respond, parsed] at none
  dsimp only at none
  generalize server.exec env r {} = ended at none ⊢
  obtain ⟨server', response, stop⟩ := ended
  cases stop with
  | ok | err => cases none
  | died => exact Or.inl rfl
  | blocked => exact Or.inr rfl

/-- Where neither process can go on, all calls have returned or `exec` hangs. -/
theorem tracks_stuck (parses : Parses codec merge) {p : Pipes} {d : Direct} (tracks : Tracks codec p d)
    (stuck : ∀ e, step codec merge p e = none) :
    p.phase = .idle ∧ p.todo = [] ∨
      ∃ r, p.serving.input = frame (codec.encodeRequest r) ∧ Hangs p.serving.server r := by
  obtain ⟨running, sendable, stage⟩ := tracks
  cases stage with
  | @idle todo =>
    cases todo with
    | nil => exact Or.inl ⟨rfl, rfl⟩
    | cons call todo =>
      have refuse := stuck .refuse
      have begin_ := stuck .begin
      cases request : IodinUart.request call with
      | none =>
        simp only [step, request] at refuse
        cases refuse
      | some r =>
        simp only [step, request] at begin_
        cases begin_
  | @asking _ _ _ _ _ _ _ rest request split missing =>
    have write := stuck (.write rest.length)
    have bytes := List.length_pos_of_ne_nil missing
    have bounds : 1 ≤ rest.length ∧ rest.length ≤ rest.length := ⟨bytes, Nat.le_refl _⟩
    simp only [step, if_pos bounds] at write
    cases write
  | @asked todo server written replies call r request =>
    have sendable := sendable call List.mem_cons_self r request
    refine Or.inr ⟨r, rfl, fun env => respond_none parses sendable ?_⟩
    have one := turn_request merge env written running sendable
    have turn := stuck (.turn env)
    simp only [step, if_pos (wholeFrame_frame sendable.small), one, Option.map_eq_none_iff] at turn
    exact turn
  | @answered _ _ _ _ _ w fits =>
    have read := stuck .readLen
    have length := length_frame (codec.encodeResponse w)
    have four : min 4 (frame (codec.encodeResponse w)).length = 4 := by omega
    simp only [step, four, Client.readSome_frame, Option.map_some] at read
    cases read
  | answering fits =>
    have read := stuck .readBody
    simp only [step, readBody_fits fits, Option.map_some] at read
    cases read

theorem direct_replies {d d' : Direct} {es : List Direct.Event}
    (reached : Runs.run (Direct.step codec) d es = some d') :
    d'.replies.length + d'.todo.length = d.replies.length + d.todo.length := by
  refine Runs.invariant_of_run (I := fun x => x.replies.length + x.todo.length = d.replies.length + d.todo.length)
    ?_ rfl (Runs.along_true d es) reached
  intro s e t h same _
  obtain ⟨call, todo, replies⟩ := Direct.step_todo h
  rw [todo, List.length_cons] at same
  omega

/-- The calls take a bounded number of steps, and where none is left to take
every call has its reply, unless `exec` hangs on the request it has read. -/
theorem calls_return (parses : Parses codec merge) {calls : List UarterCall} {server : Server}
    (running : server.running = true)
    (sendable : ∀ call ∈ calls, ∀ r, IodinUart.request call = some r → Sendable codec r)
    {es : List PipeEvent} {u : Pipes}
    (reached : Runs.run (step codec merge) (start calls server) es = some u)
    (fits : Runs.Along (step codec merge) (AllFit codec) (start calls server) es) :
    es.length ≤ (calls.map (cost codec)).sum ∧
      ((∀ e, step codec merge u e = none) →
        u.phase = .idle ∧ u.replies.length = calls.length ∨
          ∃ r, u.serving.input = frame (codec.encodeRequest r) ∧ Hangs u.serving.server r) := by
  have tracks := tracks_start running sendable
  constructor
  · have bound : es.length + u.work codec ≤ (start calls server).work codec := by
      refine Runs.length_le_of_descends (I := fun p => ∃ d, Tracks codec p d) ?_ ⟨_, tracks⟩ fits reached
      intro p e q stepped tracked fits
      obtain ⟨d, tracks⟩ := tracked
      refine ⟨(advances parses tracks fits stepped).1, ?_⟩
      cases visible : e.visible with
      | none => exact ⟨d, tracks_unseen parses stepped fits visible tracks⟩
      | some seen =>
        obtain ⟨d', _, tracks'⟩ := tracks_seen parses stepped fits visible tracks
        exact ⟨d', tracks'⟩
    have whole : (start calls server).work codec = (calls.map (cost codec)).sum := rfl
    omega
  · intro stuck
    obtain ⟨d, direct, tracks⟩ := tracks_run parses reached fits tracks
    rcases tracks_stuck parses tracks stuck with ⟨idle, done⟩ | hangs
    · obtain ⟨_, _, same⟩ := stage_idle tracks.stage idle
      have replies := direct_replies direct
      rw [same, done] at replies
      exact Or.inl ⟨idle, by simpa using replies⟩
    · exact Or.inr hangs

theorem calls_return_twoPolls :
    ∃ u, Runs.run (step IodinUart.pollCodec pollMerge) (start twoPolls mockServing) twoPollsRun = some u ∧
      twoPollsRun.length ≤ (twoPolls.map (cost IodinUart.pollCodec)).sum := by
  have possible :
      (Runs.run (step IodinUart.pollCodec pollMerge) (start twoPolls mockServing) twoPollsRun).isSome := by
    decide +kernel
  obtain ⟨u, reached⟩ := Option.isSome_iff_exists.mp possible
  exact ⟨u, reached, (calls_return pollMerge_parses rfl twoPolls_sendable reached twoPollsRun_fits).1⟩

end Pipes

end Vender.Iodin
