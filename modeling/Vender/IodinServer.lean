import Vender.IodinUart
import Vender.Lib.Runs

namespace Vender.Iodin

/-- `merge_from` on the bytes within the pushed limit: its result, and how many
of the bytes it has consumed by then. -/
structure MergeFrom where
  result : List UInt8 → Except String Request
  consumed : List UInt8 → Nat
  within : ∀ bytes, consumed bytes ≤ bytes.length
  whole : ∀ bytes request, result bytes = .ok request → consumed bytes = bytes.length

/-- The loop of `Server::run` between two turns. -/
structure Serving where
  server : Server
  input : List UInt8
  written : List Response := []

structure Job where
  payload : List UInt8
  env : ExecEnv

namespace Server

/-- The part of a turn between `merge_from` and `pop_limit`, `none` where it does not return. -/
def respond (merge : MergeFrom) (env : ExecEnv) (s : Server) (payload : List UInt8) : Option (Server × Response) :=
  match merge.result payload with
  | .error e => some (s, { status := .errInput, error := e })
  | .ok request =>
    match s.exec env request {} with
    | (s, response, .ok) | (s, response, .err) => some (s, response)
    | (_, _, .died) | (_, _, .blocked) => none

def serve (merge : MergeFrom) : Server → List Job → Option (Server × List Response)
  | s, [] => some (s, [])
  | s, job :: jobs => do
    let (s, response) ← s.respond merge job.env job.payload
    let (s, responses) ← serve merge s jobs
    some (s, response :: responses)

end Server

namespace Serving

/-- One turn of `while self.running`, `none` where `run` returns or `exec` does not. -/
def turn (merge : MergeFrom) (s : Serving) (env : ExecEnv) : Option Serving :=
  if s.server.running then
    if s.input.length < 4 then none
    else do
      let msglen := ofFixed32 (s.input.take 4)
      let payload := (s.input.drop 4).take msglen
      let (server, response) ← s.server.respond merge env payload
      -- `pop_limit` skips nothing of what `merge_from` has left
      some { server, input := s.input.drop (4 + merge.consumed payload), written := s.written ++ [response] }
  else none

end Serving

def frames (jobs : List Job) : List UInt8 := jobs.flatMap fun job => frame job.payload

/-- A payload that does not parse is answered by `ERR_INPUT`. -/
def Answers (merge : MergeFrom) (job : Job) (response : Response) : Prop :=
  ∀ e, merge.result job.payload = .error e → response = { status := .errInput, error := e }

/-- After any number of turns one response is written for each frame so far, and
the next length is read behind the last of them. -/
def InFrame (merge : MergeFrom) (server : Server) (written : List Response) (jobs : List Job) : Prop :=
  ∀ k ≤ jobs.length, ∃ server' responses, server.serve merge (jobs.take k) = some (server', responses) ∧
    List.Forall₂ (Answers merge) (jobs.take k) responses ∧
    Runs.run (Serving.turn merge) ⟨server, frames jobs, written⟩ ((jobs.take k).map Job.env) =
      some ⟨server', frames (jobs.drop k), written ++ responses⟩

/-- No payload holds a STOP. -/
def NoStop (merge : MergeFrom) (job : Job) : Prop :=
  ∀ request, merge.result job.payload = .ok request → request.command ≠ .stop

theorem failed_server (s : Server) (response : Response) (stop : Stop) : (s.failed response stop).1 = s := by
  cases stop <;> rfl

theorem exec_running (env : ExecEnv) (s : Server) {request : Request} (response : Response)
    (noStop : request.command ≠ .stop) : (s.exec env request response).1.running = s.running := by
  unfold Server.exec
  split
  next => rfl
  next stop => exact absurd stop noStop
  next =>
    split
    next => split <;> simp [failed_server]
    next => rfl
  next =>
    split
    next => rfl
    next => split <;> simp [failed_server]
  next =>
    split
    next => rfl
    next =>
      split
      next => rfl
      next => split <;> simp [failed_server]

theorem respond_running {merge : MergeFrom} {s s' : Server} {job : Job} {response : Response}
    (noStop : NoStop merge job)
    (h : s.respond merge job.env job.payload = some (s', response)) : s'.running = s.running := by
  unfold Server.respond at h
  split at h
  next =>
    cases Option.some.inj h
    rfl
  next request parsed =>
    have kept := exec_running job.env s {} (noStop request parsed)
    split at h
    next heq => cases Option.some.inj h; rw [heq] at kept; exact kept
    next heq => cases Option.some.inj h; rw [heq] at kept; exact kept
    next => cases h
    next => cases h

theorem respond_errInput {merge : MergeFrom} {env : ExecEnv} {s s' : Server} {payload : List UInt8} {e : String}
    {response : Response} (failed : merge.result payload = .error e)
    (h : s.respond merge env payload = some (s', response)) : response = { status := .errInput, error := e } := by
  rw [Server.respond, failed] at h
  cases Option.some.inj h
  rfl

/-- A turn responds as one round of the loop on a whole message does. -/
theorem round_eq_respond {codec : Codec} {merge : MergeFrom} (env : ExecEnv) (s : Server) (input : List UInt8)
    (agree : ∀ payload, merge.result payload = match codec.decodeRequest payload with
      | none => .error (codec.parseError payload)
      | some request => .ok request) :
    (match s.round codec env input with
      | (s', some response, _) => some (s', response)
      | (_, none, _) => none) = s.respond merge env ((input.drop 4).take (ofFixed32 (input.take 4))) := by
  unfold Server.round Server.respond
  rw [agree]
  dsimp only
  cases codec.decodeRequest ((input.drop 4).take (ofFixed32 (input.take 4))) with
  | none => rfl
  | some request =>
    dsimp only
    generalize s.exec env request {} = ended
    obtain ⟨s', response, stop⟩ := ended
    cases stop <;> rfl

theorem turn_frame (merge : MergeFrom) {s : Server} {job : Job} {rest : List UInt8} (written : List Response)
    (running : s.running = true) (small : job.payload.length < 2 ^ 32) :
    Serving.turn merge ⟨s, frame job.payload ++ rest, written⟩ job.env =
      (s.respond merge job.env job.payload).map fun (s', response) =>
        ⟨s', job.payload.drop (merge.consumed job.payload) ++ rest, written ++ [response]⟩ := by
  have header : (frame job.payload ++ rest).take 4 = fixed32 job.payload.length := rfl
  have body : (frame job.payload ++ rest).drop 4 = job.payload ++ rest := rfl
  have long : ¬ (frame job.payload ++ rest).length < 4 := by simp [frame, fixed32]
  have left : (frame job.payload ++ rest).drop (4 + merge.consumed job.payload) =
      job.payload.drop (merge.consumed job.payload) ++ rest := by
    rw [← List.drop_drop, body, List.drop_append_of_le_length (merge.within job.payload)]
  unfold Serving.turn
  rw [if_pos running]
  simp only [if_neg long, header, body, ofFixed32_fixed32 small, List.take_left, left]
  cases s.respond merge job.env job.payload <;> rfl

theorem serve_cons {merge : MergeFrom} {s s' : Server} {job : Job} {jobs : List Job} {response : Response}
    (responded : s.respond merge job.env job.payload = some (s', response)) :
    s.serve merge (job :: jobs) = (s'.serve merge jobs).map fun (s'', responses) => (s'', response :: responses) := by
  simp only [Server.serve, responded, Option.bind_eq_bind, Option.bind_some]
  cases s'.serve merge jobs <;> rfl

theorem serve_answers {merge : MergeFrom} {jobs : List Job} {s s' : Server} {responses : List Response}
    (h : s.serve merge jobs = some (s', responses)) : List.Forall₂ (Answers merge) jobs responses := by
  induction jobs generalizing s responses with
  | nil =>
    cases Option.some.inj h
    exact .nil
  | cons job jobs ih =>
    obtain ⟨⟨s₁, response⟩, responded, _⟩ := Option.bind_eq_some_iff.mp h
    rw [serve_cons responded] at h
    obtain ⟨⟨s₂, later⟩, served, eq⟩ := Option.map_eq_some_iff.mp h
    cases eq
    exact .cons (fun e failed => respond_errInput failed responded) (ih served)

/-- The turn on the first frame keeps in step exactly if `merge_from` consumes
the whole payload. -/
theorem inFrame_cons {merge : MergeFrom} {s s' : Server} {written : List Response} {job : Job} {jobs : List Job}
    {response : Response} (running : s.running = true) (small : job.payload.length < 2 ^ 32)
    (responded : s.respond merge job.env job.payload = some (s', response)) :
    InFrame merge s written (job :: jobs) ↔
      merge.consumed job.payload = job.payload.length ∧ InFrame merge s' (written ++ [response]) jobs := by
  have first : Serving.turn merge ⟨s, frames (job :: jobs), written⟩ job.env =
      some ⟨s', job.payload.drop (merge.consumed job.payload) ++ frames jobs, written ++ [response]⟩ := by
    have turn : Serving.turn merge ⟨s, frame job.payload ++ frames jobs, written⟩ job.env = _ :=
      turn_frame merge written running small
    rw [responded] at turn
    exact turn
  have step : merge.consumed job.payload = job.payload.length → ∀ envs,
      Runs.run (Serving.turn merge) ⟨s, frames (job :: jobs), written⟩ (job.env :: envs) =
        Runs.run (Serving.turn merge) ⟨s', frames jobs, written ++ [response]⟩ envs := by
    intro whole envs
    rw [Runs.run, first, whole, List.drop_length, List.nil_append, Option.bind_some]
  constructor
  · intro inFrame
    have whole : merge.consumed job.payload = job.payload.length := by
      obtain ⟨server', responses, _, _, run⟩ := inFrame 1 (by simp)
      simp only [List.take_succ_cons, List.take_zero, List.map_cons, List.map_nil, Runs.run, first,
        Option.bind_some, Option.some.injEq, Serving.mk.injEq, List.drop_succ_cons, List.drop_zero] at run
      have length := congrArg List.length run.2.1
      have within := merge.within job.payload
      simp only [List.length_append, List.length_drop] at length
      omega
    refine ⟨whole, fun k hk => ?_⟩
    obtain ⟨server', responses, served, _, run⟩ := inFrame (k + 1) (by simpa using hk)
    rw [List.take_succ_cons, serve_cons responded] at served
    obtain ⟨⟨s'', rest⟩, later, eq⟩ := Option.map_eq_some_iff.mp served
    cases eq
    rw [List.take_succ_cons, List.map_cons, step whole] at run
    exact ⟨server', rest, later, serve_answers later, by simpa using run⟩
  · rintro ⟨whole, inFrame⟩ k hk
    cases k with
    | zero => exact ⟨s, [], rfl, .nil, by simp [Runs.run]⟩
    | succ k =>
      obtain ⟨server', responses, served, _, run⟩ := inFrame k (by simpa using hk)
      have all : s.serve merge ((job :: jobs).take (k + 1)) = some (server', response :: responses) := by
        rw [List.take_succ_cons, serve_cons responded, served]
        rfl
      refine ⟨server', response :: responses, all, serve_answers all, ?_⟩
      rw [List.take_succ_cons, List.map_cons, step whole, run]
      simp

theorem inFrame_iff_consumed {merge : MergeFrom} {jobs : List Job} {s : Server} {written : List Response}
    (running : s.running = true) (small : ∀ job ∈ jobs, job.payload.length < 2 ^ 32)
    (noStop : ∀ job ∈ jobs, NoStop merge job) (returns : (s.serve merge jobs).isSome) :
    InFrame merge s written jobs ↔ ∀ job ∈ jobs, merge.consumed job.payload = job.payload.length := by
  induction jobs generalizing s written with
  | nil =>
    refine iff_of_true (fun k hk => ⟨s, [], ?_⟩) (by simp)
    have zero : k = 0 := Nat.le_zero.mp hk
    subst zero
    exact ⟨rfl, .nil, by simp [Runs.run]⟩
  | cons job jobs ih =>
    obtain ⟨⟨s', response⟩, responded⟩ : ∃ r, s.respond merge job.env job.payload = some r := by
      cases h : s.respond merge job.env job.payload with
      | none => simp [Server.serve, h] at returns
      | some r => exact ⟨r, rfl⟩
    rw [serve_cons responded, Option.isSome_map] at returns
    have running' : s'.running = true := by
      rw [respond_running (noStop job (by simp)) responded, running]
    rw [inFrame_cons running (small job (by simp)) responded,
      ih running' (fun j mem => small j (by simp [mem])) (fun j mem => noStop j (by simp [mem])) returns]
    simp

/-- As long as `exec` returns and nobody says STOP, the server answers every
frame with one response and stays in step with the frames exactly if `merge_from`
consumes the payloads that it refuses to the end. -/
theorem inFrame_iff {merge : MergeFrom} {jobs : List Job} {s : Server} (running : s.running = true)
    (small : ∀ job ∈ jobs, job.payload.length < 2 ^ 32) (noStop : ∀ job ∈ jobs, NoStop merge job)
    (returns : (s.serve merge jobs).isSome) :
    InFrame merge s [] jobs ↔
      ∀ job ∈ jobs, ∀ e, merge.result job.payload = .error e → merge.consumed job.payload = job.payload.length := by
  rw [inFrame_iff_consumed running small noStop returns]
  constructor
  · intro consumed job mem e _
    exact consumed job mem
  · intro consumed job mem
    cases parsed : merge.result job.payload with
    | error e => exact consumed job mem e parsed
    | ok request => exact merge.whole job.payload request parsed

def pollBytes : List UInt8 := [0x10, 0x03, 0x2a, 0x01, 0x0b]

def tagMerge : MergeFrom where
  result := fun bytes =>
    if bytes = [] then .ok {}
    else if bytes = pollBytes then .ok { command := .mdbTx, arg_bytes := [0x0b] }
    else .error "incorrect tag"
  consumed := fun bytes => if bytes = pollBytes then bytes.length else min 1 bytes.length
  within := by
    intro bytes
    split <;> omega
  whole := by
    intro bytes request h
    split at h
    next empty => simp [empty]
    next =>
      split at h
      next poll => simp [poll]
      next => cases h

def mockServing : Server := { IodinUart.mockServer with running := true }

def pollBetweenTags : List Job :=
  [⟨[0x07], IodinUart.quietEnv⟩, ⟨pollBytes, IodinUart.quietEnv⟩, ⟨[0x07], IodinUart.quietEnv⟩]

theorem pollBetweenTags_inFrame : InFrame tagMerge mockServing [] pollBetweenTags := by
  refine (inFrame_iff rfl ?_ ?_ ?_).mpr ?_
  · decide
  · intro job mem request parsed
    have known : request = {} ∨ request = IodinUart.poll := by
      simp only [tagMerge] at parsed
      split at parsed
      next => exact Or.inl (Except.ok.inj parsed).symm
      next =>
        split at parsed
        next => exact Or.inr (Except.ok.inj parsed).symm
        next => cases parsed
    rcases known with rfl | rfl <;> decide
  · decide +kernel
  · intro job mem e _
    have consumed : ∀ job ∈ pollBetweenTags, tagMerge.consumed job.payload = job.payload.length := by decide
    exact consumed job mem

/-- A tag of wire type 7 and one byte more, then an empty message: the next
length begins with the byte that is left. -/
theorem tagAndByte_not_inFrame :
    ¬ InFrame tagMerge mockServing [] [⟨[0x07, 0x00], IodinUart.quietEnv⟩, ⟨[], IodinUart.quietEnv⟩] := by
  intro inFrame
  obtain ⟨server', responses, _, _, run⟩ := inFrame 1 (by decide)
  have input : Option.map Serving.input _ = some (frames [⟨[], IodinUart.quietEnv⟩]) :=
    congrArg (Option.map Serving.input) run
  exact absurd input (by decide +kernel)

end Vender.Iodin
