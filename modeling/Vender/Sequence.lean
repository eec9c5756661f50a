import Vender.Lib.Runs

namespace Vender

/-- `msync.MultiWait` without its condition variable: who waits for a broadcast
is written in the program counters below. -/
structure MultiWait where
  done : Bool := false
  err : Option String := none
deriving DecidableEq

/-- `Done` before its broadcast. -/
def MultiWait.finish (w : MultiWait) (err : Option String) : MultiWait :=
  if w.done then w else { done := true, err }

def MultiWait.reset (_ : MultiWait) : MultiWait := {}

inductive SeqState
  | invalid
  | pause
  | run
  | «end»
  | error
deriving DecidableEq

/-- One call of `Action.Start`: its `MultiWait` and whether `Run` has returned. -/
structure Launch (α : Type*) where
  action : α
  w : MultiWait := {}
  running : Bool := true
deriving DecidableEq

/-- Where a goroutine of `Sequence.run` stands; what it does next is its name. -/
inductive RunPc (α : Type*)
  | copy
  | range
  | check (a : α)
  | waitTouch (a : α)
  | blocked (a : α)
  | start (a : α)
  | setCurrent (a : α)
  | wait (a : α)
  | waitDone (k : Nat)
  | clearCurrent
  | setEnd
  | done
  | broadcast
  | exited
deriving DecidableEq

structure Runner (α : Type*) where
  pc : RunPc α := .copy
  /-- What is left in `actch`. -/
  queue : List α := []
deriving DecidableEq

inductive SeqCall
  | start
  | pause
  | abort
deriving DecidableEq

/-- Where a goroutine that called `Start`, `Pause` or `Abort` stands. -/
inductive CallPc (α : Type*)
  | startReset
  | startRun
  | startSet
  | pauseSet
  | abortSet
  | abortCurrent
  | abortAction (a : α)
  | abortActionWait (a : α)
  | abortActionDone (k : Nat)
  | touch (aborting : Bool)
  | abortWait
  | abortBlocked
  | returned (err : Option String)
deriving DecidableEq

structure Sequence (α : Type*) where
  actions : List α
  state : SeqState := .pause
  w : MultiWait := {}
  current : Option α := none
  launches : List (Launch α) := []
  /-- `a.w` of an action: its latest launch. -/
  latest : α → Option Nat := fun _ => none
  runners : List (Runner α) := []
  callers : List (CallPc α) := []
  /-- History: the actions started since the sequence last reported `Done`. -/
  round : List α := []

/-- A step of the `i`-th caller or of the `i`-th runner lies between two lock
sections; `finish k err` is `Action.Run` of the `k`-th launch returning `err`. -/
inductive SeqStep
  | call (op : SeqCall)
  | caller (i : Nat)
  | runner (i : Nat)
  | finish (k : Nat) (err : Option String)
deriving DecidableEq

def RunPc.isBlocked {α : Type*} : RunPc α → Bool
  | .blocked _ => true
  | _ => false

def RunPc.wake {α : Type*} : RunPc α → RunPc α
  | .blocked a => .check a
  | pc => pc

def CallPc.wake {α : Type*} : CallPc α → CallPc α
  | .abortBlocked => .abortWait
  | pc => pc

/-- The call still has its `Touch` to perform. -/
def CallPc.touches {α : Type*} : CallPc α → Bool
  | .abortWait | .abortBlocked | .returned _ => false
  | _ => true

def SeqCall.entry {α : Type*} : SeqCall → CallPc α
  | .start => .startReset
  | .pause => .pauseSet
  | .abort => .abortSet

namespace Sequence

variable {α : Type*} [DecidableEq α]

/-- `NewSequence` and the `Append`s before the first `Start`. -/
def new (actions : List α) : Sequence α where
  actions := actions

/-- `cond.Broadcast`. -/
def broadcast (s : Sequence α) : Sequence α :=
  { s with runners := s.runners.map fun r => { r with pc := r.pc.wake },
           callers := s.callers.map CallPc.wake }

def setRunner (s : Sequence α) (i : Nat) (r : Runner α) : Sequence α :=
  { s with runners := s.runners.set i r }

def setCaller (s : Sequence α) (i : Nat) (pc : CallPc α) : Sequence α :=
  { s with callers := s.callers.set i pc }

def finishLaunch (s : Sequence α) (k : Nat) (err : Option String) : Sequence α :=
  { s with launches := s.launches.modify k fun l => { l with w := l.w.finish err } }

/-- `a.Start(nil)`. -/
def startAction (s : Sequence α) (a : α) : Sequence α :=
  { s with launches := s.launches ++ [{ action := a }],
           latest := Function.update s.latest a (some s.launches.length),
           round := s.round ++ [a] }

/-- `Action.Wait` on the launch `a.w` stood for when it was called. -/
def launchDone (s : Sequence α) (k : Nat) : Bool :=
  (s.launches[k]?.map fun l => l.w.done).getD false

def runnerStep (s : Sequence α) (i : Nat) (r : Runner α) : Option (Sequence α) :=
  match r.pc with
  | .copy => some (s.setRunner i { pc := .range, queue := s.actions })
  | .range =>
    match r.queue with
    | [] => some (s.setRunner i { r with pc := .setEnd })
    | a :: queue => some (s.setRunner i { pc := .check a, queue })
  | .check a =>
    match s.state with
    | .end | .error => some (s.setRunner i { r with pc := .setEnd })
    | .run => some (s.setRunner i { r with pc := .start a })
    | .pause | .invalid => some (s.setRunner i { r with pc := .waitTouch a })
  | .waitTouch a => some (s.setRunner i { r with pc := .blocked a })
  | .blocked _ => none
  | .start a => some ((s.startAction a).setRunner i { r with pc := .setCurrent a })
  | .setCurrent a => some (setRunner { s with current := some a } i { r with pc := .wait a })
  | .wait a => (s.latest a).map fun k => s.setRunner i { r with pc := .waitDone k }
  | .waitDone k => if s.launchDone k then some (s.setRunner i { r with pc := .clearCurrent }) else none
  | .clearCurrent => some (setRunner { s with current := none } i { r with pc := .range })
  | .setEnd => some (setRunner { s with state := .end } i { r with pc := .done })
  | .done => some (setRunner { s with w := s.w.finish none, round := [] } i { r with pc := .broadcast })
  | .broadcast => some (s.setRunner i { r with pc := .exited }).broadcast
  | .exited => none

def callerStep (s : Sequence α) (i : Nat) : CallPc α → Option (Sequence α)
  | .startReset =>
    some (setCaller { s with w := if s.state = .pause then s.w else s.w.reset } i .startRun)
  | .startRun => some (setCaller { s with runners := s.runners ++ [{}] } i .startSet)
  | .startSet => some (setCaller { s with state := .run } i (.touch false))
  | .pauseSet => some (setCaller { s with state := .pause } i (.touch false))
  | .abortSet => some (setCaller { s with state := .error } i .abortCurrent)
  | .abortCurrent =>
    match s.current with
    | none => some (s.setCaller i (.touch true))
    | some a => some (s.setCaller i (.abortAction a))
  -- `Action.Abort` releases whoever waits for the action, `Action.Run` goes on
  | .abortAction a =>
    (s.latest a).map fun k => (s.finishLaunch k (some "Abort")).setCaller i (.abortActionWait a)
  | .abortActionWait a => (s.latest a).map fun k => s.setCaller i (.abortActionDone k)
  | .abortActionDone k => if s.launchDone k then some (s.setCaller i (.touch true)) else none
  | .touch aborting => some (s.setCaller i (if aborting then .abortWait else .returned none)).broadcast
  | .abortWait => some (s.setCaller i (if s.w.done then .returned s.w.err else .abortBlocked))
  | .abortBlocked | .returned _ => none

def step (s : Sequence α) : SeqStep → Option (Sequence α)
  | .call op => some { s with callers := s.callers ++ [op.entry] }
  | .caller i => s.callers[i]?.bind (s.callerStep i)
  | .runner i => s.runners[i]?.bind (s.runnerStep i)
  | .finish k err =>
    match s.launches[k]? with
    | some l =>
      if l.running then
        some { s with launches := s.launches.set k { l with running := false, w := l.w.finish err } }
      else none
    | none => none

end Sequence

end Vender
