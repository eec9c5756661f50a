import Vender.Lib.Monitor
import Vender.Sequence

namespace Vender

namespace MultiWait

/-- A `MultiWait` with its lock held, and the errors it was done with so far: the first one
since it was made, and the first one since each `Reset` after that. -/
structure Shared where
  w : MultiWait := {}
  rounds : List (Option String) := []

/-- `Done` under the lock. -/
def Shared.finish (s : Shared) (err : Option String) : Shared where
  w := s.w.finish err
  rounds := if s.w.done then s.rounds else s.rounds ++ [err]

/-- Where a goroutine stands in a method of `MultiWait`; what it does next is its name.
`Action.Abort` is `Done(Abort)` and then `WaitDone`. -/
inductive Pc
  | waitTouchLock
  | waitTouchWait
  | waitTouchUnlock
  | touch
  | waitDoneLock
  | waitDoneCheck
  | waitDoneWait
  | waitDoneUnlock (err : Option String) (round : Nat)
  | doneLock (err : Option String) (abort : Bool)
  | doneSet (err : Option String) (abort : Bool)
  | doneUnlock (abort : Bool)
  | doneBroadcast (abort : Bool)
  | resetLock
  | resetSet
  | resetUnlock
  | isDoneLock
  | isDoneRead
  | isDoneUnlock (out : Bool)
  | exited
  | returned (err : Option String) (round : Nat)
  | told (out : Bool)
deriving DecidableEq

open Monitor (Op)

def prog : Pc → Op Shared Pc
  | .waitTouchLock => .lock .waitTouchWait
  | .waitTouchWait => .wait .waitTouchUnlock
  | .waitTouchUnlock => .unlock .exited
  | .touch => .broadcast .exited
  | .waitDoneLock => .lock .waitDoneCheck
  | .waitDoneCheck =>
    .act fun s => (s, if s.w.done then .waitDoneUnlock s.w.err (s.rounds.length - 1) else .waitDoneWait)
  | .waitDoneWait => .wait .waitDoneCheck
  | .waitDoneUnlock err round => .unlock (.returned err round)
  | .doneLock err abort => .lock (.doneSet err abort)
  | .doneSet err abort => .act fun s => (s.finish err, .doneUnlock abort)
  | .doneUnlock abort => .unlock (.doneBroadcast abort)
  | .doneBroadcast abort => .broadcast (if abort then .waitDoneLock else .exited)
  | .resetLock => .lock .resetSet
  | .resetSet => .act fun s => ({ s with w := s.w.reset }, .resetUnlock)
  | .resetUnlock => .unlock .exited
  | .isDoneLock => .lock .isDoneRead
  | .isDoneRead => .act fun s => (s, .isDoneUnlock s.w.done)
  | .isDoneUnlock out => .unlock (.told out)
  | .exited | .returned .. | .told _ => .halt

/-- The calls of the methods. -/
inductive Call
  | waitTouch
  | touch
  | waitDone
  | done (err : Option String)
  | abort
  | reset
  | isDone
deriving DecidableEq

def Call.entry : Call → Pc
  | .waitTouch => .waitTouchLock
  | .touch => .touch
  | .waitDone => .waitDoneLock
  | .done err => .doneLock err false
  | .abort => .doneLock (some "Abort") true
  | .reset => .resetLock
  | .isDone => .isDoneLock

/-- A goroutine calls a method, or the `i`-th goes on. -/
inductive Step
  | call (c : Call)
  | go (i : Nat)
deriving DecidableEq

def Step.move : Step → Monitor.Move Pc
  | .call c => .spawn c.entry
  | .go i => .run i

def step (s : Monitor Shared Pc) (m : Step) : Option (Monitor Shared Pc) := Monitor.step prog s m.move

/-- `NewMultiWait`. -/
def new : Monitor Shared Pc := { shared := {} }

/-- The lock is held. -/
def Pc.Inside : Pc → Prop
  | .waitTouchWait | .waitTouchUnlock | .waitDoneCheck | .waitDoneWait | .waitDoneUnlock .. | .doneSet ..
  | .doneUnlock _ | .resetSet | .resetUnlock | .isDoneRead | .isDoneUnlock _ => True
  | _ => False

/-- `Done` has set `done`, and not called `Broadcast` yet. -/
def Pc.Owes : Pc → Prop
  | .doneUnlock _ | .doneBroadcast _ => True
  | _ => False

theorem disciplined : Monitor.Disciplined prog Pc.Inside where
  lock := by
    intro pc next op
    cases pc <;> cases op <;> exact ⟨id, trivial⟩
  unlock := by
    intro pc next op
    cases pc <;> cases op <;> exact ⟨trivial, id⟩
  wait := by
    intro pc next op
    cases pc <;> cases op <;> exact ⟨trivial, trivial⟩
  broadcast := by
    intro pc next op
    cases pc with
    | touch =>
      cases op
      exact ⟨id, id⟩
    | doneBroadcast abort => cases abort <;> cases op <;> exact ⟨id, id⟩
    | _ => cases op
  act := by
    intro pc f op
    cases pc with
    | waitDoneCheck =>
      cases op
      refine ⟨trivial, fun s => ?_⟩
      show Pc.Inside (if s.w.done then _ else _)
      split <;> trivial
    | _ => cases op <;> exact ⟨trivial, fun _ => trivial⟩
  halt := by
    intro pc op
    cases pc <;> cases op <;> exact id

/-- `WaitDone` sleeps only where it has seen, without giving up the lock since, that `done` is
not set, and whoever sets it has a `Broadcast` to do from then on. -/
theorem announces : Monitor.Announces prog Pc.Inside (fun s => s.w.done = true) (· = .waitDoneCheck)
    (· = .waitDoneWait) Pc.Owes where
  sees_inside := by
    rintro _ rfl
    trivial
  lock := by
    intro pc next op
    cases pc <;> cases op <;> exact ⟨Pc.noConfusion, id⟩
  unlock := by
    intro pc next op
    cases pc <;> cases op <;> exact ⟨Pc.noConfusion, id⟩
  wait := by
    intro pc next op
    cases pc with
    | waitTouchWait =>
      cases op
      exact ⟨Pc.noConfusion, Pc.noConfusion, id⟩
    | waitDoneWait =>
      cases op
      exact ⟨fun _ => rfl, Pc.noConfusion, id⟩
    | _ => cases op
  broadcast := by
    intro pc next op
    cases pc with
    | touch =>
      cases op
      exact Pc.noConfusion
    | doneBroadcast abort => cases abort <;> cases op <;> exact Pc.noConfusion
    | _ => cases op
  act := by
    intro pc f op s
    cases pc with
    | waitDoneCheck =>
      cases op
      refine ⟨fun sees => ?_, Or.inl, False.elim⟩
      by_cases done : s.w.done = true
      · simp [done] at sees
      · exact done
    | doneSet err abort =>
      cases op
      exact ⟨Pc.noConfusion, fun _ => Or.inr trivial, fun _ => trivial⟩
    | resetSet =>
      cases op
      exact ⟨Pc.noConfusion, Bool.noConfusion, False.elim⟩
    | isDoneRead =>
      cases op
      exact ⟨Pc.noConfusion, Or.inl, False.elim⟩
    | _ => cases op
  halt := by
    intro pc op
    cases pc <;> cases op <;> exact id

theorem Call.outside (c : Call) : ¬ c.entry.Inside := by
  cases c <;> exact id

theorem run_moves {ms : List Step} (s : Monitor Shared Pc) :
    Runs.run step s ms = Runs.run (Monitor.step prog) s (ms.map Step.move) := by
  induction ms generalizing s with
  | nil => rfl
  | cons m ms ih =>
    simp only [Runs.run, List.map_cons, step]
    congr 1
    funext t
    exact ih t

theorem spawned_outside {ms : List Step} {pc : Pc} (mem : .spawn pc ∈ ms.map Step.move) : ¬ pc.Inside := by
  obtain ⟨m, _, same⟩ := List.mem_map.mp mem
  cases m with
  | call c =>
    cases same
    exact c.outside
  | go => cases same

variable {ms : List Step} {s : Monitor Shared Pc}

theorem locked_of_run (reached : Runs.run step new ms = some s) : Monitor.Locked prog Pc.Inside s := by
  rw [run_moves] at reached
  exact Monitor.locked_of_run disciplined (fun _ mem => spawned_outside mem) reached

theorem awakens_of_run (reached : Runs.run step new ms = some s) :
    Monitor.Awakens (fun s => s.w.done = true) (· = .waitDoneCheck) (· = .waitDoneWait) Pc.Owes s := by
  rw [run_moves] at reached
  exact Monitor.awakens_of_run disciplined announces (fun _ mem => spawned_outside mem) reached

/-- With any number of goroutines in any of the methods, in any order, whoever sleeps in `WaitDone`
when `done` is set has a `Broadcast` coming. -/
theorem broadcast_comes (reached : Runs.run step new ms = some s) (done : s.shared.w.done = true)
    (sleeps : .asleep .waitDoneCheck ∈ s.threads) : ∃ pc, .at_ pc ∈ s.threads ∧ pc.Owes :=
  (awakens_of_run reached).owed done _ sleeps rfl

/-- A goroutine does the `Broadcast` of its `Touch`, or of its `Done`. -/
def Signals (s : Monitor Shared Pc) (m : Step) : Prop :=
  ∃ i, m = .go i ∧ (s.threads[i]? = some (.at_ .touch) ∨ ∃ abort, s.threads[i]? = some (.at_ (.doneBroadcast abort)))

theorem broadcasts_of_signals {t : Monitor Shared Pc} {m : Step} (h : Signals t m) :
    Monitor.Broadcasts prog t m.move := by
  obtain ⟨i, rfl, touch | ⟨abort, done⟩⟩ := h
  · exact ⟨i, _, _, rfl, touch, rfl⟩
  · exact ⟨i, _, _, rfl, done, rfl⟩

/-- The `i`-th goroutine has gone to sleep in its `WaitTouch`, and since then no `Touch` and no
`Done` has come to its `Broadcast`. -/
def Unheard (ms : List Step) (i : Nat) : Prop :=
  ∃ before after t u, ms = before ++ .go i :: after ∧ Runs.run step new before = some t ∧
    t.threads[i]? = some (.at_ .waitTouchWait) ∧ step t (.go i) = some u ∧
    Runs.Along step (fun v m _ => ¬ Signals v m) u after

theorem along_moves {C : Monitor Shared Pc → Monitor.Move Pc → Monitor Shared Pc → Prop} {ms : List Step}
    {s : Monitor Shared Pc} (h : Runs.Along (Monitor.step prog) C s (ms.map Step.move)) :
    Runs.Along step (fun s m t => C s m.move t) s ms := by
  induction ms generalizing s with
  | nil => trivial
  | cons m ms ih =>
    intro t moved
    obtain ⟨here, later⟩ := h t moved
    exact ⟨here, ih later⟩

theorem unheard_of_asleep {i : Nat} (reached : Runs.run step new ms = some s)
    (sleeps : s.threads[i]? = some (.asleep .waitTouchUnlock)) : Unheard ms i := by
  rw [run_moves] at reached
  rcases Monitor.slept_since reached sleeps with ⟨slept, _⟩ | ⟨before, after, t, u, cut, run, falls, moved, quiet⟩
  · simp [new] at slept
  · obtain ⟨first, rest, rfl, rfl, later⟩ := List.map_eq_append_iff.mp cut
    obtain ⟨m, last, rfl, move, rfl⟩ := List.map_eq_cons_iff.mp later
    have own : m = .go i := by
      cases m with
      | call => cases move
      | go => cases move; rfl
    subst own
    rw [← run_moves] at run
    obtain ⟨_, pc, at_, op⟩ := falls
    refine ⟨first, last, t, u, rfl, run, ?_, moved, ?_⟩
    · cases pc <;> cases op
      exact at_
    · exact Runs.along_mono (fun _ _ _ silent signals => silent (broadcasts_of_signals signals)) (along_moves quiet)

/-- When nobody can move, and `done` is set, every call has returned but those of `WaitTouch`
that no `Touch` or `Done` came after. -/
theorem returned_of_stuck (reached : Runs.run step new ms = some s) (stuck : ∀ i, step s (.go i) = none)
    (done : s.shared.w.done = true) {i : Nat} {u : Monitor.Thread Pc} (at_ : s.threads[i]? = some u) :
    u = .asleep .waitTouchUnlock ∧ Unheard ms i ∨ u = .at_ .exited ∨ (∃ err round, u = .at_ (.returned err round)) ∨
      ∃ out, u = .at_ (.told out) := by
  have locked := locked_of_run reached
  have mem := List.mem_of_getElem? at_
  rcases Monitor.asleep_or_halt_of_stuck locked disciplined stuck mem with ⟨pc, next, rfl, op⟩ | ⟨pc, rfl, op⟩
  · have unguarded := (awakens_of_run reached).unguarded_of_stuck locked disciplined announces stuck done mem
    cases pc <;> cases op
    · exact Or.inl ⟨rfl, unheard_of_asleep reached at_⟩
    · exact absurd rfl unguarded
  · cases pc <;> cases op
    · exact Or.inr (Or.inl rfl)
    · exact Or.inr (Or.inr (Or.inl ⟨_, _, rfl⟩))
    · exact Or.inr (Or.inr (Or.inr ⟨_, rfl⟩))

theorem stuck_of_bound {n : Nat} (length : s.threads.length ≤ n) (stuck : ∀ i < n, step s (.go i) = none) (i : Nat) :
    step s (.go i) = none := by
  rcases Nat.lt_or_ge i n with below | above
  · exact stuck i below
  · have none : s.threads[i]? = none := List.getElem?_eq_none (Nat.le_trans length above)
    simp [step, Step.move, Monitor.step, none]

/-- Two goroutines wait, the one to be touched and the other for the end; a third one is done,
and a fourth waits to be touched only then. -/
def waitThenDone : List Step :=
  [.call .waitTouch, .go 0, .go 0, .call .waitDone, .go 1, .go 1, .go 1, .call (.done none), .go 2, .go 2, .go 2,
    .go 2, .go 1, .go 1, .go 1, .go 0, .go 0, .call .waitTouch, .go 3, .go 3]

theorem returned_of_stuck_waitThenDone :
    ∃ s, Runs.run step new waitThenDone = some s ∧ s.threads[3]? = some (.asleep .waitTouchUnlock) ∧
      ∀ i u, s.threads[i]? = some u → u = .asleep .waitTouchUnlock ∧ Unheard waitThenDone i ∨ u = .at_ .exited ∨
        (∃ err round, u = .at_ (.returned err round)) ∨ ∃ out, u = .at_ (.told out) := by
  let final : Monitor Shared Pc := ⟨⟨⟨true, none⟩, [none]⟩, none,
    [.at_ .exited, .at_ (.returned none 0), .at_ .exited, .asleep .waitTouchUnlock]⟩
  have run : Runs.run step new waitThenDone = some final := rfl
  have stuck : ∀ i < 4, step final (.go i) = none := by
    intro i below
    obtain rfl | rfl | rfl | rfl : i = 0 ∨ i = 1 ∨ i = 2 ∨ i = 3 := by omega
    · rfl
    · rfl
    · rfl
    · rfl
  exact ⟨final, run, rfl, fun i u at_ => returned_of_stuck run (stuck_of_bound (Nat.le_refl 4) stuck) rfl at_⟩

/-- The last error on record is the one that `done` was set with. -/
def Last (s : Shared) : Prop := s.w.done = true → s.rounds.getLast? = some s.w.err

/-- What `WaitDone` is to return stands on record. -/
def Recorded (s : Shared) : Pc → Prop
  | .waitDoneUnlock err round | .returned err round => s.rounds[round]? = some err
  | _ => True

theorem Shared.finish_cases (s : Shared) (err : Option String) :
    s.w.done = true ∧ s.finish err = s ∨
      s.w.done = false ∧ s.finish err = ⟨⟨true, err⟩, s.rounds ++ [err]⟩ := by
  cases done : s.w.done with
  | true => exact Or.inl ⟨rfl, by simp [finish, MultiWait.finish, done]⟩
  | false => exact Or.inr ⟨rfl, by simp [finish, MultiWait.finish, done]⟩

theorem last_finish {s : Shared} (h : Last s) (err : Option String) : Last (s.finish err) := by
  rcases s.finish_cases err with ⟨_, same⟩ | ⟨_, same⟩
  · rwa [same]
  · rw [same]
    intro _
    simp

theorem recorded_finish {s : Shared} {pc : Pc} (h : Recorded s pc) (err : Option String) :
    Recorded (s.finish err) pc := by
  rcases s.finish_cases err with ⟨_, same⟩ | ⟨_, same⟩
  · rwa [same]
  · rw [same]
    cases pc with
    | waitDoneUnlock err' round | returned err' round =>
      have bound := (List.getElem?_eq_some_iff.mp h).1
      exact (List.getElem?_append_left bound).trans h
    | _ => trivial

theorem recorded_annotated : Monitor.Annotated prog Last Recorded where
  lock := by
    intro s pc next op _
    cases pc <;> cases op <;> trivial
  unlock := by
    intro s pc next op here
    cases pc <;> cases op <;> exact here
  wait := by
    intro s pc next op _
    cases pc <;> cases op <;> trivial
  broadcast := by
    intro s pc next op _
    cases pc with
    | touch =>
      cases op
      trivial
    | doneBroadcast abort => cases abort <;> cases op <;> trivial
    | _ => cases op
  act := by
    intro s pc f op last _
    cases pc with
    | waitDoneCheck =>
      cases op
      refine ⟨last, ?_⟩
      show Recorded s (if s.w.done then _ else _)
      split
      next done =>
        rw [Recorded, ← List.getLast?_eq_getElem?]
        exact last done
      next => trivial
    | doneSet err abort =>
      cases op
      exact ⟨last_finish last err, trivial⟩
    | resetSet =>
      cases op
      exact ⟨Bool.noConfusion, trivial⟩
    | isDoneRead =>
      cases op
      exact ⟨last, trivial⟩
    | _ => cases op
  stable := by
    intro s pc f op _ pc' there
    cases pc with
    | doneSet err abort =>
      cases op
      exact recorded_finish there err
    | waitDoneCheck | isDoneRead =>
      cases op
      exact there
    | resetSet =>
      cases op
      cases pc' <;> exact there
    | _ => cases op

/-- Nobody has called `Reset`. -/
def Once (s : Shared) : Prop := s.rounds = if s.w.done then [s.w.err] else []

def NoReset : Pc → Prop
  | .resetLock | .resetSet => False
  | _ => True

/-- Every error on record was given to `Done`, or is that of `Abort`. -/
def Given (calls : List Call) (s : Shared) : Prop :=
  ∀ err ∈ s.rounds, .done err ∈ calls ∨ .abort ∈ calls ∧ err = some "Abort"

def Gives (calls : List Call) : Pc → Prop
  | .doneLock err _ | .doneSet err _ => .done err ∈ calls ∨ .abort ∈ calls ∧ err = some "Abort"
  | _ => True

theorem given_finish {calls : List Call} {s : Shared} (h : Given calls s) {err : Option String}
    (gives : .done err ∈ calls ∨ .abort ∈ calls ∧ err = some "Abort") : Given calls (s.finish err) := by
  rcases s.finish_cases err with ⟨_, same⟩ | ⟨_, same⟩
  · rwa [same]
  · rw [same]
    intro err' mem
    rcases List.mem_append.mp mem with before | now
    · exact h err' before
    · rwa [List.mem_singleton.mp now]

theorem once_finish {s : Shared} (h : Once s) (err : Option String) : Once (s.finish err) := by
  rcases s.finish_cases err with ⟨_, same⟩ | ⟨open_, same⟩
  · rwa [same]
  · rw [same]
    rw [Once, open_] at h
    simp [Once, h]

theorem given_annotated (calls : List Call) : Monitor.Annotated prog (Given calls) fun _ => Gives calls where
  lock := by
    intro s pc next op here
    cases pc <;> cases op <;> exact here
  unlock := by
    intro s pc next op _
    cases pc <;> cases op <;> trivial
  wait := by
    intro s pc next op _
    cases pc <;> cases op <;> trivial
  broadcast := by
    intro s pc next op _
    cases pc with
    | touch =>
      cases op
      trivial
    | doneBroadcast abort => cases abort <;> cases op <;> trivial
    | _ => cases op
  act := by
    intro s pc f op given here
    cases pc with
    | waitDoneCheck =>
      cases op
      refine ⟨given, ?_⟩
      show Gives calls (if s.w.done then _ else _)
      split <;> trivial
    | doneSet err abort =>
      cases op
      exact ⟨given_finish given here, trivial⟩
    | resetSet | isDoneRead =>
      cases op
      exact ⟨given, trivial⟩
    | _ => cases op
  stable := fun _ _ _ there => there

theorem once_annotated : Monitor.Annotated prog Once fun _ => NoReset where
  lock := by
    intro s pc next op here
    cases pc <;> cases op <;> exact here
  unlock := by
    intro s pc next op _
    cases pc <;> cases op <;> trivial
  wait := by
    intro s pc next op _
    cases pc <;> cases op <;> trivial
  broadcast := by
    intro s pc next op _
    cases pc with
    | touch =>
      cases op
      trivial
    | doneBroadcast abort => cases abort <;> cases op <;> trivial
    | _ => cases op
  act := by
    intro s pc f op once here
    cases pc with
    | waitDoneCheck =>
      cases op
      refine ⟨once, ?_⟩
      show NoReset (if s.w.done then _ else _)
      split <;> trivial
    | doneSet err abort =>
      cases op
      exact ⟨once_finish once err, trivial⟩
    | isDoneRead =>
      cases op
      exact ⟨once, trivial⟩
    | resetSet => cases here
    | _ => cases op
  stable := fun _ _ _ there => there

theorem spawned_call {pc : Pc} (mem : .spawn pc ∈ ms.map Step.move) : ∃ c, .call c ∈ ms ∧ pc = c.entry := by
  obtain ⟨m, called, same⟩ := List.mem_map.mp mem
  cases m with
  | call c =>
    cases same
    exact ⟨c, called, rfl⟩
  | go => cases same

/-- Which calls were made. -/
def Step.asks : Step → Option Call
  | .call c => some c
  | .go _ => none

theorem mem_asks {c : Call} (mem : .call c ∈ ms) : c ∈ ms.filterMap Step.asks :=
  List.mem_filterMap.mpr ⟨.call c, mem, rfl⟩

/-- Every `WaitDone` returns an error that `Done` was given, all that return between two `Reset`s
the same one, and without a `Reset` all of them. -/
theorem results_agree (reached : Runs.run step new ms = some s) {err err' : Option String} {round round' : Nat}
    (returns : .at_ (.returned err round) ∈ s.threads) (returns' : .at_ (.returned err' round') ∈ s.threads) :
    (round = round' → err = err') ∧
      (.done err ∈ ms.filterMap Step.asks ∨ .abort ∈ ms.filterMap Step.asks ∧ err = some "Abort") ∧
      (.call .reset ∉ ms → err = err') := by
  rw [run_moves] at reached
  have recorded : Monitor.Holds Last Recorded s := by
    refine Monitor.holds_of_run recorded_annotated Bool.noConfusion ?_ reached
    intro pc mem s _
    obtain ⟨c, _, rfl⟩ := spawned_call mem
    cases c <;> trivial
  have given : Monitor.Holds (Given (ms.filterMap Step.asks)) (fun _ => Gives (ms.filterMap Step.asks)) s := by
    refine Monitor.holds_of_run (given_annotated _) (by simp [Given]) ?_ reached
    intro pc mem s _
    obtain ⟨c, called, rfl⟩ := spawned_call mem
    cases c with
    | done err => exact Or.inl (mem_asks called)
    | abort => exact Or.inr ⟨mem_asks called, rfl⟩
    | _ => trivial
  have here : s.shared.rounds[round]? = some err := recorded.threads _ returns
  have here' : s.shared.rounds[round']? = some err' := recorded.threads _ returns'
  refine ⟨?_, given.data err (List.mem_of_getElem? here), ?_⟩
  · rintro rfl
    exact Option.some.inj (here.symm.trans here')
  · intro none
    have once : Monitor.Holds Once (fun _ => NoReset) s := by
      refine Monitor.holds_of_run once_annotated (show Once {} from rfl) ?_ reached
      intro pc mem s _
      obtain ⟨c, called, rfl⟩ := spawned_call mem
      cases c with
      | reset => exact absurd called none
      | _ => trivial
    have rounds : s.shared.rounds = _ := once.data
    have only : ∀ {e : Option String} {r : Nat}, s.shared.rounds[r]? = some e → e = s.shared.w.err := by
      intro e r found
      have mem := List.mem_of_getElem? found
      rw [rounds] at mem
      split at mem
      · exact List.mem_singleton.mp mem
      · cases mem
    rw [only here, only here']

/-- An `Abort` comes while another goroutine waits, before the action returns. -/
def waitAbortReturn : List Step :=
  [.call .waitDone, .go 0, .go 0, .go 0, .call .abort, .call (.done none), .go 1, .go 1, .go 1, .go 2, .go 2, .go 2,
    .go 1, .go 0, .go 0, .go 0, .go 1, .go 1, .go 1, .go 2]

theorem results_agree_waitAbortReturn :
    ∃ s err err', Runs.run step new waitAbortReturn = some s ∧ .at_ (.returned err 0) ∈ s.threads ∧
      .at_ (.returned err' 0) ∈ s.threads ∧ err = err' ∧
        (.done err ∈ waitAbortReturn.filterMap Step.asks ∨
          .abort ∈ waitAbortReturn.filterMap Step.asks ∧ err = some "Abort") := by
  let last : Monitor Shared Pc := ⟨⟨⟨true, some "Abort"⟩, [some "Abort"]⟩, none,
    [.at_ (.returned (some "Abort") 0), .at_ (.returned (some "Abort") 0), .at_ .exited]⟩
  have run : Runs.run step new waitAbortReturn = some last := rfl
  have waits : .at_ (.returned (some "Abort") 0) ∈ last.threads := List.mem_cons_self
  have aborts : .at_ (.returned (some "Abort") 0) ∈ last.threads := List.mem_cons_of_mem _ List.mem_cons_self
  obtain ⟨same, given, _⟩ := results_agree run waits aborts
  exact ⟨last, _, _, run, waits, aborts, same rfl, given⟩

end MultiWait

end Vender
