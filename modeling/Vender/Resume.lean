import Vender.Sequence

namespace Vender

/-- The runner has reported `Done`. -/
def RunPc.finished {α : Type*} : RunPc α → Bool
  | .broadcast | .exited => true
  | _ => false

def CallPc.aborts {α : Type*} : CallPc α → Bool
  | .abortSet | .abortCurrent | .abortAction _ | .abortActionWait _ | .abortActionDone _ => true
  | _ => false

theorem RunPc.finished_wake {α : Type*} (pc : RunPc α) : pc.wake.finished = pc.finished := by
  cases pc <;> rfl

theorem CallPc.aborts_wake {α : Type*} (pc : CallPc α) : pc.wake.aborts = pc.aborts := by
  cases pc <;> rfl

namespace Sequence

variable {α : Type*}

/-- Since the last `Done` the actions were started in the order in which they
were appended, each once, and at most one of them is running. -/
def InOrder (s : Sequence α) : Prop :=
  s.round <+: s.actions ∧ s.launches.countP Launch.running ≤ 1

/-- The step is `go s.run()`. -/
def spawns (s : Sequence α) : SeqStep → Bool
  | .caller i => match s.callers[i]? with
    | some .startRun => true
    | _ => false
  | _ => false

/-- `Start` and `Pause` only, and no `Start` before every earlier runner has
reported `Done`. -/
def NoResume (s : Sequence α) (e : SeqStep) (_ : Sequence α) : Prop :=
  e ≠ .call .abort ∧ (s.spawns e = true → ∀ r ∈ s.runners, r.pc.finished = true)

/-- No launch but `k` is still running. -/
def OnlyRuns (s : Sequence α) (k : Option Nat) : Prop :=
  ∀ j l, s.launches[j]? = some l → l.running = true → some j = k

/-- What the one runner that has not reported yet has started, and what is left
of the actions for it. -/
def Phase (s : Sequence α) (r : Runner α) : Prop :=
  match r.pc with
  | .copy => s.round = [] ∧ s.OnlyRuns none
  | .range | .clearCurrent => s.round ++ r.queue = s.actions ∧ s.OnlyRuns none
  | .check a | .waitTouch a | .blocked a | .start a =>
    s.round ++ a :: r.queue = s.actions ∧ s.OnlyRuns none
  | .setCurrent a | .wait a => s.round ++ r.queue = s.actions ∧ s.OnlyRuns (s.latest a)
  | .waitDone k => s.round ++ r.queue = s.actions ∧ s.OnlyRuns (some k)
  | .setEnd | .done => s.round <+: s.actions ∧ s.OnlyRuns none
  | .broadcast | .exited => False

/-- All runners but the last have reported `Done`, and the last is in `Phase`
unless it has reported too. -/
structure Serial (s : Sequence α) : Prop where
  last : ∀ {i r}, s.runners[i]? = some r → r.pc.finished = false → i + 1 = s.runners.length ∧ s.Phase r
  idle : (∀ r ∈ s.runners, r.pc.finished = true) → s.round = [] ∧ s.OnlyRuns none
  callers : ∀ pc ∈ s.callers, pc.aborts = false
  done : ∀ l ∈ s.launches, l.w.done = true → l.running = false

theorem countP_le_one {ls : List (Launch α)} {k : Option Nat}
    (only : ∀ j l, ls[j]? = some l → l.running = true → some j = k) : ls.countP Launch.running ≤ 1 := by
  induction ls generalizing k with
  | nil => simp
  | cons l ls ih =>
    by_cases running : l.running = true
    · have first := only 0 l rfl running
      have none_left : ls.countP Launch.running = 0 := by
        rw [List.countP_eq_zero]
        intro l' mem running'
        obtain ⟨j, hj⟩ := List.mem_iff_getElem?.mp mem
        have second := only (j + 1) l' hj running'
        rw [← first] at second
        simp at second
      rw [List.countP_cons_of_pos running]
      omega
    · rw [List.countP_cons_of_neg running]
      apply ih (k := k.map (· - 1))
      intro j l' hj running'
      rw [← only (j + 1) l' hj running']
      rfl

theorem Phase.started {s : Sequence α} {r : Runner α} (h : s.Phase r) :
    s.round <+: s.actions ∧ ∃ k, s.OnlyRuns k := by
  unfold Phase at h
  split at h
  case h_1 => exact ⟨h.1 ▸ List.nil_prefix, none, h.2⟩
  case h_11 | h_12 => exact ⟨h.1, none, h.2⟩
  case h_13 | h_14 => exact h.elim
  all_goals exact ⟨⟨_, h.1⟩, _, h.2⟩

theorem Serial.inOrder {s : Sequence α} (h : s.Serial) : s.InOrder := by
  by_cases all : ∀ r ∈ s.runners, r.pc.finished = true
  · obtain ⟨fresh, none⟩ := h.idle all
    exact ⟨fresh ▸ List.nil_prefix, countP_le_one none⟩
  · push Not at all
    obtain ⟨r, mem, live⟩ := all
    obtain ⟨i, hi⟩ := List.mem_iff_getElem?.mp mem
    obtain ⟨started, k, only⟩ := (h.last hi (by simpa using live)).2.started
    exact ⟨started, countP_le_one only⟩

theorem serial_new (actions : List α) : (new actions).Serial where
  last := by simp [new]
  idle := fun _ => ⟨rfl, by simp [OnlyRuns, new]⟩
  callers := by simp [new]
  done := by simp [new]

theorem phase_wake {s : Sequence α} {r : Runner α} (h : s.Phase r) : s.Phase { r with pc := r.pc.wake } := by
  obtain ⟨pc, queue⟩ := r
  cases pc <;> exact h

theorem Serial.broadcast {s : Sequence α} (h : s.Serial) : s.broadcast.Serial where
  last := by
    intro i r' hi live
    have hmap : (s.runners[i]?).map (fun r => { r with pc := r.pc.wake }) = some r' := by
      rw [← List.getElem?_map]
      exact hi
    obtain ⟨r, hr, rfl⟩ := Option.map_eq_some_iff.mp hmap
    rw [RunPc.finished_wake] at live
    obtain ⟨last, phase⟩ := h.last hr live
    exact ⟨by simpa [Sequence.broadcast] using last, phase_wake phase⟩
  idle := by
    intro all
    apply h.idle
    intro r mem
    rw [← RunPc.finished_wake]
    exact all _ (List.mem_map_of_mem mem)
  callers := by
    intro pc' mem
    obtain ⟨pc, before, rfl⟩ := List.mem_map.mp mem
    rw [CallPc.aborts_wake, h.callers pc before]
  done := h.done

theorem Serial.setCaller {s : Sequence α} (i : Nat) {pc : CallPc α} (h : s.Serial) (quiet : pc.aborts = false) :
    (s.setCaller i pc).Serial := by
  refine { h with callers := fun pc' mem => ?_ }
  rcases List.mem_or_eq_of_mem_set mem with before | rfl
  · exact h.callers pc' before
  · exact quiet

theorem Serial.spawn {s : Sequence α} (h : s.Serial) (all : ∀ r ∈ s.runners, r.pc.finished = true) :
    Serial { s with runners := s.runners ++ [{}] } where
  last := by
    intro i r hi live
    rcases Nat.lt_or_ge i s.runners.length with old | new
    · have mem : s.runners[i]? = some r := by rw [← hi, List.getElem?_append_left old]
      simp [all r (List.mem_of_getElem? mem)] at live
    · rw [List.getElem?_append_right new, List.getElem?_singleton] at hi
      split at hi
      next first =>
        cases Option.some.inj hi
        refine ⟨?_, h.idle all⟩
        simp only [List.length_append, List.length_singleton]
        omega
      next => cases hi
  idle := by
    intro finished
    have new := finished {} (by simp)
    cases new
  callers := h.callers
  done := h.done

theorem getElem?_setRunner {s : Sequence α} {i : Nat} {r : Runner α} (hi : s.runners[i]? = some r)
    (r' : Runner α) : (s.setRunner i r').runners[i]? = some r' := by
  simp [Sequence.setRunner, List.getElem?_set_self (List.getElem?_eq_some_iff.mp hi).1]

theorem getElem?_setRunner_ne {s : Sequence α} {i j : Nat} (other : i ≠ j) (r' : Runner α) :
    (s.setRunner i r').runners[j]? = s.runners[j]? := by
  simp [Sequence.setRunner, List.getElem?_set_ne other]

theorem length_setRunner (s : Sequence α) (i : Nat) (r' : Runner α) :
    (s.setRunner i r').runners.length = s.runners.length := by
  simp [Sequence.setRunner]

/-- The live runner takes a step of its own: it stays in `Phase`, or it reports. -/
theorem Serial.setRunner {s u : Sequence α} {i : Nat} {r r' : Runner α} (h : s.Serial)
    (hi : s.runners[i]? = some r) (live : r.pc.finished = false) (runners : u.runners = s.runners)
    (callers : u.callers = s.callers) (done : ∀ l ∈ u.launches, l.w.done = true → l.running = false)
    (phase : r'.pc.finished = false → u.Phase r')
    (reported : r'.pc.finished = true → u.round = [] ∧ u.OnlyRuns none) :
    (u.setRunner i r').Serial := by
  obtain ⟨last, _⟩ := h.last hi live
  rw [← runners] at hi last
  refine ⟨?_, ?_, ?_, done⟩
  · intro j r₁ hj live₁
    rw [length_setRunner]
    by_cases same : i = j
    · subst same
      cases Option.some.inj ((getElem?_setRunner hi r').symm.trans hj)
      exact ⟨last, phase live₁⟩
    · rw [getElem?_setRunner_ne same, runners] at hj
      have := (h.last hj live₁).1
      rw [runners] at last
      omega
  · intro all
    exact reported (all r' (List.mem_of_getElem? (getElem?_setRunner hi r')))
  · intro pc mem
    exact h.callers pc (callers ▸ mem)

/-- A runner that has reported is as good as gone. -/
theorem Serial.setReported {s : Sequence α} {i : Nat} {r r' : Runner α} (h : s.Serial)
    (hi : s.runners[i]? = some r) (finished : r.pc.finished = true) (still : r'.pc.finished = true) :
    (s.setRunner i r').Serial := by
  refine ⟨?_, ?_, h.callers, h.done⟩
  · intro j r₁ hj live
    rw [length_setRunner]
    by_cases same : i = j
    · subst same
      cases Option.some.inj ((getElem?_setRunner hi r').symm.trans hj)
      simp [still] at live
    · rw [getElem?_setRunner_ne same] at hj
      exact h.last hj live
  · intro all
    apply h.idle
    intro r₁ mem
    obtain ⟨j, hj⟩ := List.mem_iff_getElem?.mp mem
    by_cases same : i = j
    · subst same
      cases Option.some.inj (hi.symm.trans hj)
      exact finished
    · apply all r₁
      exact List.mem_of_getElem? ((getElem?_setRunner_ne same r').trans hj)

theorem OnlyRuns.idle_of_done {s : Sequence α} {k : Nat} (only : s.OnlyRuns (some k))
    (done : ∀ l ∈ s.launches, l.w.done = true → l.running = false) (hk : s.launchDone k = true) :
    s.OnlyRuns none := by
  intro j l hj running
  cases only j l hj running
  have finished : l.w.done = true := by simpa [launchDone, hj] using hk
  simp [done l (List.mem_of_getElem? hj) finished] at running

variable [DecidableEq α]

theorem onlyRuns_startAction {s : Sequence α} (a : α) (none : s.OnlyRuns none) :
    (s.startAction a).OnlyRuns ((s.startAction a).latest a) := by
  intro j l hj running
  rcases Nat.lt_or_ge j s.launches.length with old | new
  · have before : s.launches[j]? = some l := by
      rw [← hj]
      exact (List.getElem?_append_left old).symm
    cases none j l before running
  · have index : j = s.launches.length := by
      have := (List.getElem?_eq_some_iff.mp hj).1
      simp only [startAction, List.length_append, List.length_singleton] at this
      omega
    simp [startAction, index]

theorem Serial.live_step {s t : Sequence α} {i : Nat} {r : Runner α} (h : s.Serial)
    (hi : s.runners[i]? = some r) (live : r.pc.finished = false) (hs : s.runnerStep i r = some t) : t.Serial := by
  have phase := (h.last hi live).2
  -- a step inside `Phase`: what it does to the launches and the runner's new phase are left
  have stays : ∀ {u : Sequence α} {r' : Runner α}, u.setRunner i r' = t → u.runners = s.runners →
      u.callers = s.callers → (∀ l ∈ u.launches, l.w.done = true → l.running = false) →
      r'.pc.finished = false → u.Phase r' → t.Serial := by
    rintro u r' rfl runners callers done going phase
    exact h.setRunner hi live runners callers done (fun _ => phase) fun reported => by simp [going] at reported
  obtain ⟨pc, queue⟩ := r
  cases pc with
  | copy => exact stays (Option.some.inj hs) rfl rfl h.done rfl ⟨by simp [phase.1], phase.2⟩
  | range =>
    cases queue with
    | nil => exact stays (Option.some.inj hs) rfl rfl h.done rfl ⟨⟨[], phase.1⟩, phase.2⟩
    | cons a queue => exact stays (Option.some.inj hs) rfl rfl h.done rfl phase
  | check a =>
    simp only [runnerStep] at hs
    have started : s.round <+: s.actions := ⟨_, phase.1⟩
    split at hs
    · exact stays (Option.some.inj hs) rfl rfl h.done rfl ⟨started, phase.2⟩
    · exact stays (Option.some.inj hs) rfl rfl h.done rfl ⟨started, phase.2⟩
    · exact stays (Option.some.inj hs) rfl rfl h.done rfl phase
    · exact stays (Option.some.inj hs) rfl rfl h.done rfl phase
    · exact stays (Option.some.inj hs) rfl rfl h.done rfl phase
  | waitTouch a => exact stays (Option.some.inj hs) rfl rfl h.done rfl phase
  | start a =>
    apply stays (Option.some.inj hs) rfl rfl _ rfl
    · exact ⟨by simpa [startAction] using phase.1, onlyRuns_startAction a phase.2⟩
    · intro l mem
      rcases List.mem_append.mp mem with before | new
      · exact h.done l before
      · cases List.mem_singleton.mp new
        simp
  | setCurrent a => exact stays (Option.some.inj hs) rfl rfl h.done rfl phase
  | wait a =>
    obtain ⟨k, hk, moved⟩ := Option.map_eq_some_iff.mp hs
    exact stays moved rfl rfl h.done rfl ⟨phase.1, hk ▸ phase.2⟩
  | waitDone k =>
    simp only [runnerStep] at hs
    split at hs
    next done => exact stays (Option.some.inj hs) rfl rfl h.done rfl ⟨phase.1, phase.2.idle_of_done h.done done⟩
    next => cases hs
  | clearCurrent => exact stays (Option.some.inj hs) rfl rfl h.done rfl phase
  | setEnd => exact stays (Option.some.inj hs) rfl rfl h.done rfl phase
  | done =>
    cases Option.some.inj hs
    exact h.setRunner (u := { s with w := s.w.finish none, round := [] }) hi live rfl rfl h.done
      (fun going => by cases going) fun _ => ⟨rfl, phase.2⟩
  | blocked a => cases hs
  | broadcast | exited => cases live

theorem Serial.runner {s t : Sequence α} {i : Nat} {r : Runner α} (h : s.Serial)
    (hi : s.runners[i]? = some r) (hs : s.runnerStep i r = some t) : t.Serial := by
  cases finished : r.pc.finished with
  | false => exact h.live_step hi finished hs
  | true =>
    obtain ⟨pc, queue⟩ := r
    cases pc with
    | broadcast =>
      cases Option.some.inj hs
      exact (h.setReported hi finished rfl).broadcast
    | exited => cases hs
    | _ => cases finished

omit [DecidableEq α] in
theorem Serial.caller {s t : Sequence α} {i : Nat} {pc : CallPc α} (h : s.Serial) (hi : s.callers[i]? = some pc)
    (all : pc = .startRun → ∀ r ∈ s.runners, r.pc.finished = true) (hs : s.callerStep i pc = some t) :
    t.Serial := by
  have quiet := h.callers pc (List.mem_of_getElem? hi)
  cases pc with
  | startReset =>
    cases Option.some.inj hs
    exact Serial.setCaller i { h with } rfl
  | startRun =>
    cases Option.some.inj hs
    exact (h.spawn (all rfl)).setCaller i rfl
  | startSet | pauseSet =>
    cases Option.some.inj hs
    exact Serial.setCaller i { h with } rfl
  | touch aborting =>
    cases Option.some.inj hs
    exact (h.setCaller i (by cases aborting <;> rfl)).broadcast
  | abortWait =>
    cases Option.some.inj hs
    exact h.setCaller i (by split <;> rfl)
  | abortBlocked | returned err => cases hs
  | abortSet | abortCurrent | abortAction a | abortActionWait a | abortActionDone k => cases quiet

omit [DecidableEq α] in
theorem Phase.of_onlyRuns {s t : Sequence α} {r : Runner α} (h : s.Phase r) (round : t.round = s.round)
    (actions : t.actions = s.actions) (latest : t.latest = s.latest) (only : ∀ k, s.OnlyRuns k → t.OnlyRuns k) :
    t.Phase r := by
  obtain ⟨pc, queue⟩ := r
  cases pc with
  | broadcast | exited => exact h
  | _ => exact ⟨by simpa only [round, actions] using h.1, by simpa only [latest] using only _ h.2⟩

omit [DecidableEq α] in
theorem Serial.finish {s : Sequence α} {k : Nat} {l : Launch α} {err : Option String} (h : s.Serial) :
    Serial { s with launches := s.launches.set k { l with running := false, w := l.w.finish err } } := by
  have only : ∀ k', s.OnlyRuns k' →
      OnlyRuns { s with launches := s.launches.set k { l with running := false, w := l.w.finish err } } k' := by
    intro k' only j l' hj running
    by_cases same : k = j
    · subst same
      rw [List.getElem?_set_self' ] at hj
      obtain ⟨_, _, rfl⟩ := Option.map_eq_some_iff.mp hj
      cases running
    · exact only j l' (by rw [← hj]; exact (List.getElem?_set_ne same).symm) running
  refine ⟨fun hi live => ?_, fun all => ?_, h.callers, ?_⟩
  · obtain ⟨last, phase⟩ := h.last hi live
    exact ⟨last, phase.of_onlyRuns rfl rfl rfl only⟩
  · obtain ⟨fresh, idle⟩ := h.idle all
    exact ⟨fresh, only none idle⟩
  · intro l' mem done
    rcases List.mem_or_eq_of_mem_set mem with before | rfl
    · exact h.done l' before done
    · rfl

theorem Serial.step {s t : Sequence α} {e : SeqStep} (hs : s.step e = some t) (h : s.Serial)
    (noResume : s.NoResume e t) : t.Serial := by
  obtain ⟨noAbort, spawned⟩ := noResume
  cases e with
  | call op =>
    cases Option.some.inj hs
    refine { h with callers := fun pc mem => ?_ }
    rcases List.mem_append.mp mem with before | new
    · exact h.callers pc before
    · cases List.mem_singleton.mp new
      cases op with
      | abort => exact absurd rfl noAbort
      | start | pause => rfl
  | caller i =>
    obtain ⟨pc, hi, hs⟩ := Option.bind_eq_some_iff.mp hs
    refine h.caller hi (fun starts => spawned ?_) hs
    simp [spawns, hi, starts]
  | runner i =>
    obtain ⟨r, hi, hs⟩ := Option.bind_eq_some_iff.mp hs
    exact h.runner hi hs
  | finish k err =>
    simp only [Sequence.step] at hs
    split at hs
    next l _ =>
      split at hs
      next =>
        cases Option.some.inj hs
        exact h.finish
      next => cases hs
    next => cases hs

/-- Every interleaving in which no `Start` comes before an earlier runner has
reported `Done` runs each action once, in order and one at a time. -/
theorem inOrder_along {actions : List α} {es : List SeqStep} (noResume : Runs.Along step NoResume (new actions) es) :
    Runs.Along step (fun _ _ t => t.InOrder) (new actions) es := by
  apply Runs.along_of_invariant (I := Serial) _ (serial_new actions) noResume
  intro s e t hs serial noResume
  have serial' := serial.step hs noResume
  exact ⟨serial'.inOrder, serial'⟩

instance (s : Sequence α) : Decidable s.InOrder :=
  inferInstanceAs (Decidable (_ ∧ _))

instance (s : Sequence α) (e : SeqStep) (t : Sequence α) : Decidable (s.NoResume e t) :=
  inferInstanceAs (Decidable (_ ∧ (_ → _)))

def startToEnd : List SeqStep :=
  .call .start :: List.replicate 4 (.caller 0) ++ List.replicate 6 (.runner 0) ++ .finish 0 none ::
    List.replicate 6 (.runner 0) ++ .finish 1 none :: List.replicate 7 (.runner 0)

theorem startToEnd_inOrder :
    ((Runs.run step (new [1, 2]) startToEnd).map fun t => (t.w.done, t.launches.map Launch.action)) =
        some (true, [1, 2]) ∧
      Runs.Along step (fun _ _ t => t.InOrder) (new [1, 2]) startToEnd :=
  ⟨by decide +kernel, inOrder_along (by decide +kernel)⟩

/-- `Pause` while the first action runs and `Start` to go on: the second runner
begins with the first action again. -/
def startPauseStart : List SeqStep :=
  .call .start :: List.replicate 4 (.caller 0) ++ List.replicate 4 (.runner 0) ++ .call .pause ::
    List.replicate 2 (.caller 1) ++ .call .start :: List.replicate 4 (.caller 2) ++ List.replicate 4 (.runner 1)

theorem startPauseStart_not_inOrder :
    ¬ Runs.Along step (fun _ _ t => t.InOrder) (new [1, 2]) startPauseStart := by
  decide +kernel

end Sequence

end Vender
