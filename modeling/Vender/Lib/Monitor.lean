import Vender.Lib.Runs

/-- What a thread does next: it takes or releases the lock, waits on the condition variable,
wakes everybody who does, or changes the shared data. -/
inductive Monitor.Op (σ π : Type*)
  | lock (next : π)
  | unlock (next : π)
  | wait (next : π)
  | broadcast (next : π)
  | act (f : σ → σ × π)
  | halt

/-- A thread runs, sleeps on the condition variable, or is woken and waits for the lock. -/
inductive Monitor.Thread (π : Type*)
  | at_ (pc : π)
  | asleep (next : π)
  | woken (next : π)

def Monitor.Thread.wake {π : Type*} : Monitor.Thread π → Monitor.Thread π
  | .asleep next => .woken next
  | t => t

/-- Threads that share data under one lock with one condition variable. -/
structure Monitor (σ π : Type*) where
  shared : σ
  holder : Option Nat := none
  threads : List (Monitor.Thread π) := []

namespace Monitor

variable {σ π : Type*}

inductive Move (π : Type*)
  | spawn (pc : π)
  | run (i : Nat)

def set (s : Monitor σ π) (i : Nat) (t : Thread π) : Monitor σ π := { s with threads := s.threads.set i t }

/-- The `i`-th thread, at `pc`, does what its program says; `none` if it has to wait for the lock,
has come to its end, or would release a lock that it does not hold. -/
def advance (prog : π → Op σ π) (s : Monitor σ π) (i : Nat) (pc : π) : Option (Monitor σ π) :=
  match prog pc with
  | .lock next => if s.holder = none then some { s.set i (.at_ next) with holder := some i } else none
  | .unlock next => if s.holder = some i then some { s.set i (.at_ next) with holder := none } else none
  | .wait next => if s.holder = some i then some { s.set i (.asleep next) with holder := none } else none
  | .broadcast next => some { s with threads := (s.threads.set i (.at_ next)).map Thread.wake }
  | .act f => some { s.set i (.at_ (f s.shared).2) with shared := (f s.shared).1 }
  | .halt => none

def step (prog : π → Op σ π) (s : Monitor σ π) : Move π → Option (Monitor σ π)
  | .spawn pc => some { s with threads := s.threads ++ [.at_ pc] }
  | .run i =>
    match s.threads[i]? with
    | some (.at_ pc) => s.advance prog i pc
    | some (.woken next) =>
      if s.holder = none then some { s.set i (.at_ next) with holder := some i } else none
    | some (.asleep _) | none => none

/-- A program that takes and releases the lock in turn, and changes the data under it only. -/
structure Disciplined (prog : π → Op σ π) (inside : π → Prop) : Prop where
  lock : ∀ {pc next}, prog pc = .lock next → ¬ inside pc ∧ inside next
  unlock : ∀ {pc next}, prog pc = .unlock next → inside pc ∧ ¬ inside next
  wait : ∀ {pc next}, prog pc = .wait next → inside pc ∧ inside next
  broadcast : ∀ {pc next}, prog pc = .broadcast next → ¬ inside pc ∧ ¬ inside next
  act : ∀ {pc f}, prog pc = .act f → inside pc ∧ ∀ s, inside (f s).2
  halt : ∀ {pc}, prog pc = .halt → ¬ inside pc

/-- The thread is between taking the lock and releasing it. -/
def Thread.Inside (inside : π → Prop) : Thread π → Prop
  | .at_ pc => inside pc
  | .asleep _ | .woken _ => False

/-- A thread that sleeps, or has slept, goes on behind a wait. -/
def Thread.Resumes (prog : π → Op σ π) : Thread π → Prop
  | .at_ _ => True
  | .asleep next | .woken next => ∃ pc, prog pc = .wait next

/-- The thread that is inside is the one that holds the lock. -/
structure Locked (prog : π → Op σ π) (inside : π → Prop) (s : Monitor σ π) : Prop where
  holds : ∀ i u, s.threads[i]? = some u → (u.Inside inside ↔ s.holder = some i)
  held : ∀ i, s.holder = some i → i < s.threads.length
  resumes : ∀ u ∈ s.threads, u.Resumes prog

variable {prog : π → Op σ π} {inside : π → Prop} {s t : Monitor σ π} {i : Nat} {u v : Thread π}

theorem set_self (at_ : s.threads[i]? = some u) (v : Thread π) : (s.threads.set i v)[i]? = some v :=
  List.getElem?_set_self (List.getElem?_eq_some_iff.mp at_).1

theorem locked_new (shared : σ) : Locked prog inside { shared := shared } where
  holds := by simp
  held := by simp
  resumes := by simp

/-- One thread moves, and the lock with it. -/
theorem Locked.moved {holder : Option Nat} {shared : σ} (h : Locked prog inside s) (at_ : s.threads[i]? = some u)
    (own : v.Inside inside ↔ holder = some i) (others : ∀ j, j ≠ i → (s.holder = some j ↔ holder = some j))
    (resumes : v.Resumes prog) : Locked prog inside { s.set i v with holder := holder, shared := shared } := by
  refine ⟨fun j w found => ?_, fun j held => ?_, fun w mem => ?_⟩
  · change (s.threads.set i v)[j]? = some w at found
    by_cases same : i = j
    · subst same
      rw [set_self at_ v] at found
      cases found
      exact own
    · rw [List.getElem?_set_ne same] at found
      exact (h.holds j w found).trans (others j (Ne.symm same))
  · change j < (s.threads.set i v).length
    rw [List.length_set]
    by_cases same : j = i
    · subst same
      exact (List.getElem?_eq_some_iff.mp at_).1
    · exact h.held j ((others j same).mpr held)
  · rcases List.mem_or_eq_of_mem_set mem with before | rfl
    · exact h.resumes w before
    · exact resumes

theorem Thread.inside_wake (u : Thread π) : u.wake.Inside inside ↔ u.Inside inside := by
  cases u <;> rfl

theorem Thread.resumes_wake (u : Thread π) : u.wake.Resumes prog ↔ u.Resumes prog := by
  cases u <;> rfl

theorem Locked.woken (h : Locked prog inside s) :
    Locked prog inside { s with threads := s.threads.map Thread.wake } := by
  refine ⟨fun j w found => ?_, fun j held => ?_, fun w mem => ?_⟩
  · rw [List.getElem?_map] at found
    obtain ⟨u, before, rfl⟩ := Option.map_eq_some_iff.mp found
    exact u.inside_wake.trans (h.holds j u before)
  · rw [List.length_map]
    exact h.held j held
  · obtain ⟨u, before, rfl⟩ := List.mem_map.mp mem
    exact u.resumes_wake.mpr (h.resumes u before)

theorem Locked.spawned {pc : π} (h : Locked prog inside s) (outside : ¬ inside pc) :
    Locked prog inside { s with threads := s.threads ++ [.at_ pc] } := by
  refine ⟨fun j w found => ?_, fun j held => ?_, fun w mem => ?_⟩
  · rcases Nat.lt_or_ge j s.threads.length with old | new
    · rw [List.getElem?_append_left old] at found
      exact h.holds j w found
    · rw [List.getElem?_append_right new] at found
      have only : w = .at_ pc := by
        have mem := List.mem_of_getElem? found
        simpa using mem
      subst only
      refine iff_of_false outside fun held => ?_
      have old := h.held j held
      omega
  · have old := h.held j held
    rw [List.length_append]
    omega
  · rcases List.mem_append.mp mem with before | new
    · exact h.resumes w before
    · cases List.mem_singleton.mp new
      trivial

theorem Locked.advance {pc : π} (h : Locked prog inside s) (program : Disciplined prog inside)
    (at_ : s.threads[i]? = some (.at_ pc)) (moved : s.advance prog i pc = some t) : Locked prog inside t := by
  have own := h.holds i _ at_
  unfold Monitor.advance at moved
  split at moved
  next op =>
    split at moved
    next free =>
      cases moved
      refine h.moved at_ (iff_of_true (program.lock op).2 rfl) (fun j other => ?_) trivial
      rw [free]
      simp [Ne.symm other]
    next => cases moved
  next op =>
    split at moved
    next mine =>
      cases moved
      refine h.moved at_ (iff_of_false (program.unlock op).2 (by simp)) (fun j other => ?_) trivial
      rw [mine]
      simp [Ne.symm other]
    next => cases moved
  next op =>
    split at moved
    next mine =>
      cases moved
      refine h.moved at_ (iff_of_false (by simp [Thread.Inside]) (by simp)) (fun j other => ?_) ⟨_, op⟩
      rw [mine]
      simp [Ne.symm other]
    next => cases moved
  next op =>
    cases moved
    obtain ⟨outside, outside'⟩ := program.broadcast op
    have free : s.holder ≠ some i := fun mine => outside (own.mpr mine)
    have stays : Locked prog inside { s.set i (.at_ _) with holder := s.holder, shared := s.shared } :=
      h.moved at_ (iff_of_false outside' free) (fun _ _ => Iff.rfl) trivial
    exact stays.woken
  next op =>
    cases moved
    obtain ⟨here, there⟩ := program.act op
    exact h.moved at_ (iff_of_true (there _) (own.mp here)) (fun _ _ => Iff.rfl) trivial
  next => cases moved

theorem Locked.step {m : Move π} (h : Locked prog inside s) (program : Disciplined prog inside)
    (outside : ∀ pc, m = .spawn pc → ¬ inside pc) (moved : s.step prog m = some t) : Locked prog inside t := by
  cases m with
  | spawn pc =>
    cases moved
    exact h.spawned (outside pc rfl)
  | run i =>
    simp only [Monitor.step] at moved
    split at moved
    next pc at_ => exact h.advance program at_ moved
    next next at_ =>
      split at moved
      next free =>
        cases moved
        obtain ⟨_, op⟩ : ∃ pc, prog pc = .wait next := h.resumes _ (List.mem_of_getElem? at_)
        have inside_next := (program.wait op).2
        refine h.moved at_ (iff_of_true inside_next rfl) (fun j other => ?_) trivial
        rw [free]
        simp [Ne.symm other]
      next => cases moved
    next => cases moved
    next => cases moved

/-- Nobody can move. -/
def Stuck (prog : π → Op σ π) (s : Monitor σ π) : Prop := ∀ i, s.step prog (.run i) = none

/-- Where nobody can move, everybody sleeps or has come to the end: nobody is waiting for the
lock, and nobody holds it. -/
theorem asleep_or_halt_of_stuck (h : Locked prog inside s) (program : Disciplined prog inside) (stuck : s.Stuck prog)
    (mem : u ∈ s.threads) :
    (∃ pc next, u = .asleep next ∧ prog pc = .wait next) ∨ ∃ pc, u = .at_ pc ∧ prog pc = .halt := by
  have free : s.holder = none := by
    by_contra held
    obtain ⟨i, held⟩ := Option.ne_none_iff_exists'.mp held
    obtain ⟨w, at_⟩ : ∃ w, s.threads[i]? = some w := ⟨_, List.getElem?_eq_getElem (h.held i held)⟩
    have here : w.Inside inside := (h.holds i w at_).mpr held
    cases w with
    | asleep | woken => exact here
    | at_ pc =>
      have none := stuck i
      simp only [Monitor.step, at_, advance] at none
      split at none
      next op => exact (program.lock op).1 here
      next op =>
        rw [if_pos held] at none
        cases none
      next op =>
        rw [if_pos held] at none
        cases none
      next op => exact (program.broadcast op).1 here
      next op => cases none
      next op => exact program.halt op here
  obtain ⟨i, at_⟩ := List.mem_iff_getElem?.mp mem
  have none := stuck i
  have outside : ¬ u.Inside inside := by
    rw [h.holds i u at_, free]
    simp
  cases u with
  | asleep next =>
    obtain ⟨pc, op⟩ : ∃ pc, prog pc = .wait next := h.resumes _ mem
    exact Or.inl ⟨pc, next, rfl, op⟩
  | woken next =>
    simp only [Monitor.step, at_] at none
    rw [if_pos free] at none
    cases none
  | at_ pc =>
    refine Or.inr ⟨pc, rfl, ?_⟩
    simp only [Monitor.step, at_, advance] at none
    split at none
    next op =>
      rw [if_pos free] at none
      cases none
    next op => exact absurd (program.unlock op).1 outside
    next op => exact absurd (program.wait op).1 outside
    next op => cases none
    next op => cases none
    next op => exact op

/-- A program that goes to sleep at the places `guarded` only while it `sees` that the data are
not `ready`, and that `owes` a broadcast from when it makes them so. -/
structure Announces (prog : π → Op σ π) (inside : π → Prop) (ready : σ → Prop)
    (guarded sees owes : π → Prop) : Prop where
  sees_inside : ∀ {pc}, sees pc → inside pc
  lock : ∀ {pc next}, prog pc = .lock next → ¬ sees next ∧ (owes pc → owes next)
  unlock : ∀ {pc next}, prog pc = .unlock next → ¬ sees next ∧ (owes pc → owes next)
  wait : ∀ {pc next}, prog pc = .wait next → (guarded next → sees pc) ∧ ¬ sees next ∧ ¬ owes pc
  broadcast : ∀ {pc next}, prog pc = .broadcast next → ¬ sees next
  act : ∀ {pc f}, prog pc = .act f →
    ∀ s, (sees (f s).2 → ¬ ready (f s).1) ∧ (ready (f s).1 → ready s ∨ owes (f s).2) ∧ (owes pc → owes (f s).2)
  halt : ∀ {pc}, prog pc = .halt → ¬ owes pc

/-- No wake-up is lost: while the data are ready and somebody sleeps who waits for that, a
broadcast is owed. -/
structure Awakens (ready : σ → Prop) (guarded sees owes : π → Prop) (s : Monitor σ π) : Prop where
  unready : ∀ pc, .at_ pc ∈ s.threads → sees pc → ¬ ready s.shared
  owed : ready s.shared → ∀ next, .asleep next ∈ s.threads → guarded next → ∃ pc, .at_ pc ∈ s.threads ∧ owes pc

variable {ready : σ → Prop} {guarded sees owes : π → Prop}

theorem awakens_new (shared : σ) : Awakens ready guarded sees owes { shared := shared } where
  unready := by simp
  owed := by simp

theorem mem_set_cases {l : List (Thread π)} {w : Thread π} (mem : w ∈ l.set i v) :
    w = v ∨ ∃ j, j ≠ i ∧ l[j]? = some w := by
  obtain ⟨j, found⟩ := List.mem_iff_getElem?.mp mem
  by_cases same : j = i
  · subst same
    left
    rw [List.getElem?_set] at found
    split at found
    · split at found
      · exact (Option.some.inj found).symm
      · cases found
    next other => exact absurd rfl other
  · rw [List.getElem?_set_ne (Ne.symm same)] at found
    exact Or.inr ⟨j, same, found⟩

theorem mem_set_of_ne {l : List (Thread π)} {w : Thread π} {j : Nat} (other : j ≠ i) (found : l[j]? = some w) :
    w ∈ l.set i v := by
  rw [← List.getElem?_set_ne (Ne.symm other) (a := v)] at found
  exact List.mem_of_getElem? found

/-- One thread moves from `u` to `v`, and the data with it. -/
theorem Awakens.moved {holder : Option Nat} {shared : σ} (h : Awakens ready guarded sees owes s)
    (at_ : s.threads[i]? = some u)
    (others : ∀ j pc, j ≠ i → s.threads[j]? = some (.at_ pc) → sees pc → ¬ ready shared)
    (own : ∀ pc, v = .at_ pc → sees pc → ¬ ready shared)
    (sleeps : ∀ next, v = .asleep next → guarded next → ¬ ready shared)
    (turns : ready shared → ready s.shared ∨ ∃ pc, v = .at_ pc ∧ owes pc)
    (keeps : ∀ pc, u = .at_ pc → owes pc → ∃ pc', v = .at_ pc' ∧ owes pc') :
    Awakens ready guarded sees owes { s.set i v with holder := holder, shared := shared } := by
  have here : v ∈ s.threads.set i v := List.mem_set (List.getElem?_eq_some_iff.mp at_).1 v
  refine ⟨fun pc mem => ?_, fun done next mem asks => ?_⟩
  · rcases mem_set_cases mem with same | ⟨j, other, found⟩
    · exact own pc same.symm
    · exact others j pc other found
  · have owing : (∃ pc, v = .at_ pc ∧ owes pc) → ∃ pc, .at_ pc ∈ s.threads.set i v ∧ owes pc := by
      intro found
      obtain ⟨pc, rfl, owes⟩ := found
      exact ⟨pc, here, owes⟩
    rcases mem_set_cases mem with same | ⟨j, _, found⟩
    · exact absurd done (sleeps next same.symm asks)
    · rcases turns done with before | now
      · obtain ⟨pc, mem, owes⟩ := h.owed before next (List.mem_of_getElem? found) asks
        obtain ⟨k, at_k⟩ := List.mem_iff_getElem?.mp mem
        by_cases same : k = i
        · subst same
          exact owing (keeps pc (Option.some.inj (at_.symm.trans at_k)) owes)
        · exact ⟨pc, mem_set_of_ne same at_k, owes⟩
      · exact owing now

theorem Awakens.woken (h : ∀ pc, .at_ pc ∈ s.threads → sees pc → ¬ ready s.shared) :
    Awakens ready guarded sees owes { s with threads := s.threads.map Thread.wake } := by
  refine ⟨fun pc mem => ?_, fun _ next mem => ?_⟩
  · obtain ⟨u, before, same⟩ := List.mem_map.mp mem
    cases u with
    | at_ pc' =>
      cases same
      exact h pc before
    | asleep | woken => cases same
  · obtain ⟨u, _, same⟩ := List.mem_map.mp mem
    cases u <;> cases same

theorem Awakens.advance {pc : π} (h : Awakens ready guarded sees owes s) (locked : Locked prog inside s)
    (program : Disciplined prog inside) (announces : Announces prog inside ready guarded sees owes)
    (at_ : s.threads[i]? = some (.at_ pc)) (moved : s.advance prog i pc = some t) :
    Awakens ready guarded sees owes t := by
  have others : ∀ j pc, j ≠ i → s.threads[j]? = some (.at_ pc) → sees pc → ¬ ready s.shared :=
    fun j pc _ found => h.unready pc (List.mem_of_getElem? found)
  unfold Monitor.advance at moved
  split at moved
  next next op =>
    obtain ⟨blind, owes⟩ := announces.lock op
    split at moved
    next =>
      cases moved
      refine h.moved at_ others ?_ nofun Or.inl ?_
      · rintro _ ⟨⟩ sees
        exact absurd sees blind
      · rintro _ ⟨⟩ before
        exact ⟨next, rfl, owes before⟩
    next => cases moved
  next next op =>
    obtain ⟨blind, owes⟩ := announces.unlock op
    split at moved
    next =>
      cases moved
      refine h.moved at_ others ?_ nofun Or.inl ?_
      · rintro _ ⟨⟩ sees
        exact absurd sees blind
      · rintro _ ⟨⟩ before
        exact ⟨next, rfl, owes before⟩
    next => cases moved
  next next op =>
    obtain ⟨looks, _, free⟩ := announces.wait op
    split at moved
    next =>
      cases moved
      refine h.moved at_ others nofun ?_ Or.inl ?_
      · rintro _ ⟨⟩ asks
        exact h.unready pc (List.mem_of_getElem? at_) (looks asks)
      · rintro _ ⟨⟩ before
        exact absurd before free
    next => cases moved
  next next op =>
    cases moved
    refine Awakens.woken (s := s.set i (.at_ next)) ?_
    intro pc mem sees
    rcases mem_set_cases mem with same | ⟨j, _, found⟩
    · cases same
      exact absurd sees (announces.broadcast op)
    · exact h.unready pc (List.mem_of_getElem? found) sees
  next f op =>
    cases moved
    obtain ⟨blind, turns, keeps⟩ := announces.act op s.shared
    have mine : s.holder = some i := (locked.holds i _ at_).mp (program.act op).1
    refine h.moved at_ ?_ ?_ nofun ?_ ?_
    · -- who sees the data holds the lock, and that is this thread
      intro j pc other found sees
      have theirs := (locked.holds j _ found).mp (announces.sees_inside sees)
      exact absurd (Option.some.inj (theirs.symm.trans mine)) other
    · rintro _ ⟨⟩ sees
      exact blind sees
    · intro done
      rcases turns done with before | now
      · exact Or.inl before
      · exact Or.inr ⟨_, rfl, now⟩
    · rintro _ ⟨⟩ before
      exact ⟨_, rfl, keeps before⟩
  next => cases moved

theorem Awakens.step {m : Move π} (h : Awakens ready guarded sees owes s) (locked : Locked prog inside s)
    (program : Disciplined prog inside) (announces : Announces prog inside ready guarded sees owes)
    (blind : ∀ pc, m = .spawn pc → ¬ sees pc) (moved : s.step prog m = some t) :
    Awakens ready guarded sees owes t := by
  cases m with
  | spawn pc =>
    cases moved
    refine ⟨fun pc' mem saw => ?_, fun done next mem asks => ?_⟩
    · rcases List.mem_append.mp mem with before | new
      · exact h.unready pc' before saw
      · cases List.mem_singleton.mp new
        exact absurd saw (blind pc rfl)
    · rcases List.mem_append.mp mem with before | new
      · obtain ⟨pc', mem, owes⟩ := h.owed done next before asks
        exact ⟨pc', List.mem_append_left _ mem, owes⟩
      · cases List.mem_singleton.mp new
  | run i =>
    simp only [Monitor.step] at moved
    split at moved
    next pc at_ => exact h.advance locked program announces at_ moved
    next next at_ =>
      split at moved
      next =>
        cases moved
        obtain ⟨_, op⟩ : ∃ pc, prog pc = .wait next := locked.resumes _ (List.mem_of_getElem? at_)
        refine h.moved at_ (fun j pc _ found => h.unready pc (List.mem_of_getElem? found)) ?_ nofun Or.inl nofun
        rintro _ ⟨⟩ saw
        exact absurd saw (announces.wait op).2.1
      next => cases moved
    next => cases moved
    next => cases moved

theorem locked_of_run {shared : σ} {ms : List (Move π)} (program : Disciplined prog inside)
    (outside : ∀ pc, .spawn pc ∈ ms → ¬ inside pc)
    (reached : Runs.run (step prog) { shared := shared } ms = some s) : Locked prog inside s := by
  refine Runs.invariant_of_run (C := fun _ m _ => m ∈ ms) ?_ (locked_new shared)
    (Runs.along_of_forall_mem (fun _ mem => mem) _) reached
  intro s m t moved locked mem
  refine locked.step program ?_ moved
  rintro pc rfl
  exact outside pc mem

theorem awakens_of_run {shared : σ} {ms : List (Move π)} (program : Disciplined prog inside)
    (announces : Announces prog inside ready guarded sees owes) (outside : ∀ pc, .spawn pc ∈ ms → ¬ inside pc)
    (reached : Runs.run (step prog) { shared := shared } ms = some s) : Awakens ready guarded sees owes s := by
  refine (Runs.invariant_of_run (I := fun s => Locked prog inside s ∧ Awakens ready guarded sees owes s)
    (C := fun _ m _ => m ∈ ms) ?_ ⟨locked_new shared, awakens_new shared⟩
    (Runs.along_of_forall_mem (fun _ mem => mem) _) reached).2
  intro s m t moved both mem
  obtain ⟨locked, awakens⟩ := both
  have entry : ∀ pc, m = .spawn pc → ¬ inside pc := by
    rintro pc rfl
    exact outside pc mem
  refine ⟨locked.step program entry moved, awakens.step locked program announces ?_ moved⟩
  intro pc spawned saw
  exact entry pc spawned (announces.sees_inside saw)

/-- Where nobody can move and the data are ready, nobody sleeps who waits for that. -/
theorem Awakens.unguarded_of_stuck {next : π} (h : Awakens ready guarded sees owes s) (locked : Locked prog inside s)
    (program : Disciplined prog inside) (announces : Announces prog inside ready guarded sees owes)
    (stuck : s.Stuck prog) (done : ready s.shared) (mem : .asleep next ∈ s.threads) : ¬ guarded next := by
  intro asks
  obtain ⟨pc, mem, owes⟩ := h.owed done next mem asks
  rcases asleep_or_halt_of_stuck locked program stuck mem with ⟨_, _, same, _⟩ | ⟨_, same, op⟩
  · cases same
  · cases same
    exact announces.halt op owes

/-- What holds of the data, and of the data and the place of a thread: kept by every change that
any thread makes. -/
structure Annotated (prog : π → Op σ π) (I : σ → Prop) (R : σ → π → Prop) : Prop where
  lock : ∀ {s pc next}, prog pc = .lock next → R s pc → R s next
  unlock : ∀ {s pc next}, prog pc = .unlock next → R s pc → R s next
  wait : ∀ {s pc next}, prog pc = .wait next → R s pc → R s next
  broadcast : ∀ {s pc next}, prog pc = .broadcast next → R s pc → R s next
  act : ∀ {s pc f}, prog pc = .act f → I s → R s pc → I (f s).1 ∧ R (f s).1 (f s).2
  stable : ∀ {s pc f}, prog pc = .act f → I s → ∀ pc', R s pc' → R (f s).1 pc'

def Thread.pc : Thread π → π
  | .at_ pc | .asleep pc | .woken pc => pc

theorem Thread.pc_wake (u : Thread π) : u.wake.pc = u.pc := by
  cases u <;> rfl

/-- The data are as they should be, and every thread is where it should be with them. -/
structure Holds (I : σ → Prop) (R : σ → π → Prop) (s : Monitor σ π) : Prop where
  data : I s.shared
  threads : ∀ u ∈ s.threads, R s.shared u.pc

variable {I : σ → Prop} {R : σ → π → Prop}

theorem Holds.moved {holder : Option Nat} (h : Holds I R s) (own : R s.shared v.pc) :
    Holds I R { s.set i v with holder := holder } := by
  refine ⟨h.data, fun w mem => ?_⟩
  rcases List.mem_or_eq_of_mem_set mem with before | rfl
  · exact h.threads w before
  · exact own

theorem Holds.advance {pc : π} (h : Holds I R s) (annotated : Annotated prog I R)
    (at_ : s.threads[i]? = some (.at_ pc)) (moved : s.advance prog i pc = some t) : Holds I R t := by
  have own : R s.shared pc := h.threads _ (List.mem_of_getElem? at_)
  unfold Monitor.advance at moved
  split at moved
  next op =>
    obtain ⟨_, same⟩ := Option.ite_none_right_eq_some.mp moved
    cases same
    exact h.moved (annotated.lock op own)
  next op =>
    obtain ⟨_, same⟩ := Option.ite_none_right_eq_some.mp moved
    cases same
    exact h.moved (annotated.unlock op own)
  next op =>
    obtain ⟨_, same⟩ := Option.ite_none_right_eq_some.mp moved
    cases same
    exact h.moved (annotated.wait op own)
  next next op =>
    cases moved
    refine ⟨h.data, fun w mem => ?_⟩
    obtain ⟨u, before, rfl⟩ := List.mem_map.mp mem
    rw [u.pc_wake]
    rcases List.mem_or_eq_of_mem_set before with old | rfl
    · exact h.threads u old
    · exact annotated.broadcast op own
  next f op =>
    cases moved
    obtain ⟨data, here⟩ := annotated.act op h.data own
    refine ⟨data, fun w mem => ?_⟩
    rcases List.mem_or_eq_of_mem_set mem with old | rfl
    · exact annotated.stable op h.data _ (h.threads w old)
    · exact here
  next => cases moved

theorem Holds.step {m : Move π} (h : Holds I R s) (annotated : Annotated prog I R)
    (entry : ∀ pc, m = .spawn pc → R s.shared pc) (moved : s.step prog m = some t) : Holds I R t := by
  cases m with
  | spawn pc =>
    cases moved
    refine ⟨h.data, fun w mem => ?_⟩
    rcases List.mem_append.mp mem with before | new
    · exact h.threads w before
    · cases List.mem_singleton.mp new
      exact entry pc rfl
  | run i =>
    simp only [Monitor.step] at moved
    split at moved
    next pc at_ => exact h.advance annotated at_ moved
    next next at_ =>
      obtain ⟨_, same⟩ := Option.ite_none_right_eq_some.mp moved
      cases same
      have own : R s.shared next := h.threads (.woken next) (List.mem_of_getElem? at_)
      exact h.moved (v := .at_ next) own
    next => cases moved
    next => cases moved

theorem holds_of_run {shared : σ} {ms : List (Move π)} (annotated : Annotated prog I R) (start : I shared)
    (entry : ∀ pc, .spawn pc ∈ ms → ∀ s, I s → R s pc)
    (reached : Runs.run (step prog) { shared := shared } ms = some s) : Holds I R s := by
  refine Runs.invariant_of_run (C := fun _ m _ => m ∈ ms) ?_ ⟨start, by simp⟩
    (Runs.along_of_forall_mem (fun _ mem => mem) _) reached
  intro s m t moved holds mem
  refine holds.step annotated ?_ moved
  rintro pc rfl
  exact entry pc mem _ holds.data

/-- The move of a thread that wakes everybody who sleeps. -/
def Broadcasts (prog : π → Op σ π) (s : Monitor σ π) (m : Move π) : Prop :=
  ∃ i pc next, m = .run i ∧ s.threads[i]? = some (.at_ pc) ∧ prog pc = .broadcast next

/-- The move of a thread that goes to sleep. -/
def Sleeps (prog : π → Op σ π) (s : Monitor σ π) (i : Nat) (next : π) (m : Move π) : Prop :=
  m = .run i ∧ ∃ pc, s.threads[i]? = some (.at_ pc) ∧ prog pc = .wait next

theorem asleep_of_set {next : π} {k : Nat} (other : v ≠ .asleep next)
    (sleeps : (s.threads.set k v)[i]? = some (.asleep next)) : s.threads[i]? = some (.asleep next) := by
  rw [List.getElem?_set] at sleeps
  split at sleeps
  · split at sleeps
    · exact absurd (Option.some.inj sleeps) other
    · cases sleeps
  · exact sleeps

theorem not_broadcasts (at_ : s.threads[i]? = some u) (other : ∀ pc next, u = .at_ pc → prog pc ≠ .broadcast next) :
    ¬ Broadcasts prog s (.run i) := by
  rintro ⟨j, pc, next, same, at', op⟩
  cases same
  exact other pc next (Option.some.inj (at_.symm.trans at')) op

/-- Who sleeps behind a step slept before it, or goes to sleep with it; and the step is no
broadcast. -/
theorem asleep_step {m : Move π} {next : π} (moved : s.step prog m = some t)
    (sleeps : t.threads[i]? = some (.asleep next)) :
    ¬ Broadcasts prog s m ∧ (s.threads[i]? = some (.asleep next) ∨ Sleeps prog s i next m) := by
  cases m with
  | spawn pc =>
    cases moved
    refine ⟨?_, Or.inl ?_⟩
    · rintro ⟨_, _, _, spawned, _⟩
      cases spawned
    · rcases Nat.lt_or_ge i s.threads.length with old | new
      · rwa [List.getElem?_append_left old] at sleeps
      · rw [List.getElem?_append_right new] at sleeps
        have mem := List.mem_of_getElem? sleeps
        cases List.mem_singleton.mp mem
  | run k =>
    simp only [Monitor.step] at moved
    split at moved
    next pc at_ =>
      have silent (other : ∀ next, prog pc ≠ .broadcast next) : ¬ Broadcasts prog s (.run k) := by
        refine not_broadcasts at_ fun pc' next' same => ?_
        cases same
        exact other next'
      unfold advance at moved
      split at moved
      next op =>
        split at moved
        · cases moved
          exact ⟨silent (by simp [op]), Or.inl (asleep_of_set (by simp) sleeps)⟩
        · cases moved
      next op =>
        split at moved
        · cases moved
          exact ⟨silent (by simp [op]), Or.inl (asleep_of_set (by simp) sleeps)⟩
        · cases moved
      next next' op =>
        split at moved
        · cases moved
          refine ⟨silent (by simp [op]), ?_⟩
          change (s.threads.set k (.asleep next'))[i]? = _ at sleeps
          by_cases own : k = i
          · subst own
            rw [set_self at_] at sleeps
            cases sleeps
            exact Or.inr ⟨rfl, pc, at_, op⟩
          · rw [List.getElem?_set_ne own] at sleeps
            exact Or.inl sleeps
        · cases moved
      next op =>
        cases moved
        -- a broadcast leaves nobody asleep
        rw [List.getElem?_map] at sleeps
        obtain ⟨u, _, woken⟩ := Option.map_eq_some_iff.mp sleeps
        cases u <;> cases woken
      next op =>
        cases moved
        exact ⟨silent (by simp [op]), Or.inl (asleep_of_set (by simp) sleeps)⟩
      next => cases moved
    next next' at_ =>
      split at moved
      · cases moved
        exact ⟨not_broadcasts at_ (by simp), Or.inl (asleep_of_set (by simp) sleeps)⟩
      · cases moved
    next => cases moved
    next => cases moved

/-- Who sleeps at the end of a run went to sleep in it, or slept from its start, and there was no
broadcast since. -/
theorem slept_since {ms : List (Move π)} {next : π} (reached : Runs.run (step prog) s ms = some t)
    (sleeps : t.threads[i]? = some (.asleep next)) :
    s.threads[i]? = some (.asleep next) ∧ Runs.Along (step prog) (fun u m _ => ¬ Broadcasts prog u m) s ms ∨
      ∃ before after u v, ms = before ++ .run i :: after ∧ Runs.run (step prog) s before = some u ∧
        Sleeps prog u i next (.run i) ∧ u.step prog (.run i) = some v ∧
        Runs.Along (step prog) (fun u m _ => ¬ Broadcasts prog u m) v after := by
  induction ms generalizing s with
  | nil =>
    cases Option.some.inj reached
    exact Or.inl ⟨sleeps, trivial⟩
  | cons m ms ih =>
    obtain ⟨w, moved, rest⟩ := Runs.run_cons.mp reached
    rcases ih rest with ⟨slept, quiet⟩ | ⟨before, after, u, v, rfl, run, falls, moved', quiet⟩
    · obtain ⟨noBroadcast, slept | falls⟩ := asleep_step moved slept
      · refine Or.inl ⟨slept, fun w' moved' => ?_⟩
        cases moved.symm.trans moved'
        exact ⟨noBroadcast, quiet⟩
      · obtain rfl := falls.1
        exact Or.inr ⟨[], ms, s, w, rfl, rfl, falls, moved, quiet⟩
    · exact Or.inr ⟨m :: before, after, u, v, rfl, Runs.run_cons.mpr ⟨w, moved, run⟩, falls, moved', quiet⟩

end Monitor
