import Mathlib.Algebra.Ring.Nat
import Mathlib.Data.List.Perm.Basic
import Vender.Lib.Channel
import Vender.Lib.Runs

namespace Vender

/-- `errors.NewErrWithCause(err, tag)`. -/
structure TaggedError where
  cause : String
  tag : String
deriving DecidableEq

/-- `errors.New` of what `ErrorStack` makes of the errors, `nil` if there is none. -/
def foldErrors {ε : Type*} (errorStack : ε → String) (errs : List (Option ε)) : Option String :=
  if errs.length = 0 then none
  else
    let ss := errs.filterMap fun e => e.map errorStack
    if ss.length = 0 then none else some ("\n".intercalate ss)

namespace ActionList

/-- Where the goroutine of `doOne` for an item stands. -/
inductive Pc
  | waiting
  | running
  | sending (e : Option TaggedError)
  | exited (e : Option TaggedError)
deriving DecidableEq

structure Item where
  tag : String
  pc : Pc := .waiting
deriving DecidableEq

/-- What the goroutine has put into the channel. -/
def Item.sent (it : Item) : Option (Option TaggedError) :=
  match it.pc with
  | .exited e => some e
  | _ => none

/-- What `doOne` makes of the function's result. -/
def Item.outcome (it : Item) : Option (Option TaggedError) :=
  match it.pc with
  | .sending e | .exited e => some e
  | _ => none

/-- A call of `List.Do`, with the lock held: how many goroutines it has started, and how many
results it has received. -/
structure Doing where
  items : List Item
  errCh : Channel (Option TaggedError)
  started : Nat := 0
  received : Nat := 0
  errs : List TaggedError := []

inductive Step
  | go
  | returns (i : Nat) (err : Option String)
  | send (i : Nat)
  | receive
deriving DecidableEq

namespace Doing

def start (tags : List String) : Doing where
  items := tags.map fun tag => ⟨tag, .waiting⟩
  errCh := .make tags.length

def set (s : Doing) (i : Nat) (it : Item) : Doing := { s with items := s.items.set i it }

def step (s : Doing) : Step → Option Doing
  | .go =>
    match s.items[s.started]? with
    | some it => some { s.set s.started { it with pc := .running } with started := s.started + 1 }
    | none => none
  | .returns i err =>
    match s.items[i]? with
    | some ⟨tag, .running⟩ => some (s.set i ⟨tag, .sending (err.map fun cause => ⟨cause, tag⟩)⟩)
    | _ => none
  | .send i =>
    match s.items[i]? with
    | some ⟨tag, .sending e⟩ => (s.errCh.send e).map fun errCh => { s.set i ⟨tag, .exited e⟩ with errCh }
    | _ => none
  | .receive =>
    if s.started = s.items.length ∧ s.received < s.items.length then
      s.errCh.receive.map fun r =>
        { s with errCh := r.2, received := s.received + 1, errs := s.errs ++ r.1.toList }
    else none

/-- `Do` returns `errs`. -/
def Finished (s : Doing) : Prop := s.started = s.items.length ∧ s.received = s.items.length

instance (s : Doing) : Decidable s.Finished := inferInstanceAs (Decidable (_ ∧ _))

/-- The results that the goroutines have sent, by item. -/
def results (s : Doing) : List (Option TaggedError) := s.items.filterMap Item.sent

/-- What was sent is in the channel, or has been received; and the goroutines are started in order. -/
structure Sound (s : Doing) : Prop where
  sent : ∃ got, got.length = s.received ∧ s.errs = got.filterMap id ∧ (got ++ s.errCh.queue).Perm s.results
  capacity : s.errCh.capacity = s.items.length
  started : ∀ i it, s.items[i]? = some it → (it.pc = .waiting ↔ s.started ≤ i)
  within : s.started ≤ s.items.length

variable {s t : Doing} {i : Nat} {it it' : Item}

theorem filterMap_set_perm {α β : Type*} {f : α → Option β} {l : List α} {x y : α} (at_ : l[i]? = some x)
    (none : f x = none) {e : β} (now : f y = some e) : (e :: l.filterMap f).Perm ((l.set i y).filterMap f) := by
  induction l generalizing i with
  | nil => cases at_
  | cons z l ih =>
    cases i with
    | zero =>
      cases Option.some.inj at_
      rw [List.set_cons_zero, List.filterMap_cons_none none, List.filterMap_cons_some now]
    | succ i =>
      have rest := ih at_
      rw [List.set_cons_succ]
      cases here : f z with
      | none =>
        rw [List.filterMap_cons_none here, List.filterMap_cons_none here]
        exact rest
      | some b =>
        rw [List.filterMap_cons_some here, List.filterMap_cons_some here]
        exact (List.Perm.swap b e _).trans (rest.cons b)

theorem filterMap_set_same {α β : Type*} {f : α → Option β} {l : List α} {x y : α} (at_ : l[i]? = some x)
    (same : f y = f x) : (l.set i y).filterMap f = l.filterMap f := by
  induction l generalizing i with
  | nil => cases at_
  | cons z l ih =>
    cases i with
    | zero =>
      cases Option.some.inj at_
      rw [List.set_cons_zero, List.filterMap_cons, List.filterMap_cons, same]
    | succ i =>
      rw [List.set_cons_succ, List.filterMap_cons, List.filterMap_cons, ih at_]

theorem Sound.results_length (h : s.Sound) : s.received + s.errCh.queue.length = s.results.length := by
  obtain ⟨got, received, _, perm⟩ := h.sent
  rw [← perm.length_eq, List.length_append, received]

/-- Before a goroutine has sent its result, the channel has room for it. -/
theorem Sound.room (h : s.Sound) (at_ : s.items[i]? = some it) (unsent : it.sent = none) : ¬ s.errCh.Full := by
  have fewer : s.results.length < s.items.length := by
    refine Nat.lt_of_le_of_ne (List.length_filterMap_le ..) fun all => ?_
    have some_result := List.filterMap_length_eq_length.mp all it (List.mem_of_getElem? at_)
    rw [unsent] at some_result
    cases some_result
  have length := h.results_length
  rw [Channel.Full, h.capacity]
  omega

theorem set_length (s : Doing) (i : Nat) (it : Item) : (s.set i it).items.length = s.items.length :=
  List.length_set

/-- A goroutine that goes on is still one of those started. -/
theorem Sound.placed (h : s.Sound) (at_ : s.items[i]? = some it) (begun : it.pc ≠ .waiting ∧ it'.pc ≠ .waiting)
    {j : Nat} {x : Item} (found : (s.items.set i it')[j]? = some x) : x.pc = .waiting ↔ s.started ≤ j := by
  by_cases here : i = j
  · subst here
    have now : x = it' := by
      have set := List.getElem?_set_self (a := it') (List.getElem?_eq_some_iff.mp at_).1
      exact Option.some.inj (found.symm.trans set)
    subst now
    exact iff_of_false begun.2 fun late => begun.1 ((h.started i it at_).mpr late)
  · rw [List.getElem?_set_ne here] at found
    exact h.started j x found

theorem sound_start (tags : List String) : (start tags).Sound := by
  refine ⟨⟨[], rfl, rfl, ?_⟩, by simp [start, Channel.make], ?_, Nat.zero_le _⟩
  · have none : (start tags).results = [] := by
      rw [results, start, List.filterMap_map]
      exact List.filterMap_eq_nil_iff.mpr fun _ _ => rfl
    rw [none]
    exact List.Perm.refl _
  · intro i it found
    rw [start, List.getElem?_map] at found
    obtain ⟨tag, _, rfl⟩ := Option.map_eq_some_iff.mp found
    exact iff_of_true rfl (Nat.zero_le _)

theorem Sound.go (h : s.Sound) (at_ : s.items[s.started]? = some it) :
    ({ s.set s.started { it with pc := .running } with started := s.started + 1 } : Doing).Sound := by
  have waiting := (h.started _ _ at_).mpr (Nat.le_refl _)
  have bound := (List.getElem?_eq_some_iff.mp at_).1
  have length : (s.items.set s.started { it with pc := .running }).length = s.items.length := List.length_set
  refine ⟨?_, h.capacity.trans length.symm, ?_, ?_⟩
  · have unsent : it.sent = none := by simp [Item.sent, waiting]
    have same : ({ it with pc := .running } : Item).sent = it.sent := by rw [unsent]; rfl
    obtain ⟨got, received, errs, perm⟩ := h.sent
    exact ⟨got, received, errs, perm.trans (List.Perm.of_eq (filterMap_set_same at_ same).symm)⟩
  · intro j x found
    show x.pc = .waiting ↔ s.started + 1 ≤ j
    change (s.items.set s.started _)[j]? = some x at found
    by_cases here : s.started = j
    · subst here
      rw [List.getElem?_set_self bound] at found
      cases found
      simp
    · rw [List.getElem?_set_ne here] at found
      rw [h.started j x found]
      omega
  · exact Nat.le_trans bound (Nat.le_of_eq length.symm)

theorem Sound.step {e : Step} (h : s.Sound) (moved : s.step e = some t) : t.Sound := by
  cases e with
  | go =>
    simp only [Doing.step] at moved
    split at moved
    next it at_ =>
      cases moved
      exact h.go at_
    next => cases moved
  | returns i err =>
    simp only [Doing.step] at moved
    split at moved
    next tag at_ =>
      cases moved
      obtain ⟨got, received, errs, perm⟩ := h.sent
      refine ⟨⟨got, received, errs, ?_⟩, h.capacity.trans (s.set_length ..).symm, ?_,
        Nat.le_trans h.within (Nat.le_of_eq (s.set_length ..).symm)⟩
      · have same : (s.set i ⟨tag, .sending (err.map fun cause => ⟨cause, tag⟩)⟩).results = s.results :=
          filterMap_set_same at_ rfl
        rwa [same]
      · exact fun j x found => h.placed at_ ⟨Pc.noConfusion, Pc.noConfusion⟩ found
    next => cases moved
  | send i =>
    simp only [Doing.step] at moved
    split at moved
    next tag e at_ =>
      obtain ⟨errCh, sent, rfl⟩ := Option.map_eq_some_iff.mp moved
      obtain ⟨queue, capacity⟩ := Channel.send_some sent
      obtain ⟨got, received, errs, perm⟩ := h.sent
      refine ⟨⟨got, received, errs, ?_⟩, ?_, ?_, Nat.le_trans h.within (Nat.le_of_eq (s.set_length ..).symm)⟩
      · show (got ++ errCh.queue).Perm ((s.items.set i ⟨tag, .exited e⟩).filterMap Item.sent)
        have now : (e :: s.results).Perm ((s.items.set i ⟨tag, .exited e⟩).filterMap Item.sent) :=
          filterMap_set_perm at_ rfl rfl
        rw [queue, ← List.append_assoc]
        exact (List.perm_append_singleton e _).trans ((perm.cons e).trans now)
      · exact (capacity.trans h.capacity).trans (s.set_length ..).symm
      · exact fun j x found => h.placed at_ ⟨Pc.noConfusion, Pc.noConfusion⟩ found
    next => cases moved
  | receive =>
    obtain ⟨_, moved⟩ := Option.ite_none_right_eq_some.mp moved
    obtain ⟨⟨e, errCh⟩, received, rfl⟩ := Option.map_eq_some_iff.mp moved
    obtain ⟨queue, capacity⟩ := Channel.receive_some received
    obtain ⟨got, length, errs, perm⟩ := h.sent
    refine ⟨⟨got ++ [e], ?_, ?_, ?_⟩, capacity.trans h.capacity, h.started, h.within⟩
    · show _ = s.received + 1
      rw [List.length_append, length]
      rfl
    · show s.errs ++ e.toList = _
      rw [List.filterMap_append, errs]
      cases e <;> rfl
    · show (got ++ [e] ++ errCh.queue).Perm s.results
      rw [List.append_assoc, List.singleton_append, ← queue]
      exact perm

theorem sound_of_run {tags : List String} {es : List Step} (reached : Runs.run step (start tags) es = some s) :
    s.Sound :=
  Runs.invariant_of_run (fun _ _ _ moved sound _ => sound.step moved) (sound_start tags) (Runs.along_true _ _) reached

/-- How many steps the goroutine of an item has before it. -/
def toGo (it : Item) : Nat :=
  match it.pc with
  | .waiting => 3
  | .running => 2
  | .sending _ => 1
  | .exited _ => 0

/-- How many steps `Do` has before it. -/
def left (s : Doing) : Nat := (s.items.map toGo).sum + (s.items.length - s.received)

theorem toGo_set {l : List Item} (at_ : l[i]? = some it) (it' : Item) :
    ((l.set i it').map toGo).sum + toGo it = (l.map toGo).sum + toGo it' := by
  induction l generalizing i with
  | nil => cases at_
  | cons x l ih =>
    cases i with
    | zero =>
      cases Option.some.inj at_
      rw [List.set_cons_zero, List.map_cons, List.map_cons, List.sum_cons, List.sum_cons]
      omega
    | succ i =>
      have rest := ih at_
      rw [List.set_cons_succ, List.map_cons, List.map_cons, List.sum_cons, List.sum_cons]
      omega

theorem left_set {u : Doing} (at_ : s.items[i]? = some it) (items : u.items = s.items.set i it')
    (received : u.received = s.received) : u.left + toGo it = s.left + toGo it' := by
  have sum := toGo_set at_ it'
  rw [left, left, items, received, List.length_set]
  omega

/-- Every step brings `Do` nearer to its end. -/
theorem left_step {e : Step} (h : s.Sound) (moved : s.step e = some t) : t.left + 1 = s.left := by
  cases e with
  | receive =>
    obtain ⟨⟨_, more⟩, moved⟩ := Option.ite_none_right_eq_some.mp moved
    obtain ⟨r, _, rfl⟩ := Option.map_eq_some_iff.mp moved
    show (s.items.map toGo).sum + (s.items.length - (s.received + 1)) + 1 = s.left
    rw [left]
    omega
  | go =>
    simp only [Doing.step] at moved
    split at moved
    next it at_ =>
      cases moved
      have waiting := (h.started _ _ at_).mpr (Nat.le_refl _)
      have three : toGo it = 3 := by rw [toGo, waiting]
      have now := left_set (u := { s.set s.started { it with pc := .running } with started := s.started + 1 }) at_
        rfl rfl
      rw [three] at now
      exact Nat.add_right_cancel (m := 2) now
    next => cases moved
  | returns i err =>
    simp only [Doing.step] at moved
    split at moved
    next tag at_ =>
      cases moved
      have now := left_set (u := s.set i ⟨tag, .sending (err.map fun cause => ⟨cause, tag⟩)⟩) at_ rfl rfl
      exact Nat.add_right_cancel (m := 1) now
    next => cases moved
  | send i =>
    simp only [Doing.step] at moved
    split at moved
    next tag e at_ =>
      obtain ⟨errCh, _, rfl⟩ := Option.map_eq_some_iff.mp moved
      exact left_set (u := { s.set i ⟨tag, .exited e⟩ with errCh }) at_ rfl rfl
    next => cases moved

/-- While `Do` has not returned, it or a goroutine can go on, unless every function that is left
is still running. -/
theorem Sound.goes_on (h : s.Sound) (unfinished : ¬ s.Finished) :
    (∃ e, (∀ i err, e ≠ .returns i err) ∧ (s.step e).isSome) ∨ ∃ it ∈ s.items, it.pc = .running := by
  by_cases all : s.started = s.items.length
  · by_cases running : ∃ it ∈ s.items, it.pc = .running
    · exact Or.inr running
    · left
      by_cases sending : ∃ (i : Nat) (tag : String) (e : Option TaggedError), s.items[i]? = some ⟨tag, .sending e⟩
      · obtain ⟨i, tag, e, at_⟩ := sending
        refine ⟨.send i, by simp, ?_⟩
        have room := h.room at_ rfl
        simp only [Doing.step, at_, Option.isSome_map, Channel.send, dif_neg room]
        rfl
      · have exited : s.results.length = s.items.length := by
          refine List.filterMap_length_eq_length.mpr fun it mem => ?_
          obtain ⟨i, at_⟩ := List.mem_iff_getElem?.mp mem
          have bound := (List.getElem?_eq_some_iff.mp at_).1
          obtain ⟨tag, pc⟩ := it
          cases pc with
          | waiting =>
            have late := (h.started i _ at_).mp rfl
            omega
          | running => exact (running ⟨_, mem, rfl⟩).elim
          | sending e => exact (sending ⟨i, tag, e, at_⟩).elim
          | exited e => rfl
        have length := h.results_length
        have more : s.received < s.items.length := by
          refine Nat.lt_of_le_of_ne (by omega) fun same => unfinished ⟨all, same⟩
        refine ⟨.receive, by simp, ?_⟩
        simp only [Doing.step, if_pos (And.intro all more), Option.isSome_map]
        cases received : s.errCh.receive with
        | some => rfl
        | none =>
          have nonempty : s.errCh.queue ≠ [] := by
            intro empty
            rw [empty, List.length_nil] at length
            omega
          unfold Channel.receive at received
          split at received
          next empty => exact absurd empty nonempty
          next => cases received
  · have more : s.started < s.items.length := Nat.lt_of_le_of_ne h.within all
    refine Or.inl ⟨.go, by simp, ?_⟩
    simp only [Doing.step, List.getElem?_eq_getElem more]
    rfl

theorem Sound.all_exited (h : s.Sound) (finished : s.Finished) :
    s.errCh.queue = [] ∧ ∀ it ∈ s.items, ∃ e, it.pc = .exited e := by
  obtain ⟨_, received⟩ := finished
  have length := h.results_length
  have most : s.results.length ≤ s.items.length := List.length_filterMap_le ..
  have exited : s.results.length = s.items.length := by omega
  refine ⟨List.eq_nil_of_length_eq_zero (by omega), fun it mem => ?_⟩
  have sent := List.filterMap_length_eq_length.mp exited it mem
  obtain ⟨tag, pc⟩ := it
  cases pc with
  | exited e => exact ⟨e, rfl⟩
  | waiting | running | sending => cases sent

end Doing

/-- What a function returned, under the tag of its item. -/
def Step.result (tags : List String) : Step → Option (Option TaggedError)
  | .returns i err => tags[i]?.map fun tag => err.map fun cause => ⟨cause, tag⟩
  | _ => none

def returned (tags : List String) (es : List Step) : List (Option TaggedError) :=
  es.filterMap (Step.result tags)

namespace Doing

variable {s t : Doing} {i : Nat} {it it' : Item} {tags : List String} {es : List Step}

/-- What `doOne` makes of the results, by item. -/
def outcomes (s : Doing) : List (Option TaggedError) := s.items.filterMap Item.outcome

/-- The goroutines hold what the functions have returned, each one once. -/
structure Recorded (tags : List String) (es : List Step) (s : Doing) : Prop where
  tagged : s.items.map Item.tag = tags
  outcomes : (returned tags es).Perm s.outcomes
  each : ∀ i, (∃ err, .returns i err ∈ es) ↔ ∃ it, s.items[i]? = some it ∧ it.outcome.isSome

theorem recorded_start (tags : List String) : Recorded tags [] (start tags) := by
  have waiting : ∀ it ∈ (start tags).items, it.outcome = none := by
    intro it mem
    obtain ⟨tag, _, rfl⟩ := List.mem_map.mp mem
    rfl
  refine ⟨?_, ?_, ?_⟩
  · rw [start, List.map_map]
    exact List.map_id tags
  · rw [Doing.outcomes, List.filterMap_eq_nil_iff.mpr waiting]
    exact List.Perm.refl _
  · intro i
    refine iff_of_false (by simp) fun held => ?_
    obtain ⟨it, found, some_outcome⟩ := held
    rw [waiting it (List.mem_of_getElem? found)] at some_outcome
    cases some_outcome

theorem map_set_same {α β : Type*} {f : α → β} {l : List α} {x y : α} (at_ : l[i]? = some x) (same : f y = f x) :
    (l.set i y).map f = l.map f := by
  rw [List.map_set, same, ← List.map_set]
  congr 1
  obtain ⟨bound, rfl⟩ := List.getElem?_eq_some_iff.mp at_
  exact List.set_getElem_self bound

theorem Recorded.set (h : Recorded tags es s) (at_ : s.items[i]? = some it) (tag : it'.tag = it.tag)
    (same : it'.outcome = it.outcome) : Recorded tags es (s.set i it') := by
  refine ⟨(map_set_same at_ tag).trans h.tagged, ?_, ?_⟩
  · rw [Doing.outcomes, Doing.set, filterMap_set_same at_ same]
    exact h.outcomes
  · intro j
    rw [h.each j]
    by_cases here : i = j
    · subst here
      rw [Doing.set, List.getElem?_set_self (List.getElem?_eq_some_iff.mp at_).1, at_]
      simp only [Option.some.injEq, exists_eq_left', same]
    · rw [Doing.set, List.getElem?_set_ne here]

theorem Recorded.quiet {e : Step} (h : Recorded tags es s) (no_return : ∀ i err, e ≠ .returns i err)
    (items : t.items = s.items) : Recorded tags (es ++ [e]) t := by
  have none : e.result tags = none := by
    cases e with
    | returns i err => exact absurd rfl (no_return i err)
    | go | send | receive => rfl
  refine ⟨by rw [items]; exact h.tagged, ?_, ?_⟩
  · rw [returned, List.filterMap_append, List.filterMap_cons_none none, List.filterMap_nil, List.append_nil,
      Doing.outcomes, items]
    exact h.outcomes
  · intro i
    rw [items, ← h.each i]
    simp only [List.mem_append, List.mem_singleton, (no_return i _).symm, or_false]

theorem Recorded.returns {tag : String} {err : Option String} (h : Recorded tags es s)
    (at_ : s.items[i]? = some ⟨tag, .running⟩) :
    Recorded tags (es ++ [.returns i err]) (s.set i ⟨tag, .sending (err.map fun cause => ⟨cause, tag⟩)⟩) := by
  have named : tags[i]? = some tag := by
    rw [← h.tagged, List.getElem?_map, at_]
    rfl
  have tagged : (s.set i ⟨tag, .sending (err.map fun cause => ⟨cause, tag⟩)⟩).items.map Item.tag =
    s.items.map Item.tag :=
    map_set_same at_ rfl
  refine ⟨tagged.trans h.tagged, ?_, ?_⟩
  · have result : Step.result tags (.returns i err) = some (err.map fun cause => ⟨cause, tag⟩) := by
      rw [Step.result, named, Option.map_some]
    rw [returned, List.filterMap_append, List.filterMap_cons_some result, List.filterMap_nil]
    have now : (_ :: s.outcomes).Perm
      (Doing.outcomes (s.set i ⟨tag, .sending (err.map fun cause => ⟨cause, tag⟩)⟩)) :=
      filterMap_set_perm at_ rfl rfl
    exact (List.perm_append_singleton ..).trans ((h.outcomes.cons _).trans now)
  · intro j
    by_cases here : i = j
    · subst here
      have now := List.getElem?_set_self (a := (⟨tag, .sending (err.map fun cause => ⟨cause, tag⟩)⟩ : Item))
        (List.getElem?_eq_some_iff.mp at_).1
      exact iff_of_true ⟨err, by simp⟩ ⟨_, now, rfl⟩
    · rw [Doing.set, List.getElem?_set_ne here, ← h.each j]
      simp only [List.mem_append, List.mem_singleton, Step.returns.injEq, Ne.symm here, false_and, or_false]

theorem Recorded.step {e : Step} (h : Recorded tags es s) (sound : s.Sound) (moved : s.step e = some t) :
    Recorded tags (es ++ [e]) t := by
  cases e with
  | go =>
    simp only [Doing.step] at moved
    split at moved
    next it at_ =>
      cases moved
      have waiting := (sound.started _ _ at_).mpr (Nat.le_refl _)
      have same : ({ it with pc := .running } : Item).outcome = it.outcome := by simp [Item.outcome, waiting]
      have begun : Recorded tags es (s.set s.started { it with pc := .running }) := h.set at_ rfl same
      exact begun.quiet (by simp) rfl
    next => cases moved
  | returns i err =>
    simp only [Doing.step] at moved
    split at moved
    next tag at_ =>
      cases moved
      exact h.returns at_
    next => cases moved
  | send i =>
    simp only [Doing.step] at moved
    split at moved
    next tag e at_ =>
      obtain ⟨errCh, _, rfl⟩ := Option.map_eq_some_iff.mp moved
      have sent : Recorded tags es (s.set i ⟨tag, .exited e⟩) := h.set at_ rfl rfl
      exact sent.quiet (by simp) rfl
    next => cases moved
  | receive =>
    obtain ⟨_, moved⟩ := Option.ite_none_right_eq_some.mp moved
    obtain ⟨r, _, rfl⟩ := Option.map_eq_some_iff.mp moved
    exact h.quiet (by simp) rfl

theorem recorded_of_run (reached : Runs.run step (start tags) es = some s) : Recorded tags es s := by
  refine Runs.history_of_run (I := Recorded tags) (fun es t e u before moved recorded => ?_) (recorded_start tags)
    reached
  exact recorded.step (sound_of_run before) moved

/-- Once `Do` has returned, every function has, and its errors are theirs, as they came. -/
theorem Recorded.collected (h : Recorded tags es s) (sound : s.Sound) (finished : s.Finished) :
    (∀ i < tags.length, ∃ err, .returns i err ∈ es) ∧ s.errs.Perm ((returned tags es).filterMap id) := by
  obtain ⟨empty, exited⟩ := sound.all_exited finished
  constructor
  · intro i bound
    have bound' : i < s.items.length := by rwa [← h.tagged, List.length_map] at bound
    have found := List.getElem?_eq_getElem bound'
    obtain ⟨e, pc⟩ := exited _ (List.getElem_mem bound')
    exact (h.each i).mpr ⟨_, found, by rw [Item.outcome, pc]; rfl⟩
  · have all : s.results = s.outcomes := by
      refine List.filterMap_congr fun it mem => ?_
      obtain ⟨e, pc⟩ := exited it mem
      rw [Item.sent, Item.outcome, pc]
    obtain ⟨got, _, errs, perm⟩ := sound.sent
    rw [empty, List.append_nil, all] at perm
    rw [errs]
    exact (perm.trans h.outcomes.symm).filterMap id

theorem length_of_run {tags : List String} {es : List Step} (reached : Runs.run step (start tags) es = some s) :
    es.length + s.left = 4 * tags.length := by
  have general : ∀ {es : List Step} {u : Doing}, u.Sound → Runs.run step u es = some s →
      es.length + s.left = u.left := by
    intro es
    induction es with
    | nil =>
      intro u _ ran
      cases Option.some.inj ran
      rw [List.length_nil, Nat.zero_add]
    | cons e es ih =>
      intro u sound ran
      obtain ⟨v, moved, ran⟩ := Runs.run_cons.mp ran
      have nearer := left_step sound moved
      have rest := ih (sound.step moved) ran
      rw [List.length_cons]
      omega
  have begin_ : (start tags).left = 4 * tags.length := by
    have three : (start tags).items.map toGo = tags.map fun _ => 3 := by
      rw [start, List.map_map]
      rfl
    have length : (start tags).items.length = tags.length := List.length_map _
    rw [left, three, length]
    show (tags.map fun _ => 3).sum + (tags.length - 0) = _
    rw [List.map_const', List.sum_replicate_nat]
    omega
  exact (general (sound_start tags) reached).trans begin_

/-- In whatever order the functions return and the goroutines get to run, `Do` never deadlocks, it
returns after four steps for each function, once every one has returned, and with the errors of those
that failed. -/
theorem do_collects (reached : Runs.run step (start tags) es = some s) :
    es.length ≤ 4 * tags.length ∧
      (¬ s.Finished → (∃ e, (∀ i err, e ≠ .returns i err) ∧ (s.step e).isSome) ∨ ∃ it ∈ s.items, it.pc = .running) ∧
      (s.Finished → (∀ it ∈ s.items, ∃ e, it.pc = .exited e) ∧ (∀ i < tags.length, ∃ err, .returns i err ∈ es) ∧
        s.errs.Perm ((returned tags es).filterMap id)) := by
  have sound := sound_of_run reached
  have length := length_of_run reached
  refine ⟨by omega, sound.goes_on, fun finished => ?_⟩
  exact ⟨(sound.all_exited finished).2, (recorded_of_run reached).collected sound finished⟩

/-- The second of two functions fails before the first one returns. -/
def secondFails : List Step :=
  [.go, .go, .returns 1 (some "fault"), .send 1, .receive, .returns 0 none, .send 0, .receive]

theorem do_collects_secondFails :
    ∃ s, Runs.run step (start ["first", "second"]) secondFails = some s ∧ s.errs = [⟨"fault", "second"⟩] ∧
      s.errs.Perm ((returned ["first", "second"] secondFails).filterMap id) := by
  let last : Doing :=
    { items := [⟨"first", .exited none⟩, ⟨"second", .exited (some ⟨"fault", "second"⟩)⟩]
      errCh := .make 2, started := 2, received := 2, errs := [⟨"fault", "second"⟩] }
  have run : Runs.run step (start ["first", "second"]) secondFails = some last := rfl
  exact ⟨last, run, rfl, ((do_collects run).2.2 ⟨rfl, rfl⟩).2.2⟩

end Doing

end ActionList

/-- What the subsystems registered, by tag. -/
structure Lifecycle where
  onValidate : List String := []
  onStart : List String := []
  onStop : List String := []

/-- `main` up to its event loop. -/
inductive Startup
  | validating (v : ActionList.Doing)
  /-- all systems are valid, the MDB device is to be opened -/
  | opening (v : ActionList.Doing)
  | starting (v d : ActionList.Doing)
  | running (v d : ActionList.Doing)
  /-- `log.Fatal`, with the call of `Do` that brought errors -/
  | fatal (failed : Option ActionList.Doing)

inductive StartupStep
  | act (e : ActionList.Step)
  | fold
  | newMDB (err : Option String)

namespace Startup

open ActionList (Doing)

def begin_ (l : Lifecycle) : Startup := .validating (.start l.onValidate)

def step (errorStack : TaggedError → String) (l : Lifecycle) : Startup → StartupStep → Option Startup
  | .validating v, .act e => (v.step e).map .validating
  | .validating v, .fold =>
    if v.Finished then
      match foldErrors errorStack (v.errs.map some) with
      | none => some (.opening v)
      | some _ => some (.fatal (some v))
    else none
  | .opening v, .newMDB none => some (.starting v (.start l.onStart))
  | .opening _, .newMDB (some _) => some (.fatal none)
  | .starting v d, .act e => (d.step e).map (.starting v)
  | .starting v d, .fold =>
    if d.Finished then
      match foldErrors errorStack (d.errs.map some) with
      | none => some (.running v d)
      | some _ => some (.fatal (some d))
    else none
  | _, _ => none

/-- The functions of a call of `Do` have all returned, and none with an error. -/
def Passed (tags : List String) (as : List ActionList.Step) : Prop :=
  (∀ i < tags.length, .returns i none ∈ as) ∧ ∀ i cause, .returns i (some cause) ∉ as

/-- A function has returned an error. -/
def Failed (as : List ActionList.Step) : Prop := ∃ i cause, .returns i (some cause) ∈ as

/-- What has happened before `main` stands where it does: the functions that it validates with have
all returned without an error before it opens the MDB, that succeeds before the first `Start` function
is begun, and these have all returned without an error before it goes on. It gives up only with the
error of a function, in the phase of that function, or of the MDB. -/
def InOrder (l : Lifecycle) (es : List StartupStep) : Startup → Prop
  | .validating v => ∃ vs, es = vs.map .act ∧ Runs.run Doing.step (.start l.onValidate) vs = some v
  | .opening _ => ∃ vs, es = vs.map .act ++ [.fold] ∧ Passed l.onValidate vs
  | .starting _ d => ∃ vs ds, es = vs.map .act ++ [.fold, .newMDB none] ++ ds.map .act ∧
      Passed l.onValidate vs ∧ Runs.run Doing.step (.start l.onStart) ds = some d
  | .running _ _ => ∃ vs ds, es = vs.map .act ++ [.fold, .newMDB none] ++ ds.map .act ++ [.fold] ∧
      Passed l.onValidate vs ∧ Passed l.onStart ds
  | .fatal none => ∃ vs msg, es = vs.map .act ++ [.fold, .newMDB (some msg)] ∧ Passed l.onValidate vs
  | .fatal (some d) =>
    (∃ vs, es = vs.map .act ++ [.fold] ∧ Runs.run Doing.step (.start l.onValidate) vs = some d ∧ d.Finished ∧
      Failed vs) ∨
    ∃ vs ds, es = vs.map .act ++ [.fold, .newMDB none] ++ ds.map .act ++ [.fold] ∧ Passed l.onValidate vs ∧
      Runs.run Doing.step (.start l.onStart) ds = some d ∧ d.Finished ∧ Failed ds

variable {errorStack : TaggedError → String} {l : Lifecycle} {s t : Startup} {es : List StartupStep}

end Startup

end Vender
