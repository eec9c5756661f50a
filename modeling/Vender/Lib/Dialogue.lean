import Vender.Lib.Runs
import Mathlib.Logic.Function.Basic

/-- A program that asks, goes on as it is answered, and is done or breaks off in the end. -/
inductive Dialogue (Q A R : Type*)
  | done (r : R)
  | broken
  | ask (q : Q) (go : A → Dialogue Q A R)

namespace Dialogue

universe u

variable {Q A δ σ ι κ : Type*} {R S : Type u}

protected def bind : Dialogue Q A R → (R → Dialogue Q A S) → Dialogue Q A S
  | done r, k => k r
  | broken, _ => broken
  | ask q go, k => ask q fun a => (go a).bind k

instance : Monad (Dialogue Q A) where
  pure := done
  bind := Dialogue.bind

@[simp] theorem pure_eq (r : R) : (pure r : Dialogue Q A R) = done r := rfl

@[simp] theorem done_bind (r : R) (k : R → Dialogue Q A S) : done r >>= k = k r := rfl

@[simp] theorem broken_bind (k : R → Dialogue Q A S) : broken >>= k = broken := rfl

@[simp] theorem ask_bind (q : Q) (go : A → Dialogue Q A R) (k : R → Dialogue Q A S) :
    ask q go >>= k = ask q fun a => go a >>= k := rfl

/-- Every question is one with `P`, whatever was answered. -/
def Asks (P : Q → Prop) : Dialogue Q A R → Prop
  | done _ => True
  | broken => True
  | ask q go => P q ∧ ∀ a, (go a).Asks P

/-- Every question is one with `P`, and it breaks off at an answer without `ok` only. -/
def Stays (P : Q → Prop) (ok : A → Prop) : Dialogue Q A R → Prop
  | done _ => True
  | broken => False
  | ask q go => P q ∧ ∀ a, (go a).Stays P ok ∨ ¬ok a ∧ go a = broken

/-- Every question is allowed by what was said before it, and for all that was said the result is
as `post` has it, or breaking off as `breaks` has it. -/
def Meets (allowed : List (Q × A) → Q → Prop) (breaks : List (Q × A) → Prop) (post : List (Q × A) → R → Prop) :
    List (Q × A) → Dialogue Q A R → Prop
  | before, done r => post before r
  | before, broken => breaks before
  | before, ask q go => allowed before q ∧ ∀ a, Meets allowed breaks post (before ++ [(q, a)]) (go a)

theorem Asks.bind {P : Q → Prop} {d : Dialogue Q A R} {k : R → Dialogue Q A S} (first : d.Asks P)
    (rest : ∀ r, (k r).Asks P) : (d >>= k).Asks P := by
  induction d with
  | done r => exact rest r
  | broken => trivial
  | ask q go ih => exact ⟨first.1, fun a => ih a (first.2 a)⟩

theorem Stays.bind {P : Q → Prop} {ok : A → Prop} {d : Dialogue Q A R} {k : R → Dialogue Q A S} (first : d.Stays P ok)
    (rest : ∀ r, (k r).Stays P ok) : (d >>= k).Stays P ok := by
  induction d with
  | done r => exact rest r
  | broken => exact first.elim
  | ask q go ih =>
    refine ⟨first.1, fun a => ?_⟩
    rcases first.2 a with on | ⟨wrong, breaks⟩
    · exact Or.inl (ih a on)
    · refine Or.inr ⟨wrong, ?_⟩
      show go a >>= k = broken
      rw [breaks, broken_bind]

variable {allowed : List (Q × A) → Q → Prop} {breaks : List (Q × A) → Prop} {post : List (Q × A) → R → Prop}

theorem Meets.bind {d : Dialogue Q A R} {k : R → Dialogue Q A S} {post' : List (Q × A) → S → Prop}
    {before : List (Q × A)}
    (first : d.Meets allowed breaks post before)
    (rest : ∀ said r, post said r → (k r).Meets allowed breaks post' said) :
    (d >>= k).Meets allowed breaks post' before := by
  induction d generalizing before with
  | done r => exact rest before r first
  | broken => exact first
  | ask q go ih => exact ⟨first.1, fun a => ih a (first.2 a)⟩

/-- Where a dialogue stands when so much was said. -/
inductive Reaches (d : Dialogue Q A R) : List (Q × A) → Dialogue Q A R → Prop
  | start : Reaches d [] d
  | asked {said : List (Q × A)} {q : Q} {go : A → Dialogue Q A R} (before : Reaches d said (ask q go)) (a : A) :
      Reaches d (said ++ [(q, a)]) (go a)

/-- What has been said was allowed at each place, and the rest ends as promised. -/
theorem Meets.reaches {d e : Dialogue Q A R} {before said : List (Q × A)} (meets : d.Meets allowed breaks post before)
    (reaches : d.Reaches said e) :
    e.Meets allowed breaks post (before ++ said) ∧
      ∀ pre q a rest, said = pre ++ (q, a) :: rest → allowed (before ++ pre) q := by
  induction reaches with
  | start =>
    constructor
    · rw [List.append_nil]
      exact meets
    · intro pre q a rest split
      simp at split
  | @asked said q go _ a ih =>
    obtain ⟨ask, earlier⟩ := ih
    constructor
    · have next := ask.2 a
      rw [List.append_assoc] at next
      exact next
    · intro pre q' a' rest split
      rcases List.eq_nil_or_concat rest with rfl | ⟨front, x, rfl⟩
      · obtain ⟨rfl, last⟩ := List.append_inj' split rfl
        obtain ⟨same, -⟩ := Prod.mk.inj (List.singleton_inj.mp last)
        exact same ▸ ask.1
      · rw [List.concat_eq_append, ← List.cons_append, ← List.append_assoc] at split
        exact earlier pre q' a' front (List.append_inj' split rfl).1

theorem reaches_done {r : R} {said : List (Q × A)} {e : Dialogue Q A R}
    (reaches : (done r).Reaches said e) : e = done r := by
  induction reaches with
  | start => rfl
  | asked before a ih => cases ih

theorem silent_of_done {r : R} {said : List (Q × A)} {e : Dialogue Q A R}
    (reaches : (done r).Reaches said e) : said = [] := by
  cases reaches with
  | start => rfl
  | asked before a => cases reaches_done before

/-- Those who are asked: who a question is for, and what it makes of them. -/
structure Bus (Q A δ σ : Type*) where
  address : Q → δ
  respond : δ → σ → Q → A × σ

structure Played (Q A R δ σ : Type*) where
  result : Option R
  peers : δ → σ
  said : List (Q × A)

section Play

variable [DecidableEq δ] (b : Bus Q A δ σ)

/-- A dialogue with the bus to itself. -/
def play : Dialogue Q A R → (δ → σ) → Played Q A R δ σ
  | done r, peers => ⟨some r, peers, []⟩
  | broken, peers => ⟨none, peers, []⟩
  | ask q go, peers =>
    let (a, peer) := b.respond (b.address q) (peers (b.address q)) q
    let rest := play (go a) (Function.update peers (b.address q) peer)
    { rest with said := (q, a) :: rest.said }

/-- What is said is allowed at each place, and the dialogue ends as promised. -/
theorem Meets.play {d : Dialogue Q A R} {before : List (Q × A)}
    (meets : d.Meets allowed breaks post before) (peers : δ → σ) :
    (∀ pre q a rest, (d.play b peers).said = pre ++ (q, a) :: rest → allowed (before ++ pre) q) ∧
      match (d.play b peers).result with
      | some r => post (before ++ (d.play b peers).said) r
      | none => breaks (before ++ (d.play b peers).said) := by
  induction d generalizing before peers with
  | done r =>
    constructor
    · intro pre q a rest said
      simp [Dialogue.play] at said
    · show post (before ++ []) r
      rw [List.append_nil]
      exact meets
  | broken =>
    constructor
    · intro pre q a rest said
      simp [Dialogue.play] at said
    · show breaks (before ++ [])
      rw [List.append_nil]
      exact meets
  | ask q go ih =>
    obtain ⟨said, ended⟩ := ih _ (meets.2 _)
      (Function.update peers (b.address q) (b.respond (b.address q) (peers (b.address q)) q).2)
    constructor
    · intro pre q' a rest split
      dsimp only [Dialogue.play] at split
      cases pre with
      | nil =>
        obtain ⟨head, -⟩ := List.cons.inj split
        rw [List.append_nil, ← (Prod.mk.inj head).1]
        exact meets.1
      | cons x pre =>
        obtain ⟨rfl, tail⟩ := List.cons.inj split
        have later := said pre q' a rest tail
        rwa [List.append_assoc] at later
    · dsimp only [Dialogue.play]
      simp only [List.append_assoc, List.singleton_append] at ended
      exact ended

end Play

/-- Dialogues that share a bus, each question and its answer in one. -/
structure Threads (ι Q A R δ σ : Type*) where
  threads : ι → Dialogue Q A R
  peers : δ → σ
  said : List (ι × Q × A) := []

namespace Threads

variable [DecidableEq δ] [DecidableEq ι] {b : Bus Q A δ σ} {owner : ι → κ} {home : δ → κ}
  {s t : Threads ι Q A R δ σ} {i : ι} {k : κ}

def step (b : Bus Q A δ σ) (s : Threads ι Q A R δ σ) (i : ι) : Option (Threads ι Q A R δ σ) :=
  match s.threads i with
  | done _ => none
  | broken => none
  | ask q go =>
    let (a, peer) := b.respond (b.address q) (s.peers (b.address q)) q
    some {
      threads := Function.update s.threads i (go a)
      peers := Function.update s.peers (b.address q) peer
      said := s.said ++ [(i, q, a)] }

theorem step_cases (h : step b s i = some t) :
    ∃ q go, s.threads i = ask q go ∧
      t = { threads := Function.update s.threads i (go (b.respond (b.address q) (s.peers (b.address q)) q).1)
            peers := Function.update s.peers (b.address q) (b.respond (b.address q) (s.peers (b.address q)) q).2
            said := s.said ++ [(i, q, (b.respond (b.address q) (s.peers (b.address q)) q).1)] } := by
  unfold step at h
  split at h
  · cases h
  · cases h
  next q go at_ => exact ⟨q, go, at_, (Option.some.inj h).symm⟩

theorem step_ask {q : Q} {go : A → Dialogue Q A R} (at_ : s.threads i = ask q go) :
    step b s i = some
      { threads := Function.update s.threads i (go (b.respond (b.address q) (s.peers (b.address q)) q).1)
        peers := Function.update s.peers (b.address q) (b.respond (b.address q) (s.peers (b.address q)) q).2
        said := s.said ++ [(i, q, (b.respond (b.address q) (s.peers (b.address q)) q).1)] } := by
  rw [step, at_]

/-- Every thread asks at home only. -/
def Placed (b : Bus Q A δ σ) (owner : ι → κ) (home : δ → κ) (s : Threads ι Q A R δ σ) : Prop :=
  ∀ i, (s.threads i).Asks fun q => home (b.address q) = owner i

theorem Placed.step (placed : Placed b owner home s) (h : step b s i = some t) : Placed b owner home t := by
  obtain ⟨q, go, at_, rfl⟩ := step_cases h
  intro j
  dsimp only
  by_cases here : j = i
  · rw [here, Function.update_self]
    have asks := placed i
    rw [at_] at asks
    exact asks.2 _
  · rw [Function.update_of_ne here]
    exact placed j

variable [DecidableEq κ]

/-- The same to the owner `k`, with what the others say left out of the second. -/
structure Agree (owner : ι → κ) (home : δ → κ) (k : κ) (s t : Threads ι Q A R δ σ) : Prop where
  threads : ∀ i, owner i = k → t.threads i = s.threads i
  peers : ∀ x, home x = k → t.peers x = s.peers x
  said : t.said = s.said.filter fun x => owner x.1 = k

/-- What another owner does leaves all alone that is not its owner. -/
theorem Agree.other {x : Threads ι Q A R δ σ} (agree : Agree owner home k s x) (placed : Placed b owner home s)
    (h : step b s i = some t) (other : owner i ≠ k) : Agree owner home k t x := by
  obtain ⟨q, go, at_, rfl⟩ := step_cases h
  have asks := placed i
  rw [at_] at asks
  have away : home (b.address q) = owner i := asks.1
  constructor
  · intro j mine
    have apart : j ≠ i := fun same => other (same ▸ mine)
    dsimp only
    rw [Function.update_of_ne apart]
    exact agree.threads j mine
  · intro y mine
    have apart : y ≠ b.address q := fun same => other (away ▸ same ▸ mine)
    dsimp only
    rw [Function.update_of_ne apart]
    exact agree.peers y mine
  · rw [agree.said, List.filter_append]
    simp [other]

/-- What the owner does, it does alone as well. -/
theorem Agree.mine {x : Threads ι Q A R δ σ} (agree : Agree owner home k s x) (placed : Placed b owner home s)
    (h : step b s i = some t) (mine : owner i = k) : ∃ y, step b x i = some y ∧ Agree owner home k t y := by
  obtain ⟨q, go, at_, rfl⟩ := step_cases h
  have asks := placed i
  rw [at_] at asks
  have near : home (b.address q) = k := asks.1.trans mine
  refine ⟨_, step_ask ((agree.threads i mine).trans at_), ?_⟩
  rw [agree.peers _ near]
  constructor
  · intro j owned
    dsimp only
    by_cases here : j = i
    · rw [here, Function.update_self, Function.update_self]
    · rw [Function.update_of_ne here, Function.update_of_ne here]
      exact agree.threads j owned
  · intro y owned
    dsimp only
    by_cases here : y = b.address q
    · rw [here, Function.update_self, Function.update_self]
    · rw [Function.update_of_ne here, Function.update_of_ne here]
      exact agree.peers y owned
  · rw [agree.said, List.filter_append]
    simp [mine]

/-- Without the moves of all the others, in the same order, a run is the same to an owner. -/
theorem purge {is : List ι} {x : Threads ι Q A R δ σ} (run : Runs.run (step b) s is = some t)
    (placed : Placed b owner home s)
    (agree : Agree owner home k s x) :
    ∃ y, Runs.run (step b) x (is.filter fun i => owner i = k) = some y ∧ Agree owner home k t y := by
  have refined : ∃ y, Runs.run (step b) x (is.filterMap (Option.guard fun i => owner i = k)) = some y ∧
      (Placed b owner home t ∧ Agree owner home k t y) := by
    refine Runs.refines_run (C := fun _ _ _ => True) (R := fun s x => Placed b owner home s ∧ Agree owner home k s x)
      ?_ ?_ run (Runs.along_true _ _) ⟨placed, agree⟩
    · intro s i t x moved _ unseen related
      have other : owner i ≠ k := by simpa [Option.guard] using unseen
      exact ⟨related.1.step moved, related.2.other related.1 moved other⟩
    · intro s i t j x moved _ seen related
      obtain ⟨rfl, mine⟩ : i = j ∧ owner i = k := by simpa [Option.guard, and_comm] using seen
      obtain ⟨y, moved', agree⟩ := related.2.mine related.1 moved mine
      exact ⟨y, moved', related.1.step moved, agree⟩
  obtain ⟨y, ran, -, agree⟩ := refined
  rw [List.filterMap_eq_filter] at ran
  exact ⟨y, ran, agree⟩

/-- A thread that moves alone is playing. -/
theorem play_of_run {is : List ι} (only : ∀ j ∈ is, j = i) (run : Runs.run (step b) s is = some t) :
    ∃ said, t.said = s.said ++ said.map (Prod.mk i) ∧
      (s.threads i).play b s.peers =
        { (t.threads i).play b t.peers with said := said ++ ((t.threads i).play b t.peers).said } := by
  induction is generalizing s with
  | nil =>
    cases Option.some.inj run
    exact ⟨[], by simp, rfl⟩
  | cons j is ih =>
    obtain ⟨rfl, later⟩ := List.forall_mem_cons.mp only
    obtain ⟨u, moved, run⟩ := Runs.run_cons.mp run
    obtain ⟨q, go, at_, rfl⟩ := step_cases moved
    obtain ⟨said, grown, played⟩ := ih later run
    refine ⟨(q, (b.respond (b.address q) (s.peers (b.address q)) q).1) :: said, ?_, ?_⟩
    · rw [grown]
      simp
    · rw [at_]
      dsimp only [play]
      dsimp only at played
      rw [Function.update_self] at played
      rw [played]
      rfl

end Threads

/-- Those who are asked over one line get each question as if there were no line. -/
def Carries {τ : Type*} (b : Bus Q A δ σ) (carry : δ → τ → σ → Q → A × σ × τ) : Prop :=
  ∀ x line peer q, ((carry x line peer q).1, (carry x line peer q).2.1) = b.respond x peer q

/-- Dialogues that share one line, with its own state. -/
structure Lined (ι Q A R δ σ τ : Type*) extends Threads ι Q A R δ σ where
  line : τ

namespace Lined

variable {τ : Type*} [DecidableEq δ] [DecidableEq ι] {b : Bus Q A δ σ} {carry : δ → τ → σ → Q → A × σ × τ}
  {s t : Lined ι Q A R δ σ τ} {is : List ι}

def step (address : Q → δ) (carry : δ → τ → σ → Q → A × σ × τ) (s : Lined ι Q A R δ σ τ) (i : ι) :
    Option (Lined ι Q A R δ σ τ) :=
  match s.threads i with
  | done _ => none
  | broken => none
  | ask q go =>
    let (a, peer, line) := carry (address q) s.line (s.peers (address q)) q
    some {
      threads := Function.update s.threads i (go a)
      peers := Function.update s.peers (address q) peer
      said := s.said ++ [(i, q, a)]
      line }

theorem step_toThreads (carries : Carries b carry) (s : Lined ι Q A R δ σ τ) (i : ι) :
    (step b.address carry s i).map toThreads = Threads.step b s.toThreads i := by
  cases at_ : s.threads i with
  | done r => simp [step, Threads.step, at_]
  | broken => simp [step, Threads.step, at_]
  | ask q go =>
    have told := carries (b.address q) s.line (s.peers (b.address q)) q
    rw [Threads.step_ask at_, ← told]
    simp only [step, at_, Option.map_some]

/-- Over such a line the dialogues run as they do without it. -/
theorem run_toThreads (carries : Carries b carry) (s : Lined ι Q A R δ σ τ) (is : List ι) :
    (Runs.run (step b.address carry) s is).map toThreads = Runs.run (Threads.step b) s.toThreads is := by
  induction is generalizing s with
  | nil => rfl
  | cons i is ih =>
    have first := step_toThreads carries s i
    rw [Runs.run, Runs.run, ← first]
    cases step b.address carry s i with
    | none => rfl
    | some t => exact ih t

end Lined

end Dialogue
