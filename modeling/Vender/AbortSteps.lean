import Vender.Abort
import Vender.Lib.Runs

namespace Vender

/-- The locals of a running `Abort` and `Dispense`: the total read at the start,
the nominals the range has yet to visit and the sum so far. -/
structure Walk where
  total : Amount
  rest : List Nominal
  sum : Amount

inductive AbortPc
  | entered
  | walking (w : Walk)
  | awaitDispense (w : Walk) (nominal : Nominal) (count : UInt64) (request : UInt8)
  | sending (w : Walk) (nominal : Nominal) (count : UInt64) (request : UInt8)
  | awaitReady (w : Walk) (err : Option DispenseError)
  | clearing (total coinsReturned : Amount)
  | subtracting (total coinsReturned : Amount)
  | returned (total coinsReturned : Amount) (err : Option AbortError)

/-- An `Abort` between two of its atomic steps, with what it shares. -/
structure Aborting where
  pc : AbortPc
  credit : NominalGroup
  requests : List (UInt8 × Option TxError)

inductive AbortStep
  | readTotal (totalRange iterRange : List Nominal)
  | visit
  | ready
  | tx (outcome : Option TxError)
  | clear
  | subtract

namespace AbortPc

def waitsReady : AbortPc → Bool
  | .awaitDispense _ _ _ _ => true
  | .awaitReady _ _ => true
  | _ => false

def paying : AbortPc → Bool
  | .awaitDispense _ _ _ _ => true
  | .sending _ _ _ _ => true
  | .awaitReady _ _ => true
  | _ => false

def midway : AbortPc → Bool
  | .entered => false
  | .subtracting _ _ => false
  | .returned _ _ _ => false
  | _ => true

def next : AbortPc → Option Nominal
  | .walking w => w.rest.head?
  | _ => none

/-- A DISPENSE that `Dispense` is about to report as failed. -/
def refused : AbortPc → Bool
  | .awaitReady _ (some _) => true
  | _ => false

end AbortPc

namespace Aborting

def visit (hw : CoinAcceptor) (credit : NominalGroup) (w : Walk) : AbortPc :=
  match w.rest with
  | [] => .clearing w.total w.sum
  | n :: rest =>
    if credit.values n = 0 then .walking { w with rest }
    else
      match hw.dispenseRequest n (credit.values n).toUInt8 with
      | .error err => .awaitReady { w with rest } (some err)
      | .ok request => .awaitDispense { w with rest } n (credit.values n) request

/-- The atomic steps of `Abort`, `Dispense` and `CommandDispense`. -/
def step (hw : CoinAcceptor) (a : Aborting) (e : AbortStep) : Option Aborting :=
  match a.pc, e with
  | .entered, .readTotal totalRange iterRange =>
    if a.credit.IsRange totalRange ∧ a.credit.IsRange iterRange then
      some { a with pc := .walking { total := a.credit.total totalRange, rest := iterRange, sum := 0 } }
    else none
  | .walking w, .visit => some { a with pc := visit hw a.credit w }
  | .awaitDispense w n count request, .ready => some { a with pc := .sending w n count request }
  | .sending w n count request, .tx outcome =>
    let requests := a.requests ++ [(request, outcome)]
    match outcome with
    | none => some { a with requests, pc := .awaitReady { w with sum := w.sum + n * count.toUInt32 } none }
    | some err => some { a with requests, pc := .awaitReady w (some (.tx err)) }
  | .awaitReady w none, .ready => some { a with pc := .walking w }
  | .awaitReady w (some err), .ready => some { a with pc := .returned w.total w.sum (some (.dispense err)) }
  | .clearing total coinsReturned, .clear =>
    some { a with credit := a.credit.clear, pc := .subtracting total coinsReturned }
  | .subtracting total coinsReturned, .subtract =>
    let left := total - coinsReturned
    some { a with pc := .returned total coinsReturned (if 0 < left then some (.yetToReturn left) else none) }
  | _, _ => none

/-- What a step can do, one case for each branch of the code. -/
inductive Took (hw : CoinAcceptor) : Aborting → AbortStep → Aborting → Prop
  | readTotal {credit log totalRange iterRange} (ht : credit.IsRange totalRange) (hi : credit.IsRange iterRange) :
      Took hw ⟨.entered, credit, log⟩ (.readTotal totalRange iterRange)
        ⟨.walking ⟨credit.total totalRange, iterRange, 0⟩, credit, log⟩
  | finish {credit log total sum} :
      Took hw ⟨.walking ⟨total, [], sum⟩, credit, log⟩ .visit ⟨.clearing total sum, credit, log⟩
  | skip {credit log total sum n rest} (zero : credit.values n = 0) :
      Took hw ⟨.walking ⟨total, n :: rest, sum⟩, credit, log⟩ .visit ⟨.walking ⟨total, rest, sum⟩, credit, log⟩
  | refuse {credit log total sum n rest err} (some : credit.values n ≠ 0)
      (request : hw.dispenseRequest n (credit.values n).toUInt8 = .error err) :
      Took hw ⟨.walking ⟨total, n :: rest, sum⟩, credit, log⟩ .visit
        ⟨.awaitReady ⟨total, rest, sum⟩ (.some err), credit, log⟩
  | request {credit log total sum n rest request} (some : credit.values n ≠ 0)
      (request_ok : hw.dispenseRequest n (credit.values n).toUInt8 = .ok request) :
      Took hw ⟨.walking ⟨total, n :: rest, sum⟩, credit, log⟩ .visit
        ⟨.awaitDispense ⟨total, rest, sum⟩ n (credit.values n) request, credit, log⟩
  | send {credit log w n count request} :
      Took hw ⟨.awaitDispense w n count request, credit, log⟩ .ready ⟨.sending w n count request, credit, log⟩
  | accept {credit log total sum n rest count request} :
      Took hw ⟨.sending ⟨total, rest, sum⟩ n count request, credit, log⟩ (.tx none)
        ⟨.awaitReady ⟨total, rest, sum + n * count.toUInt32⟩ none, credit, log ++ [(request, none)]⟩
  | fail {credit log w n count request err} :
      Took hw ⟨.sending w n count request, credit, log⟩ (.tx (some err))
        ⟨.awaitReady w (some (.tx err)), credit, log ++ [(request, some err)]⟩
  | resume {credit log w} : Took hw ⟨.awaitReady w none, credit, log⟩ .ready ⟨.walking w, credit, log⟩
  | giveUp {credit log w err} :
      Took hw ⟨.awaitReady w (some err), credit, log⟩ .ready
        ⟨.returned w.total w.sum (some (.dispense err)), credit, log⟩
  | clear {credit log total coinsReturned} :
      Took hw ⟨.clearing total coinsReturned, credit, log⟩ .clear
        ⟨.subtracting total coinsReturned, credit.clear, log⟩
  | subtract {credit log total coinsReturned} :
      Took hw ⟨.subtracting total coinsReturned, credit, log⟩ .subtract
        ⟨.returned total coinsReturned
          (if 0 < total - coinsReturned then some (.yetToReturn (total - coinsReturned)) else none), credit, log⟩

theorem took_of_step {hw : CoinAcceptor} {a b : Aborting} {e : AbortStep} (h : step hw a e = some b) :
    Took hw a e b := by
  obtain ⟨pc, credit, log⟩ := a
  unfold step at h
  split at h
  next totalRange iterRange hpc =>
    cases hpc
    split at h
    next ranges => cases h; exact .readTotal ranges.1 ranges.2
    next => cases h
  next w hpc =>
    cases hpc
    cases h
    obtain ⟨total, rest, sum⟩ := w
    unfold visit
    cases rest with
    | nil => exact .finish
    | cons n rest =>
      dsimp only
      split
      next zero => exact .skip zero
      next nonzero =>
        split
        next err refused => exact .refuse nonzero refused
        next request ok => exact .request nonzero ok
  next hpc => cases hpc; cases h; exact .send
  next w n count request outcome hpc =>
    cases hpc
    cases outcome with
    | none => cases h; exact .accept
    | some err => cases h; exact .fail
  next hpc => cases hpc; cases h; exact .resume
  next hpc => cases hpc; cases h; exact .giveUp
  next hpc => cases hpc; cases h; exact .clear
  next hpc => cases hpc; cases h; exact .subtract
  next => cases h

theorem Took.credit {hw : CoinAcceptor} {a b : Aborting} {e : AbortStep} (h : Took hw a e b) :
    b.credit.nominals = a.credit.nominals ∧ (∀ n, b.credit.values n ≠ 0 → a.credit.values n ≠ 0) ∧
      (b.pc.paying = true → a.pc.paying = true ∨ ∃ n, a.credit.values n ≠ 0) := by
  cases h with
  | refuse nonzero => exact ⟨rfl, fun _ h => h, fun _ => Or.inr ⟨_, nonzero⟩⟩
  | request nonzero => exact ⟨rfl, fun _ h => h, fun _ => Or.inr ⟨_, nonzero⟩⟩
  | clear => exact ⟨rfl, fun _ h => absurd rfl h, fun h => by cases h⟩
  | _ => exact ⟨rfl, fun _ h => h, fun h => by first | cases h; done | exact Or.inl rfl⟩

theorem step_of_waitsReady {hw : CoinAcceptor} {a : Aborting} (h : a.pc.waitsReady = true) {e : AbortStep}
    (other : e ≠ .ready) : step hw a e = none := by
  cases hs : step hw a e with
  | none => rfl
  | some b =>
    cases took_of_step hs with
    | send => exact absurd rfl other
    | resume => exact absurd rfl other
    | giveUp => exact absurd rfl other
    | _ => cases h

/-- With nobody else writing the credit, `Dispense` has come as far as `seen` in
the range order of `env`. -/
structure Reached (hw : CoinAcceptor) (credit : NominalGroup) (requests : List (UInt8 × Option TxError))
    (total sum : Amount) (seen rest : List Nominal) (err : Option DispenseError)
    (env : MoneySystem.AbortEnv) : Prop where
  totalRange : credit.IsRange env.totalRange
  iterRange : credit.IsRange env.iterRange
  order : env.iterRange = seen ++ rest
  total_read : total = credit.total env.totalRange
  dispensed : credit.iter (CoinState.dispenseVisit hw env.tx) seen {} = (⟨sum, requests⟩, err)

def Follows (hw : CoinAcceptor) (credit : NominalGroup) (a : Aborting) : Prop :=
  match a.pc with
  | .entered => a.credit = credit ∧ a.requests = []
  | .walking w => a.credit = credit ∧ ∃ seen env, Reached hw credit a.requests w.total w.sum seen w.rest none env
  | .awaitDispense w n count request | .sending w n count request =>
    a.credit = credit ∧ (∃ seen env, Reached hw credit a.requests w.total w.sum seen (n :: w.rest) none env) ∧
      count = credit.values n ∧ count ≠ 0 ∧ hw.dispenseRequest n count.toUInt8 = .ok request
  | .awaitReady w err => a.credit = credit ∧ ∃ seen env,
    Reached hw credit a.requests w.total w.sum seen w.rest err env
  | .clearing total coinsReturned =>
    a.credit = credit ∧ ∃ env, Reached hw credit a.requests total coinsReturned env.iterRange [] none env
  | .subtracting total coinsReturned =>
    a.credit = credit.clear ∧
      ∃ env, Reached hw credit a.requests total coinsReturned env.iterRange [] none env
  | .returned _ _ err => ∃ env, credit.IsRange env.totalRange ∧ credit.IsRange env.iterRange ∧
      MoneySystem.abort hw env credit = ⟨a.credit, a.requests, err⟩

theorem Reached.next {hw : CoinAcceptor} {credit : NominalGroup} {requests : List (UInt8 × Option TxError)}
    {total sum sum' : Amount} {seen rest : List Nominal} {n : Nominal} {env : MoneySystem.AbortEnv}
    (h : Reached hw credit requests total sum seen (n :: rest) none env) (outcome : Option TxError)
    {sent : List (UInt8 × Option TxError)} {err : Option DispenseError}
    (visit : ∀ tx, tx n = outcome →
      CoinState.dispenseVisit hw tx n (credit.values n) ⟨sum, requests⟩ = (⟨sum', sent⟩, err)) :
    ∃ seen env, Reached hw credit sent total sum' seen rest err env := by
  have fresh : n ∉ seen := by
    have nodup := h.order ▸ h.iterRange.1
    exact fun hm => (List.nodup_append.mp nodup).2.2 n hm n List.mem_cons_self rfl
  refine ⟨seen ++ [n], { env with tx := Function.update env.tx n outcome }, h.totalRange, h.iterRange, ?_,
    h.total_read, ?_⟩
  · simpa using h.order
  · have same : credit.iter (CoinState.dispenseVisit hw (Function.update env.tx n outcome)) seen {} =
        (⟨sum, requests⟩, none) := by
      rw [← h.dispensed]
      apply NominalGroup.iter_congr
      intro m hm
      have hne : m ≠ n := by rintro rfl; exact fresh hm
      funext count d
      simp [CoinState.dispenseVisit, Function.update_of_ne hne]
    rw [NominalGroup.iter_append, same]
    simp only [NominalGroup.iter, visit _ (Function.update_self n outcome env.tx)]
    cases err <;> rfl

theorem Reached.abort_refused {hw : CoinAcceptor} {credit : NominalGroup} {requests : List (UInt8 × Option TxError)}
    {total sum : Amount} {seen rest : List Nominal} {err : DispenseError} {env : MoneySystem.AbortEnv}
    (h : Reached hw credit requests total sum seen rest (some err) env) :
    MoneySystem.abort hw env credit = ⟨credit, requests, some (.dispense err)⟩ := by
  have walk : CoinState.dispense hw env.tx credit env.iterRange = (⟨sum, requests⟩, some err) := by
    rw [CoinState.dispense, h.order, NominalGroup.iter_append, h.dispensed]
  simp [MoneySystem.abort, walk]

theorem Reached.abort_finished {hw : CoinAcceptor} {credit : NominalGroup} {requests : List (UInt8 × Option TxError)}
    {total coinsReturned : Amount} {env : MoneySystem.AbortEnv}
    (h : Reached hw credit requests total coinsReturned env.iterRange [] none env) :
    MoneySystem.abort hw env credit = ⟨credit.clear, requests,
      if 0 < total - coinsReturned then some (.yetToReturn (total - coinsReturned)) else none⟩ := by
  have walk : CoinState.dispense hw env.tx credit env.iterRange = (⟨coinsReturned, requests⟩, none) := h.dispensed
  have read : total = credit.total env.totalRange := h.total_read
  simp [MoneySystem.abort, walk, ← read]

theorem follows_step {hw : CoinAcceptor} {credit : NominalGroup} {a b : Aborting} {e : AbortStep}
    (hs : step hw a e = some b) (h : Follows hw credit a) : Follows hw credit b := by
  cases took_of_step hs with
  | readTotal ht hi =>
    obtain ⟨rfl, rfl⟩ := h
    exact ⟨rfl, [], ⟨_, _, fun _ => none⟩, ht, hi, rfl, rfl, rfl⟩
  | finish =>
    obtain ⟨same, seen, env, h⟩ := h
    obtain rfl : env.iterRange = seen := by simpa using h.order
    exact ⟨same, env, h⟩
  | skip zero =>
    obtain ⟨rfl, seen, env, h⟩ := h
    exact ⟨rfl, h.next none fun tx _ => by rw [zero, CoinState.dispenseVisit_zero]⟩
  | refuse nonzero hr =>
    obtain ⟨rfl, seen, env, h⟩ := h
    refine ⟨rfl, h.next none fun tx _ => ?_⟩
    simp [CoinState.dispenseVisit, nonzero, CoinAcceptor.commandDispense, hr]
  | request nonzero hr =>
    obtain ⟨rfl, h⟩ := h
    exact ⟨rfl, h, rfl, nonzero, hr⟩
  | send => exact h
  | accept =>
    obtain ⟨rfl, ⟨seen, env, h⟩, read, nonzero, hr⟩ := h
    refine ⟨rfl, h.next none fun tx htx => ?_⟩
    rw [← read]
    simp [CoinState.dispenseVisit, nonzero, CoinAcceptor.commandDispense, hr, htx]
  | @fail _ _ _ _ _ _ err =>
    obtain ⟨rfl, ⟨seen, env, h⟩, read, nonzero, hr⟩ := h
    refine ⟨rfl, h.next (some err) fun tx htx => ?_⟩
    rw [← read]
    simp [CoinState.dispenseVisit, nonzero, CoinAcceptor.commandDispense, hr, htx]
  | resume => exact h
  | giveUp =>
    obtain ⟨rfl, seen, env, h⟩ := h
    exact ⟨env, h.totalRange, h.iterRange, h.abort_refused⟩
  | clear =>
    obtain ⟨rfl, h⟩ := h
    exact ⟨rfl, h⟩
  | subtract =>
    obtain ⟨rfl, env, h⟩ := h
    exact ⟨env, h.totalRange, h.iterRange, h.abort_finished⟩

/-- The atomic steps refine the whole function: an `Abort` that nobody disturbs
does what `abort` does in some environment. -/
theorem abort_of_steps {hw : CoinAcceptor} {credit credit' : NominalGroup} {requests : List (UInt8 × Option TxError)}
    {es : List AbortStep} {total coinsReturned : Amount} {err : Option AbortError}
    (h : Runs.run (step hw) ⟨.entered, credit, []⟩ es = some ⟨.returned total coinsReturned err, credit', requests⟩) :
    ∃ env : MoneySystem.AbortEnv, credit.IsRange env.totalRange ∧ credit.IsRange env.iterRange ∧
      MoneySystem.abort hw env credit = ⟨credit', requests, err⟩ := by
  have start : Follows hw credit ⟨.entered, credit, []⟩ := ⟨rfl, rfl⟩
  exact Runs.invariant_of_run (C := fun _ _ _ => True) (fun _ _ _ hs hi _ => follows_step hs hi) start
    (Runs.along_true _ _) h

end Aborting

end Vender
