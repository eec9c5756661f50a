import Mathlib.Order.Nat
import Mathlib.Tactic.Common

/-- How a command ends: the next one of its line follows, the line begins again, the line is left,
or the program is. -/
inductive LineLoop.Outcome (σ : Type*)
  | next (s : σ)
  | again (s : σ)
  | leave (s : σ)
  | exit (s : σ)
deriving DecidableEq

/-- What is to hold after each ending. -/
structure LineLoop.Post (σ : Type*) where
  next : σ → Prop
  again : σ → Prop
  leave : σ → Prop
  exit : σ → Prop

namespace LineLoop

variable {σ ω : Type*}

def Post.Holds (Q : Post σ) : Outcome σ → Prop
  | .next s => Q.next s
  | .again s => Q.again s
  | .leave s => Q.leave s
  | .exit s => Q.exit s

/-- The commands of a line, once. -/
def pass (exec : ω → σ → Outcome σ) : List ω → σ → Outcome σ
  | [], s => .next s
  | w :: ws, s =>
    match exec w s with
    | .next t => pass exec ws t
    | o => o

/-- A line, as often as it begins again; `none` if that is more than the fuel allows. -/
def run (exec : ω → σ → Outcome σ) (line : List ω) : (fuel : Nat) → σ → Option (Outcome σ)
  | 0, _ => none
  | fuel + 1, s =>
    match pass exec line s with
    | .again t => run exec line fuel t
    | o => some o

variable {exec : ω → σ → Outcome σ} {P R : σ → Prop} {Q Q' : Post σ} {w : ω} {ws ws' line : List ω}

/-- From every state with `P` the commands end as `Q` says. -/
def Triple (exec : ω → σ → Outcome σ) (P : σ → Prop) (ws : List ω) (Q : Post σ) : Prop :=
  ∀ s, P s → Q.Holds (pass exec ws s)

theorem Triple.nil : Triple exec Q.next [] Q := fun _ h => h

theorem Triple.cons (first : ∀ s, P s → Post.Holds { Q with next := R } (exec w s)) (rest : Triple exec R ws Q) :
    Triple exec P (w :: ws) Q := by
  intro s h
  have now := first s h
  unfold pass
  cases ended : exec w s with
  | next t =>
    rw [ended] at now
    exact rest t now
  | again t | leave t | exit t =>
    rw [ended] at now
    exact now

theorem Triple.single (only : ∀ s, P s → Q.Holds (exec w s)) : Triple exec P [w] Q := Triple.cons only Triple.nil

theorem Triple.append (first : Triple exec P ws { Q with next := R }) (rest : Triple exec R ws' Q) :
    Triple exec P (ws ++ ws') Q := by
  induction ws generalizing P with
  | nil => exact fun s h => rest s (first s h)
  | cons w ws ih =>
    intro s h
    have whole := first s h
    rw [List.cons_append]
    unfold pass at whole ⊢
    cases ended : exec w s with
    | next t =>
      rw [ended] at whole
      exact ih (P := fun u => u = t) (by rintro u rfl; exact whole) t rfl
    | again t | leave t | exit t =>
      rw [ended] at whole
      exact whole

theorem Triple.weaken (h : Triple exec P ws Q) (next : ∀ s, Q.next s → Q'.next s)
    (again : ∀ s, Q.again s → Q'.again s)
    (leave : ∀ s, Q.leave s → Q'.leave s) (exit : ∀ s, Q.exit s → Q'.exit s) : Triple exec P ws Q' := by
  intro s hs
  have ends := h s hs
  cases ended : pass exec ws s with
  | next t =>
    rw [ended] at ends
    exact next t ends
  | again t =>
    rw [ended] at ends
    exact again t ends
  | leave t =>
    rw [ended] at ends
    exact leave t ends
  | exit t =>
    rw [ended] at ends
    exact exit t ends

/-- A line whose every turn that begins it again keeps `I` and brings `μ` down comes to an end. -/
theorem run_ends {I : σ → Prop} {μ : σ → Nat}
    (turn : ∀ n, Triple exec (fun s => I s ∧ μ s = n) line { Q with again := fun t => I t ∧ μ t < n })
    {s : σ} {fuel : Nat}
    (h : I s) (enough : μ s < fuel) :
    ∃ o, run exec line fuel s = some o ∧ Post.Holds { Q with again := fun _ => False } o := by
  induction fuel generalizing s with
  | zero => omega
  | succ fuel ih =>
    have ends := turn (μ s) s ⟨h, rfl⟩
    unfold run
    cases ended : pass exec line s with
    | again t =>
      rw [ended] at ends
      obtain ⟨kept, less⟩ := ends
      exact ih kept (by omega)
    | next t | leave t | exit t =>
      rw [ended] at ends
      exact ⟨_, rfl, ends⟩

end LineLoop
