import Mathlib.Tactic.Common

structure Channel (α : Type*) where
  capacity : Nat
  queue : List α
  bounded : queue.length ≤ capacity

namespace Channel

variable {α : Type*}

def make (capacity : Nat) : Channel α where
  capacity := capacity
  queue := []
  bounded := Nat.zero_le _

def Full (c : Channel α) : Prop := c.queue.length = c.capacity

instance (c : Channel α) : Decidable c.Full := inferInstanceAs (Decidable (_ = _))

/-- A send that does not block, `none` where it would. -/
def send (c : Channel α) (x : α) : Option (Channel α) :=
  if h : c.Full then none
  else some ⟨c.capacity, c.queue ++ [x], by
    have := c.bounded
    simp only [Full] at h
    simp only [List.length_append, List.length_singleton]
    omega⟩

/-- A receive that does not block, `none` where it would. -/
def receive (c : Channel α) : Option (α × Channel α) :=
  match h : c.queue with
  | [] => none
  | x :: rest => some (x, ⟨c.capacity, rest, by
      have := c.bounded
      simp only [h, List.length_cons] at this
      omega⟩)

theorem send_of_full {c : Channel α} (h : c.Full) (x : α) : c.send x = none := by
  simp [send, h]

theorem send_some {c d : Channel α} {x : α} (h : c.send x = some d) :
    d.queue = c.queue ++ [x] ∧ d.capacity = c.capacity := by
  unfold send at h
  split at h
  next => cases h
  next => cases h; exact ⟨rfl, rfl⟩

theorem receive_some {c d : Channel α} {x : α} (h : c.receive = some (x, d)) :
    c.queue = x :: d.queue ∧ d.capacity = c.capacity := by
  unfold receive at h
  split at h
  next => cases h
  next y rest hq => cases h; exact ⟨hq, rfl⟩

end Channel
